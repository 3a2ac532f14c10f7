import Detour.ResolvConf.CrashRecovery

/-! What a takeover leaves behind when one of its calls on files fails. -/

namespace Detour.ResolvConf

open Atomic Detour.Rust ResolvManager

/-! ### Calls that fail -/

structure Faults where
  readState : Option ErrorKind
  createStateDir : Option ErrorKind
  lstatResolv : Option ErrorKind
  readlinkResolv : Option ErrorKind
  readResolv : Option ErrorKind
  writeAtomic : File → Option WriteError

def orFail (fault : Option ε) (call : Except ε α × Fs) (fs : Fs) : Except ε α × Fs :=
  match fault with
  | some e => (.error e, fs)
  | none => call

def failing (faults : Faults) (env : Env) : Handler SysOp SysOp.Ret Fs
  | .readState, fs => orFail faults.readState (handler env .readState fs) fs
  | .createStateDir, fs => orFail faults.createStateDir (handler env .createStateDir fs) fs
  | .lstatResolv, fs => orFail faults.lstatResolv (handler env .lstatResolv fs) fs
  | .readlinkResolv, fs => orFail faults.readlinkResolv (handler env .readlinkResolv fs) fs
  | .readResolv, fs => orFail faults.readResolv (handler env .readResolv fs) fs
  | .writeAtomic w, fs =>
    orFail (faults.writeAtomic w.file) (handler env (.writeAtomic w) fs) fs
  | o, fs => handler env o fs

namespace Faults

variable (faults : Faults) (env : Env) (fs : Fs)

def record : Except ErrorKind StateText := (orFail faults.readState (orNotFound fs.state, fs) fs).1

def link : Option OsPath :=
  if faults.lstatResolv = none ∧ faults.readlinkResolv = none then fs.resolv.bind Node.target
  else none

def text : Except ErrorKind String :=
  (orFail faults.readResolv (fs.readText env.links, fs) fs).1

def BacksUp : Prop :=
  faults.record fs = .error .notFound ∧ faults.createStateDir = none ∧
    (∃ text, faults.text env fs = .ok text) ∧ faults.writeAtomic .backup = none

def StopsLate : Prop :=
  (faults.link fs).all ByteArray.validateUTF8 ∧
    (faults.writeAtomic .state ≠ none ∨ faults.writeAtomic .resolvConf ≠ none)

end Faults

/-! ### The calls -/

variable {faults : Faults} {env : Env} {m : ResolvManager} {fs : Fs} {pid : Pid} {now : UInt64}
  {listenAddr : IpAddr}

/-- `resolv.conf` and the drop-in are as they were. -/
def Undisturbed (fs fs' : Fs) : Prop := fs'.resolv = fs.resolv ∧ fs'.nm = fs.nm

theorem run_fail_failing (e : ResolvError) :
    (ExceptT.run (fail e : FsM α)).run (failing faults env) fs = (.error (.err e), fs) := rfl

theorem writeAtomic_fault (env : Env) (fs : Fs) {e : WriteError} (path : Path) (w : Write)
    (h : faults.writeAtomic w.file = some e) : ∃ stop,
    (ExceptT.run (writeAtomic path w)).run (failing faults env) fs = (.error (.err stop), fs) := by
  have hput : failing faults env (.writeAtomic w) fs = (.error e, fs) := by
    rw [failing, h]
    rfl
  cases e with
  | tmp e => exact ⟨_, by simp only [writeAtomic, Fallible.run_bind, Fallible.run_sys, hput]; rfl⟩
  | target e =>
    exact ⟨_, by simp only [writeAtomic, Fallible.run_bind, Fallible.run_sys, hput]; rfl⟩

theorem writeAtomic_ok (env : Env) (fs : Fs) (path : Path) (w : Write)
    (h : faults.writeAtomic w.file = none) :
    (ExceptT.run (writeAtomic path w)).run (failing faults env) fs =
      (writeOutcome path (fs.put w).1, (fs.put w).2) := by
  have hput : failing faults env (.writeAtomic w) fs = fs.put w := by
    rw [failing, h]
    rfl
  rcases hp : fs.put w with ⟨(_ | _) | _, _⟩ <;>
    simp only [writeAtomic, Fallible.run_bind, Fallible.run_sys, hput, hp] <;> rfl

namespace ResolvManager

theorem symlinkTarget_failing : (ExceptT.run symlinkTarget).run (failing faults env) fs =
    (.ok (faults.link fs), fs) := by
  obtain ⟨_ | _ | _, stateDir, nm⟩ := fs <;> rcases hl : faults.lstatResolv with _ | _ <;>
    rcases hr : faults.readlinkResolv with _ | _ <;>
    simp [symlinkTarget, failing, orFail, Faults.link, handler, orNotFound, Node.fileType,
      Node.target, Except.toOption, Except.map, hl, hr]

theorem writeNmDropin_failing
    (h : m.writesNm fs.nm = false ∨ faults.writeAtomic .nmDropin = none) :
    (ExceptT.run m.writeNmDropin).run (failing faults env) fs =
      (.ok (m.writesNm fs.nm), { fs with nm := m.nmAfter fs.nm }) := by
  obtain ⟨resolv, stateDir, nm⟩ := fs
  cases hparent : m.nmDropin.parent with
  | none => simp [writeNmDropin, writesNm, nmAfter, hparent]
  | some parent =>
    cases nm with
    | absent =>
      have hok := h.resolve_left (by simp [writesNm, hparent])
      simp [writeNmDropin, failing, handler, writesNm, nmAfter, Fs.put, Except.map, hparent,
        writeAtomic_ok env _ m.nmDropin (.nmDropin NM_DROPIN_BODY.toByteArray) hok]
    | _ => simp [writeNmDropin, failing, handler, writesNm, nmAfter, hparent]

theorem writeNmDropin_fault (env : Env) {e : WriteError} (h : m.writesNm fs.nm = true)
    (hfault : faults.writeAtomic .nmDropin = some e) : ∃ stop,
    (ExceptT.run m.writeNmDropin).run (failing faults env) fs = (.error (.err stop), fs) := by
  obtain ⟨hparent, habsent⟩ : m.nmDropin.parent.isSome = true ∧ fs.nm = .absent := by
    simpa [writesNm] using h
  obtain ⟨parent, hparent⟩ := Option.isSome_iff_exists.mp hparent
  obtain ⟨stop, hstop⟩ := writeAtomic_fault env fs m.nmDropin
    (.nmDropin NM_DROPIN_BODY.toByteArray) hfault
  exact ⟨stop, by
    simp [writeNmDropin, failing, handler, hparent, habsent, hstop, Except.map]⟩

/-! ### Before the drop-in -/

def recordAndRedirect (m : ResolvManager) (listenAddr : IpAddr) (state : TakeoverState) :
    FsM TakeoverState := do
  let encoded ← expect "state serialises" (serialises state)
  writeAtomic m.statePath (.state encoded)
  writeAtomic m.resolvPath (.resolvConf (m.takeoverBody listenAddr).toByteArray)
  return state

def finish (m : ResolvManager) (pid : Pid) (now : UInt64) (listenAddr : IpAddr) (text : String)
    (target : Option OsPath) : FsM TakeoverState := do
  let wroteNmDropin ← m.writeNmDropin
  m.recordAndRedirect listenAddr ⟨pid.raw, now, parseNameservers text, target, wroteNmDropin⟩

theorem failing_readState : failing faults env .readState fs = (faults.record fs, fs) := by
  rcases h : faults.readState with _ | e <;> simp [failing, Faults.record, orFail, handler, h]

theorem failing_readResolv : failing faults env .readResolv fs = (faults.text env fs, fs) := by
  rcases h : faults.readResolv with _ | e <;> simp [failing, Faults.text, orFail, handler, h]

theorem failing_createStateDir (h : faults.createStateDir = none) :
    failing faults env .createStateDir fs = (.ok (), fs.withStateDir) := by
  rw [failing, h]
  rfl

theorem text_withStateDir : faults.text env fs.withStateDir = faults.text env fs := by
  rcases h : faults.readResolv with _ | e <;> simp [Faults.text, orFail, h]

theorem clearTheWay_free (h : faults.record fs = .error .notFound) :
    (ExceptT.run m.clearTheWay).run (failing faults env) fs = (.ok (), fs) := by
  simp [clearTheWay, readState, failing_readState, h]

theorem takeOver_backsUp {text : String} (h : faults.BacksUp env fs)
    (htext : faults.text env fs = .ok text) :
    (ExceptT.run (m.takeOver pid now listenAddr)).run (failing faults env) fs =
      (ExceptT.run (m.finish pid now listenAddr text (faults.link fs))).run (failing faults env)
        ⟨fs.resolv, some ⟨some text.toByteArray, fs.state⟩, fs.nm⟩ := by
  obtain ⟨hrecord, hdir, -, hbackup⟩ := h
  have hlink : faults.link fs.withStateDir = faults.link fs := rfl
  have hkeep := writeAtomic_ok env fs.withStateDir m.backupPath
    (.backup text.toByteArray) hbackup
  rw [withStateDir_put_backup] at hkeep
  simp [takeOver, clearTheWay_free hrecord, redirect, finish, recordAndRedirect,
    failing_createStateDir hdir, symlinkTarget_failing, failing_readResolv,
    text_withStateDir, htext, hlink, hkeep]

theorem clearTheWay_stuck (m : ResolvManager) (env : Env) (hno : fs.record = none)
    (h : faults.record fs ≠ .error .notFound) :
    ∃ stop, (ExceptT.run m.clearTheWay).run (failing faults env) fs =
      (.error (.err stop), fs) := by
  have hgarbled (text : StateText) (htext : faults.record fs = .ok text) : text.fromStr = none := by
    rcases hf : faults.readState with _ | e
    · rcases hs : fs.state with _ | t
      · simp [Faults.record, orFail, orNotFound, hf, hs] at htext
      · obtain rfl : t = text := by
          simpa [Faults.record, orFail, orNotFound, hf, hs] using htext
        rw [Fs.record, hs] at hno
        exact hno
    · simp [Faults.record, orFail, hf] at htext
  rcases hrecord : faults.record fs with e | text
  · cases e with
    | notFound => exact absurd hrecord h
    | _ => exact ⟨_, by simp [clearTheWay, readState, failing_readState, hrecord]; rfl⟩
  · exact ⟨_, by
      simp [clearTheWay, readState, failing_readState, hrecord, hgarbled text hrecord]
      rfl⟩

theorem takeOver_fails_early (hno : fs.record = none) (h : ¬faults.BacksUp env fs) :
    ∃ stop fs', (ExceptT.run (m.takeOver pid now listenAddr)).run (failing faults env) fs =
      (.error (.err stop), fs') ∧ Undisturbed fs fs' := by
  by_cases hrecord : faults.record fs = .error .notFound
  · rcases hdir : faults.createStateDir with _ | e
    · rcases htext : faults.text env fs with e | text
      · refine ⟨ioErr m.resolvPath e, fs.withStateDir, ?_, rfl, rfl⟩
        simp [takeOver, clearTheWay_free hrecord, redirect, failing_createStateDir hdir,
          symlinkTarget_failing, failing_readResolv, text_withStateDir, htext, run_fail_failing]
      · rcases hbackup : faults.writeAtomic .backup with _ | e
        · exact absurd ⟨hrecord, hdir, ⟨text, htext⟩, hbackup⟩ h
        · obtain ⟨stop, hstop⟩ := writeAtomic_fault env fs.withStateDir
            m.backupPath (.backup text.toByteArray) hbackup
          refine ⟨stop, fs.withStateDir, ?_, rfl, rfl⟩
          simp [takeOver, clearTheWay_free hrecord, redirect, failing_createStateDir hdir,
            symlinkTarget_failing, failing_readResolv, text_withStateDir, htext, hstop]
    · refine ⟨ioErr m.stateDir e, fs, ?_, rfl, rfl⟩
      have hmkdir : failing faults env .createStateDir fs = (.error e, fs) := by
        rw [failing, hdir]
        rfl
      simp [takeOver, clearTheWay_free hrecord, redirect, hmkdir, run_fail_failing]
  · obtain ⟨stop, hstop⟩ := m.clearTheWay_stuck env hno hrecord
    refine ⟨stop, fs, ?_, rfl, rfl⟩
    simp [takeOver, hstop]

/-! ### From the drop-in on -/

variable {text : String} {target : Option OsPath} {state : TakeoverState} {resolv : Option Node}
  {d : StateDir} {nm : NmConf}

theorem finish_dropin_fails (m : ResolvManager) (env : Env) (pid : Pid) (now : UInt64)
    (listenAddr : IpAddr) (text : String) (target : Option OsPath) (resolv : Option Node)
    (d : StateDir) (hnm : m.writesNm nm = true)
    (h : faults.writeAtomic .nmDropin ≠ none) :
    ∃ stop, (ExceptT.run (m.finish pid now listenAddr text target)).run (failing faults env)
      ⟨resolv, some d, nm⟩ = (.error (.err stop), ⟨resolv, some d, nm⟩) := by
  obtain ⟨e, he⟩ := Option.ne_none_iff_exists'.mp h
  obtain ⟨stop, hstop⟩ : ∃ stop, (ExceptT.run m.writeNmDropin).run (failing faults env)
      ⟨resolv, some d, nm⟩ = (.error (.err stop), ⟨resolv, some d, nm⟩) :=
    writeNmDropin_fault env hnm he
  exact ⟨stop, by simp [finish, hstop]⟩

theorem finish_dropin (h : m.writesNm nm = false ∨ faults.writeAtomic .nmDropin = none) :
    (ExceptT.run (m.finish pid now listenAddr text target)).run (failing faults env)
      ⟨resolv, some d, nm⟩ =
      (ExceptT.run (m.recordAndRedirect listenAddr ⟨pid.raw, now, parseNameservers text, target,
        m.writesNm nm⟩)).run (failing faults env) ⟨resolv, some d, m.nmAfter nm⟩ := by
  have hdropin : (ExceptT.run m.writeNmDropin).run (failing faults env) ⟨resolv, some d, nm⟩ =
      (.ok (m.writesNm nm), ⟨resolv, some d, m.nmAfter nm⟩) := writeNmDropin_failing h
  simp [finish, hdropin]

theorem recordAndRedirect_fails (m : ResolvManager) (env : Env) (listenAddr : IpAddr)
    (state : TakeoverState) (resolv : Option Node) (d : StateDir) (nm : NmConf)
    (hlink : state.originalSymlinkTarget.all ByteArray.validateUTF8)
    (h : faults.writeAtomic .state ≠ none ∨ faults.writeAtomic .resolvConf ≠ none) :
    ∃ stop stateDir, (ExceptT.run (m.recordAndRedirect listenAddr state)).run
      (failing faults env) ⟨resolv, some d, nm⟩ = (.error (.err stop), ⟨resolv, stateDir, nm⟩) := by
  rcases hstate : faults.writeAtomic .state with _ | e
  · obtain ⟨e, he⟩ := Option.ne_none_iff_exists'.mp (h.resolve_left (not_not.mpr hstate))
    obtain ⟨stop, hstop⟩ := writeAtomic_fault env ⟨resolv, some ⟨d.backup, some (.json state)⟩, nm⟩
      m.resolvPath (.resolvConf (m.takeoverBody listenAddr).toByteArray) he
    refine ⟨stop, some ⟨d.backup, some (.json state)⟩, ?_⟩
    simp [recordAndRedirect, serialises, hlink,
      writeAtomic_ok env _ m.statePath (.state state) hstate, hstop, Except.map]
  · obtain ⟨stop, hstop⟩ := writeAtomic_fault env ⟨resolv, some d, nm⟩ m.statePath
      (.state state) hstate
    exact ⟨stop, some d, by simp [recordAndRedirect, serialises, hlink, hstop]⟩

theorem recordAndRedirect_unfailing
    (h : ¬(state.originalSymlinkTarget.all ByteArray.validateUTF8 = true ∧
      (faults.writeAtomic .state ≠ none ∨ faults.writeAtomic .resolvConf ≠ none)))
    (stop : ResolvError) (fs' : Fs) :
    (ExceptT.run (m.recordAndRedirect listenAddr state)).run (failing faults env)
      ⟨resolv, some d, nm⟩ ≠ (.error (.err stop), fs') := by
  cases hlink : state.originalSymlinkTarget.all ByteArray.validateUTF8 with
  | false => simp [recordAndRedirect, serialises, hlink, expect]
  | true =>
    rw [not_and_or, not_or, not_not, not_not] at h
    obtain ⟨hstate, hresolv⟩ := h.resolve_left (not_not.mpr hlink)
    simp [recordAndRedirect, serialises, hlink, Except.map,
      writeAtomic_ok env _ m.statePath (.state state) hstate,
      writeAtomic_ok env _ m.resolvPath
        (.resolvConf (m.takeoverBody listenAddr).toByteArray) hresolv]

theorem nmAfter_eq_iff (nm : NmConf) : m.nmAfter nm = nm ↔ m.writesNm nm = false := by
  cases h : m.writesNm nm with
  | false => simp [nmAfter, h]
  | true =>
    have habsent : nm = .absent := by
      rw [writesNm, Bool.and_eq_true, decide_eq_true_eq] at h
      exact h.2
    rw [nmAfter, if_pos h, habsent]
    simp

theorem takeOver_fails_late (m : ResolvManager) (env : Env) (pid : Pid) (now : UInt64)
    (listenAddr : IpAddr) (hearly : faults.BacksUp env fs)
    (hdropin : m.writesNm fs.nm = false ∨ faults.writeAtomic .nmDropin = none)
    (hlate : faults.StopsLate fs) : ∃ stop stateDir,
    (ExceptT.run (m.takeOver pid now listenAddr)).run (failing faults env) fs =
      (.error (.err stop), ⟨fs.resolv, stateDir, m.nmAfter fs.nm⟩) := by
  obtain ⟨text, htext⟩ := hearly.2.2.1
  rw [takeOver_backsUp hearly htext, finish_dropin hdropin]
  exact m.recordAndRedirect_fails env listenAddr _ fs.resolv _ (m.nmAfter fs.nm) hlate.1 hlate.2

/-- A takeover with no record to undo leaves `resolv.conf` and the drop-in as they were whenever
it fails, exactly when it writes no drop-in, or something fails before that, or nothing after. -/
theorem takeOver_undisturbed_iff (hno : fs.record = none) :
    (∀ stop fs', (ExceptT.run (m.takeOver pid now listenAddr)).run (failing faults env) fs =
      (.error (.err stop), fs') → Undisturbed fs fs') ↔
    m.writesNm fs.nm = false ∨ ¬faults.BacksUp env fs ∨ faults.writeAtomic .nmDropin ≠ none ∨
      ¬faults.StopsLate fs := by
  by_cases hearly : faults.BacksUp env fs
  · by_cases hdropin : m.writesNm fs.nm = false ∨ faults.writeAtomic .nmDropin = none
    · by_cases hlate : faults.StopsLate fs
      · -- the drop-in is in place, or there is none
        obtain ⟨stop, stateDir, hfail⟩ :=
          m.takeOver_fails_late env pid now listenAddr hearly hdropin hlate
        rw [hfail]
        constructor
        · intro hall
          exact .inl ((nmAfter_eq_iff fs.nm).mp (hall stop _ rfl).2)
        · intro hcond stop' fs' hrun
          obtain ⟨-, rfl⟩ := Prod.mk.inj hrun
          refine ⟨rfl, (nmAfter_eq_iff fs.nm).mpr ?_⟩
          rcases hcond with hnm | hbacks | hfault | hnot
          · exact hnm
          · exact absurd hearly hbacks
          · exact hdropin.resolve_right hfault
          · exact absurd hlate hnot
      · -- nothing fails after the drop-in
        apply iff_of_true _ (.inr (.inr (.inr hlate)))
        intro stop fs' hrun
        obtain ⟨text, htext⟩ := hearly.2.2.1
        rw [takeOver_backsUp hearly htext, finish_dropin hdropin] at hrun
        refine absurd hrun (recordAndRedirect_unfailing ?_ stop fs')
        exact hlate
    · -- the drop-in itself fails
      rw [not_or, Bool.not_eq_false] at hdropin
      apply iff_of_true _ (.inr (.inr (.inl hdropin.2)))
      intro stop fs' hrun
      obtain ⟨text, htext⟩ := hearly.2.2.1
      obtain ⟨stop', hfail⟩ := m.finish_dropin_fails env pid now listenAddr text (faults.link fs)
        fs.resolv ⟨some text.toByteArray, fs.state⟩ hdropin.1 hdropin.2
      rw [takeOver_backsUp hearly htext, hfail] at hrun
      obtain ⟨-, rfl⟩ := Prod.mk.inj hrun
      exact ⟨rfl, rfl⟩
  · apply iff_of_true _ (.inr (.inl hearly))
    intro stop fs' hrun
    obtain ⟨stop', fs'', hfail, hsame⟩ := takeOver_fails_early hno hearly
    rw [hfail] at hrun
    obtain ⟨-, rfl⟩ := Prod.mk.inj hrun
    exact hsame

end ResolvManager

def cannotWrite (f : File) : Faults :=
  ⟨none, none, none, none, none, fun g => if g = f then some (.tmp .other) else none⟩

theorem plain_backsUp {f : File} (h : f ≠ .backup) :
    (cannotWrite f).BacksUp ⟨idleProcs, fun _ => none⟩ plain.fs := by
  have hbackup : (cannotWrite f).writeAtomic .backup = none := if_neg h.symm
  exact ⟨rfl, rfl, ⟨plain.text, plain.reads⟩, hbackup⟩

theorem plain_undisturbed_iff : (∀ stop fs',
    (ExceptT.run (ResolvManager.default.takeOver pid1000 0 proxyAddr)).run
      (failing (cannotWrite .backup) ⟨idleProcs, fun _ => none⟩) plain.fs =
        (.error (.err stop), fs') → Undisturbed plain.fs fs') ↔
    ResolvManager.default.writesNm plain.fs.nm = false ∨
      ¬(cannotWrite .backup).BacksUp ⟨idleProcs, fun _ => none⟩ plain.fs ∨
      (cannotWrite .backup).writeAtomic .nmDropin ≠ none ∨
      ¬(cannotWrite .backup).StopsLate plain.fs :=
  takeOver_undisturbed_iff rfl

/-- The record cannot be written, and the drop-in that has been written stays. -/
theorem plain_disturbed : ¬∀ (m : ResolvManager) (env : Env) (faults : Faults) (fs : Fs)
    (pid : Pid) (now : UInt64) (listenAddr : IpAddr), fs.record = none → ∀ stop fs',
    (ExceptT.run (m.takeOver pid now listenAddr)).run (failing faults env) fs =
      (.error (.err stop), fs') → fs'.resolv = fs.resolv ∧ fs'.nm = fs.nm := by
  intro hall
  obtain ⟨stop, stateDir, hfail⟩ := ResolvManager.default.takeOver_fails_late
    ⟨idleProcs, fun _ => none⟩ pid1000 0 proxyAddr (@plain_backsUp .state (by decide))
    (.inr rfl) ⟨rfl, .inl (by decide)⟩
  have hnm : ResolvManager.default.nmAfter plain.fs.nm = plain.fs.nm :=
    (hall _ _ _ _ _ _ _ rfl _ _ hfail).2
  rw [nmAfter_eq_iff] at hnm
  exact absurd hnm (by decide)

end Detour.ResolvConf
