import Detour.ResolvConf.Calls

/-! What a crash inside `take_over` or `restore` leaves behind, and what the next calls make
of it. -/

namespace Detour.ResolvConf

open Atomic Detour.Rust ResolvManager

variable {links : OsPath → Option ByteArray} {env : Env} {m : ResolvManager} {fs : Fs}
  {pid : Pid} {now : UInt64} {listenAddr : IpAddr}

theorem fromUTF8?_eq_some {b : ByteArray} {t : String} :
    String.fromUTF8? b = some t ↔ b = t.toByteArray := by
  constructor
  · intro h
    unfold String.fromUTF8? at h
    split at h
    · cases h; rfl
    · cases h
  · rintro rfl
    simp [String.fromUTF8?, String.fromUTF8, t.isValidUTF8]

theorem utf8_eq_ok {b : ByteArray} {t : String} : utf8 b = .ok t ↔ b = t.toByteArray := by
  rw [← fromUTF8?_eq_some]
  unfold utf8
  cases String.fromUTF8? b <;> simp

theorem readText_eq_ok {t : String} :
    fs.readText links = .ok t ↔ fs.contents links = some t.toByteArray := by
  cases h : fs.contents links <;>
    simp [Fs.readText, h, orNotFound, Except.bind, utf8_eq_ok]

/-- A system Detour has not touched: neither backup nor record, and a `resolv.conf` that is a
regular UTF-8 file or a link to one. -/
structure Untouched (links : OsPath → Option ByteArray) where
  fs : Fs
  noBackup : fs.backup = none
  noState : fs.state = none
  text : String
  reads : fs.readText links = .ok text

def SysOp.writes (f : File) : SysOp → Bool
  | .writeAtomic w => w.file = f
  | _ => false

def SysOp.removes (f : File) : SysOp → Bool
  | .remove g => g = f
  | _ => false

def wrote (f : File) (done : List SysOp) : Bool := done.any (SysOp.writes f)

def removed (f : File) (done : List SysOp) : Bool := done.any (SysOp.removes f)

theorem wrote_filter (f : File) (done : List SysOp) :
    wrote f (done.filter SysOp.modifies) = wrote f done := by
  rw [wrote, List.any_filter, wrote]
  congr 1
  funext o
  cases o <;> simp [SysOp.modifies, SysOp.writes]

theorem removed_filter (f : File) (done : List SysOp) :
    removed f (done.filter SysOp.modifies) = removed f done := by
  rw [removed, List.any_filter, removed]
  congr 1
  funext o
  cases o <;> simp [SysOp.modifies, SysOp.removes]

theorem crash_eq_exec_filter {α : Type} (p : Prog SysOp SysOp.Ret α) (n : Nat) :
    p.crash (handler env) n fs =
      exec (handler env) ((p.performed (handler env) n fs).filter SysOp.modifies) fs := by
  rw [Prog.crash_eq, exec_filter (handler_of_not_modifies env)]

theorem takeOver_performed_filter (u : Untouched links) (procs : ProcTable) (n : Nat) :
    ((m.takeOver pid now listenAddr).run.performed (handler ⟨procs, links⟩) n u.fs).filter
        SysOp.modifies <+: m.redirectWrites pid now listenAddr u.fs u.text := by
  have hreads : u.fs.readText (Env.links ⟨procs, links⟩) = .ok u.text := u.reads
  rw [Prog.performed, takeOver_trace_fresh u.noState]
  refine ((List.take_prefix n _).filter _).trans ?_
  rw [List.filter_cons_of_neg (by simp [SysOp.modifies])]
  exact redirect_trace_filter hreads

def afterReconcile (m : ResolvManager) (env : Env) (fs : Fs) : Fs :=
  (m.reconcileAfterCrash.run.run (handler env) fs).2

theorem afterReconcile_none (h : fs.state = none) : afterReconcile m env fs = fs := by
  rw [afterReconcile, reconcileAfterCrash_run_none h]

theorem afterReconcile_stale {s : TakeoverState} {b : ByteArray}
    (h : fs.state = some (.json s)) (hb : fs.backup = some b)
    (ha : alive env.procs s.pid = false) : afterReconcile m env fs = fs.restored b := by
  rw [afterReconcile, reconcileAfterCrash_run_stale h hb ha]

theorem ofTarget_target {n : Node} {t : String} (h : n.read links = some t.toByteArray) :
    Node.ofTarget t.toByteArray n.target = n := by
  cases n with
  | file b => rw [Node.target, Node.ofTarget, ← Option.some.inj h]
  | symlink target => rfl

theorem nmAfter_removed (nm : NmConf) :
    (if m.writesNm nm then (m.nmAfter nm).removed else m.nmAfter nm) = nm := by
  cases nm <;> cases h : m.nmDropin.parent <;> simp [writesNm, nmAfter, NmConf.removed, h]

/-- From a recorded takeover, whatever has become of `resolv.conf`, restore goes back to the
state it was recorded in. -/
theorem restored_recorded {text : String} (h : fs.readText links = .ok text)
    (r : Option Node) :
    Fs.restored ⟨r, some ⟨some text.toByteArray, some (.json (m.recorded pid now fs text))⟩,
      m.nmAfter fs.nm⟩ text.toByteArray = ⟨fs.resolv, some ⟨none, none⟩, fs.nm⟩ := by
  obtain ⟨node, hn, hread⟩ := Option.bind_eq_some_iff.mp (readText_eq_ok.mp h)
  simp only [Fs.restored, Fs.target, Fs.dropsNm, Fs.record, Fs.state, Option.bind_some,
    StateText.fromStr, recorded, hn, Option.all_some, nmAfter_removed]
  rw [ofTarget_target hread]

/-- Where recovery leads from a crash that had made the changes `d`: back, unless the drop-in
was written and the record was not. -/
structure Recovered (fs : Fs) (d : List SysOp) (fs' : Fs) : Prop where
  state : fs'.state = none
  resolv : fs'.resolv = fs.resolv
  nm : fs'.nm = if wrote .nmDropin d && !wrote .state d
    then .present NM_DROPIN_BODY.toByteArray else fs.nm

theorem recovered_of_idle {d : List SysOp} {fs' : Fs} (hs : fs'.state = none)
    (hr : fs'.resolv = fs.resolv)
    (hn : fs'.nm = if wrote .nmDropin d && !wrote .state d
      then .present NM_DROPIN_BODY.toByteArray else fs.nm) :
    Recovered fs d (afterReconcile m env fs') := by
  rw [afterReconcile_none hs]
  exact ⟨hs, hr, hn⟩

theorem takeOver_recovered (u : Untouched links) (procs : ProcTable)
    (hdead : env.procs.holder pid.raw.toNat = none) :
    ∀ d, d <+: m.redirectWrites pid now listenAddr u.fs u.text →
      Recovered u.fs d (afterReconcile m env (exec (handler ⟨procs, links⟩) d u.fs)) := by
  have hstale (r : Option Node) : afterReconcile m env
      ⟨r, some ⟨some u.text.toByteArray, some (.json (m.recorded pid now u.fs u.text))⟩,
        m.nmAfter u.fs.nm⟩ = ⟨u.fs.resolv, some ⟨none, none⟩, u.fs.nm⟩ := by
    rw [afterReconcile_stale rfl rfl (by simp [recorded, alive_pid, hdead]),
      restored_recorded u.reads]
  have hrecord : wrote .state (m.recordWrites pid now u.fs u.text) = true := by
    simp [recordWrites, wrote, SysOp.writes, Write.file]
  have hall : wrote .state (m.redirectWrites pid now listenAddr u.fs u.text) = true := by
    simp [redirectWrites, recordWrites, wrote, SysOp.writes, Write.file]
  refine redirect_stages (P := fun d fs => Recovered u.fs d (afterReconcile m env fs))
    ?start ?dir ?backup ?dropin ?record ?redirected
  case start => exact recovered_of_idle u.noState rfl rfl
  case dir => exact recovered_of_idle (by simp [u.noState]) rfl rfl
  case backup => exact recovered_of_idle u.noState rfl rfl
  case dropin =>
    intro hw
    exact recovered_of_idle u.noState rfl
      (by simp [Fs.backedUp, nmAfter, hw, wrote, SysOp.writes, Write.file])
  case record => exact (hstale _).symm ▸ ⟨rfl, rfl, by simp [hrecord]⟩
  case redirected => exact (hstale _).symm ▸ ⟨rfl, rfl, by simp [hall]⟩

theorem takeOver_crash_recovered (m : ResolvManager) (u : Untouched links)
    (procs procs' : ProcTable) (pid : Pid) (now : UInt64) (listenAddr : IpAddr) (n : Nat)
    (hdead : procs'.holder pid.raw.toNat = none) :
    Recovered u.fs
      ((m.takeOver pid now listenAddr).run.performed (handler ⟨procs, links⟩) n u.fs)
      (afterReconcile m ⟨procs', links⟩
        ((m.takeOver pid now listenAddr).run.crash (handler ⟨procs, links⟩) n u.fs)) := by
  have hprefix : ((m.takeOver pid now listenAddr).run.performed (handler ⟨procs, links⟩) n
      u.fs).filter SysOp.modifies <+: m.redirectWrites pid now listenAddr u.fs u.text :=
    takeOver_performed_filter u procs n
  have hdead' : (Env.procs ⟨procs', links⟩).holder pid.raw.toNat = none := hdead
  obtain ⟨hs, hr, hn⟩ := takeOver_recovered u procs hdead' _ hprefix
  rw [← crash_eq_exec_filter] at hs hr hn
  simp only [wrote_filter] at hn
  exact ⟨hs, hr, hn⟩

theorem absent_of_wrote {text : String} {d : List SysOp}
    (hd : d <+: m.redirectWrites pid now listenAddr fs text)
    (hw : wrote .nmDropin d = true) : fs.nm = .absent := by
  obtain ⟨o, ho, hwo⟩ := List.any_eq_true.mp hw
  have ho' := hd.subset ho
  cases hnm : m.writesNm fs.nm with
  | true => simp [writesNm] at hnm; exact hnm.2
  | false =>
    simp only [redirectWrites, recordWrites, hnm, Bool.false_eq_true, if_false,
      List.append_nil, List.cons_append, List.nil_append, List.mem_cons, List.not_mem_nil,
      or_false] at ho'
    rcases ho' with rfl | rfl | rfl | rfl <;> simp [SysOp.writes, Write.file] at hwo

/-! ### Later uses -/

structure Session where
  procs : ProcTable
  pid : Pid
  now : UInt64
  listenAddr : IpAddr
  procs' : ProcTable

def Session.run (m : ResolvManager) (links : OsPath → Option ByteArray) (fs : Fs)
    (s : Session) : Option Fs :=
  match (m.takeOver s.pid s.now s.listenAddr).run.run (handler ⟨s.procs, links⟩) fs with
  | (.ok _, fs₁) => match m.restore.run.run (handler ⟨s.procs', links⟩) fs₁ with
    | (.ok _, fs₂) => some fs₂
    | _ => none
  | _ => none

def sessions (m : ResolvManager) (links : OsPath → Option ByteArray) (ss : List Session)
    (fs : Fs) : Option Fs := ss.foldlM (Session.run m links) fs

theorem session_run {s : Session} {fs' : Fs} {text : String} (hs : fs.state = none)
    (ht : fs.readText links = .ok text) (h : s.run m links fs = some fs') :
    fs'.state = none ∧ fs'.resolv = fs.resolv ∧ fs'.nm = fs.nm := by
  have ht' : fs.readText (Env.links ⟨s.procs, links⟩) = .ok text := ht
  simp only [Session.run, takeOver_run_fresh hs] at h
  cases hl : fs.linkIsText with
  | false =>
    rw [redirect_run_panic ht' hl] at h
    cases h
  | true =>
    rw [redirect_run ht' hl] at h
    have hb : (fs.takenOver m s.pid s.now s.listenAddr text).backup = some text.toByteArray := rfl
    simp only [restore_run hb] at h
    have hr : (fs.takenOver m s.pid s.now s.listenAddr text).restored text.toByteArray =
        ⟨fs.resolv, some ⟨none, none⟩, fs.nm⟩ := restored_recorded ht _
    cases h
    rw [hr]
    exact ⟨rfl, rfl, rfl⟩

theorem sessions_run {ss : List Session} {fs' : Fs} {text : String} (hs : fs.state = none)
    (ht : fs.readText links = .ok text) (h : sessions m links ss fs = some fs') :
    fs'.resolv = fs.resolv ∧ fs'.nm = fs.nm := by
  induction ss generalizing fs with
  | nil => cases h; exact ⟨rfl, rfl⟩
  | cons s ss ih =>
    obtain ⟨fs₁, h₁, h₂⟩ := Option.bind_eq_some_iff.mp h
    obtain ⟨hs₁, hr₁, hn₁⟩ := session_run hs ht h₁
    have ht₁ : fs₁.readText links = .ok text := by
      rw [← ht, Fs.readText, Fs.readText, Fs.contents, Fs.contents, hr₁]
    rw [← hr₁, ← hn₁]
    exact ih hs₁ ht₁ h₂

/-- After a crash inside the first takeover, recovery and any later uses bring `resolv.conf`
and the drop-in back, unless the crash fell between the write of the drop-in and the record. -/
theorem takeOver_crash_recovers_iff (m : ResolvManager) (u : Untouched links)
    (procs procs' : ProcTable) (pid : Pid) (now : UInt64) (listenAddr : IpAddr) (n : Nat)
    (hdead : procs'.holder pid.raw.toNat = none) :
    let call := (m.takeOver pid now listenAddr).run
    let done := call.performed (handler ⟨procs, links⟩) n u.fs
    let fs₁ := afterReconcile m ⟨procs', links⟩ (call.crash (handler ⟨procs, links⟩) n u.fs)
    (∀ ss fs', sessions m links ss fs₁ = some fs' →
      fs'.resolv = u.fs.resolv ∧ fs'.nm = u.fs.nm) ↔
    ¬(wrote .nmDropin done = true ∧ wrote .state done = false) := by
  intro call done fs₁
  obtain ⟨hs, hr, hn⟩ : Recovered u.fs done fs₁ :=
    takeOver_crash_recovered m u procs procs' pid now listenAddr n hdead
  have ht : fs₁.readText links = .ok u.text := by
    rw [← u.reads, Fs.readText, Fs.readText, Fs.contents, Fs.contents, hr]
  constructor
  · rintro h ⟨hwn, hws⟩
    have hnm := (h [] fs₁ rfl).2
    have habs := absent_of_wrote (takeOver_performed_filter u procs n)
      ((wrote_filter _ _).trans hwn)
    have hbody := hn.trans (if_pos (by simp [hwn, hws]))
    rw [hnm, habs] at hbody
    cases hbody
  · intro h ss fs' hrun
    obtain ⟨hr', hn'⟩ := sessions_run hs ht hrun
    refine ⟨hr'.trans hr, hn'.trans (hn.trans (if_neg ?_))⟩
    simpa using h

/-! ### A machine to run on -/

def idleProcs : ProcTable := ⟨fun _ => none, fun _ => false⟩

def pid1000 : Pid := ⟨1000, by decide, by decide⟩

def googleText : String := "nameserver 8.8.8.8\n"

def plain : Untouched (fun _ => none) where
  fs := ⟨some (.file googleText.toByteArray), none, .absent⟩
  noBackup := rfl
  noState := rfl
  text := googleText
  reads := readText_eq_ok.mpr rfl

def proxyAddr : IpAddr := .v4 (.new 127 0 0 53)

theorem plain_performed (n : Nat) :
    (default.takeOver pid1000 0 proxyAddr).run.performed (handler ⟨idleProcs, fun _ => none⟩) n
      plain.fs = ([.readState, .createStateDir, .lstatResolv, .readResolv,
        .writeAtomic (.backup googleText.toByteArray), .nmParentIsDir, .nmDropinExists,
        .writeAtomic (.nmDropin NM_DROPIN_BODY.toByteArray),
        .writeAtomic (.state (default.recorded pid1000 0 plain.fs googleText)),
        .writeAtomic (.resolvConf (default.takeoverBody proxyAddr).toByteArray)]).take n := by
  rw [Prog.performed, takeOver_trace_fresh plain.noState, redirect_trace plain.reads rfl]
  rfl

/-- The process dies with the drop-in written and nothing recorded: it stays for good. -/
theorem plain_crash_keeps_dropin :
    ¬∀ ss fs', sessions default (fun _ => none) ss
        (afterReconcile default ⟨idleProcs, fun _ => none⟩
          ((default.takeOver pid1000 0 proxyAddr).run.crash
            (handler ⟨idleProcs, fun _ => none⟩) 8 plain.fs)) = some fs' →
      fs'.resolv = plain.fs.resolv ∧ fs'.nm = plain.fs.nm := by
  intro h
  have hrec := takeOver_crash_recovered default plain idleProcs idleProcs pid1000 0 proxyAddr 8 rfl
  have hnm := hrec.nm
  rw [(h [] _ rfl).2, plain_performed] at hnm
  simp [wrote, SysOp.writes, Write.file, plain] at hnm

theorem plain_recovers_when_recorded :
    idleProcs.holder pid1000.raw.toNat = none ∧ ∀ ss fs', sessions default (fun _ => none) ss
        (afterReconcile default ⟨idleProcs, fun _ => none⟩
          ((default.takeOver pid1000 0 proxyAddr).run.crash
            (handler ⟨idleProcs, fun _ => none⟩) 9 plain.fs)) = some fs' →
      fs'.resolv = plain.fs.resolv ∧ fs'.nm = plain.fs.nm := by
  refine ⟨rfl, (takeOver_crash_recovers_iff default plain idleProcs idleProcs pid1000 0 proxyAddr 9
    rfl).mpr ?_⟩
  rw [plain_performed]
  simp [wrote, SysOp.writes, Write.file]

end Detour.ResolvConf
