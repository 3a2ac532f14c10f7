import Detour.ResolvConf.Disk
import Detour.ResolvConf.Runs

/-! What a reader of `resolv.conf` sees while calls run, are cut short, and run again. -/

namespace Detour.ResolvConf

open Atomic Detour.Rust ResolvManager

variable {links : OsPath → Option ByteArray} {env : Env} {m : ResolvManager} {fs : Fs}
  {pid : Pid} {now : UInt64} {listenAddr : IpAddr} {c : ByteArray}

/-- Reading `resolv.conf` yields the complete original `c` or a complete takeover file. -/
def Fs.Reads (m : ResolvManager) (links : OsPath → Option ByteArray) (c : ByteArray)
    (fs : Fs) : Prop := fs.contents links = some c ∨ fs.isTakenOver m links

/-- What holds of the files between any two changes, the one gap of a link apart. -/
structure Held (m : ResolvManager) (links : OsPath → Option ByteArray) (c : ByteArray)
    (fs : Fs) : Prop where
  reads : fs.Reads m links c
  unrecorded : fs.state = none → fs.contents links = some c
  backup : fs.backup = none ∨ fs.backup = some c
  state : fs.state = none ∨ ∃ s, fs.state = some (.json s) ∧ fs.backup = some c ∧
    ∀ t, s.originalSymlinkTarget = some t → links t = some c

theorem Held.of_original (hc : fs.contents links = some c)
    (hb : fs.backup = none ∨ fs.backup = some c) (hs : fs.state = none) : Held m links c fs :=
  ⟨.inl hc, fun _ => hc, hb, .inl hs⟩

theorem Held.of_recorded {s : TakeoverState} (hr : fs.Reads m links c)
    (hs : fs.state = some (.json s)) (hb : fs.backup = some c)
    (ht : ∀ t, s.originalSymlinkTarget = some t → links t = some c) : Held m links c fs where
  reads := hr
  unrecorded h := by
    rw [hs] at h
    cases h
  backup := .inr hb
  state := .inr ⟨s, hs, hb, ht⟩

theorem Held.target (h : Held m links c fs) {t : OsPath} (ht : fs.target = some t) :
    links t = some c := by
  obtain ⟨s, hs, hst⟩ := Option.bind_eq_some_iff.mp ht
  obtain ⟨x, hx, hxs⟩ := Option.bind_eq_some_iff.mp hs
  cases h.state with
  | inl hnone =>
    rw [hnone] at hx
    cases hx
  | inr hsome =>
    obtain ⟨s', hs', _, ht'⟩ := hsome
    rw [hs'] at hx
    cases hx
    cases hxs
    exact ht' t hst

theorem Held.ofTarget_read (h : Held m links c fs) :
    (Node.ofTarget c fs.target).read links = some c := by
  cases ht : fs.target with
  | none => rfl
  | some t => exact h.target ht

/-! ### `restore` -/

def HeldOr (gap : Bool) (m : ResolvManager) (links : OsPath → Option ByteArray) (c : ByteArray)
    (fs : Fs) : Prop := Held m links c fs ∨ gap = true ∧ fs.resolv = none

theorem Held.restored (h : Held m links c fs) : Held m links c (fs.restored c) :=
  .of_original h.ofTarget_read (.inl rfl) rfl

theorem Held.putBack (h : Held m links c fs) (hb : fs.backup = some c) (nm : NmConf) :
    Held m links c ⟨some (.ofTarget c fs.target), fs.stateDir, nm⟩ := by
  cases h.state with
  | inl hnone => exact .of_original h.ofTarget_read (.inr hb) hnone
  | inr hsome =>
    obtain ⟨s, hs, hb, ht⟩ := hsome
    exact .of_recorded (.inl h.ofTarget_read) hs hb ht

theorem restore_held (h : Held m links c fs) (hb : fs.backup = some c) :
    ∀ d, d <+: fs.restoreWrites c →
      HeldOr fs.target.isSome m links c (exec (handler env) d fs) := by
  refine restore_stages hb (P := fun _ fs' => HeldOr fs.target.isSome m links c fs')
    ?start ?unlinked ?putBack ?undone ?forgotten ?restored
  case start => exact .inl h
  case unlinked => exact fun ht => .inr ⟨ht, rfl⟩
  case putBack => exact .inl (h.putBack hb _)
  case undone => exact .inl (h.putBack hb _)
  case forgotten => exact .inl (.of_original h.ofTarget_read (.inr rfl) rfl)
  case restored => exact .inl h.restored

/-! ### `take_over` -/

theorem redirect_writes_held {text : String} (h : Held m links text.toByteArray fs)
    (hs : fs.state = none) :
    ∀ d, d <+: m.redirectWrites pid now listenAddr fs text →
      Held m links text.toByteArray (exec (handler env) d fs) := by
  have hc := h.unrecorded hs
  have htarget (t : OsPath) (ht : fs.resolv.bind Node.target = some t) :
      links t = some text.toByteArray := by
    obtain ⟨node, hn, hread⟩ := Option.bind_eq_some_iff.mp hc
    rw [hn] at ht
    cases node with
    | file b => cases ht
    | symlink t' =>
      cases ht
      exact hread
  refine redirect_stages (P := fun _ fs' => Held m links text.toByteArray fs')
    ?start ?dir ?backup ?dropin ?record ?redirected
  case start => exact h
  case dir => exact .of_original hc (by simpa using h.backup) (by simpa using hs)
  case backup => exact .of_original hc (.inr rfl) hs
  case dropin => exact fun _ => .of_original hc (.inr rfl) hs
  case record => exact .of_recorded (.inl hc) rfl rfl htarget
  case redirected => exact .of_recorded (.inr ⟨listenAddr, rfl⟩) rfl rfl htarget

theorem redirect_held {procs : ProcTable} (h : Held m links c fs) (hs : fs.state = none) :
    ∀ d, d <+: ((m.redirect pid now listenAddr).run.trace (handler ⟨procs, links⟩) fs).filter
      SysOp.modifies → Held m links c (exec (handler ⟨procs, links⟩) d fs) := by
  have hc := h.unrecorded hs
  cases ht : fs.readText (Env.links ⟨procs, links⟩) with
  | error e =>
    have hops : ((m.redirect pid now listenAddr).run.trace (handler ⟨procs, links⟩) fs).filter
        SysOp.modifies = [.createStateDir] := by
      rw [redirect_trace_unread ht]
      simp [List.filter_cons, linkOps_filter, SysOp.modifies]
    have hdir : handler ⟨procs, links⟩ .createStateDir fs = (.ok (), fs.withStateDir) := rfl
    rw [hops, forall_prefix_cons, forall_prefix_nil, exec_nil, exec_cons, exec_nil, hdir]
    exact ⟨h, .of_original hc (by simpa using h.backup) (by simpa using hs)⟩
  | ok text =>
    have hbytes : c = text.toByteArray :=
      Option.some.inj (hc.symm.trans (readText_eq_ok.mp ht))
    subst hbytes
    exact fun d hd => redirect_writes_held h hs d (hd.trans (redirect_trace_filter ht))

/-! ### Every call -/

def Call.relinks (procs : ProcTable) (fs : Fs) : Call → Bool
  | .restore => fs.backup.isSome && fs.target.isSome
  | .takeOver _ _ _ | .reconcileAfterCrash =>
    fs.target.isSome && fs.record.all (fun s => !alive procs s.pid)

structure CallHeld (gap : Bool) (m : ResolvManager) (links : OsPath → Option ByteArray)
    (c : ByteArray) (h : Handler SysOp SysOp.Ret Fs) (call : Prog SysOp SysOp.Ret α) (fs : Fs) :
    Prop where
  crash : ∀ n, HeldOr gap m links c (call.crash h n fs)
  final : Held m links c (call.run h fs).2

theorem callHeld_of_ops {gap : Bool} {call : Prog SysOp SysOp.Ret α} {ops : List SysOp}
    (hops : (call.trace (handler env) fs).filter SysOp.modifies = ops)
    (hcrash : ∀ d, d <+: ops → HeldOr gap m links c (exec (handler env) d fs))
    (hfinal : Held m links c (exec (handler env) ops fs)) :
    CallHeld gap m links c (handler env) call fs where
  crash n := by
    rw [crash_eq_exec_filter]
    apply hcrash
    rw [← hops]
    exact (List.take_prefix n _).filter _
  final := by
    rw [Prog.run_snd, ← exec_filter (handler_of_not_modifies env), hops]
    exact hfinal

theorem exec_restoreWrites (m : ResolvManager) (hb : fs.backup = some c) :
    exec (handler env) (fs.restoreWrites c) fs = fs.restored c := by
  have hrun : (m.restore.run.run (handler env) fs).2 = fs.restored c := by rw [restore_run hb]
  rw [← restoreOps_filter, exec_filter (handler_of_not_modifies env), ← hrun, Prog.run_snd,
    restore_trace hb]

theorem look_filter (p : UInt32) :
    (SysOp.readState :: aliveOps p).filter SysOp.modifies = [] := by
  unfold aliveOps
  split <;> rfl

theorem callHeld_of_nil {gap : Bool} {call : Prog SysOp SysOp.Ret α} (h : Held m links c fs)
    (hops : (call.trace (handler env) fs).filter SysOp.modifies = []) :
    CallHeld gap m links c (handler env) call fs :=
  callHeld_of_ops hops (forall_prefix_nil.mpr (.inl h)) h

theorem relinks_of_dead {procs : ProcTable} {s : TakeoverState} (hs : fs.state = some (.json s))
    (ha : alive procs s.pid = false) :
    (fs.target.isSome && fs.record.all (fun s => !alive procs s.pid)) = fs.target.isSome := by
  simp [Fs.record, hs, StateText.fromStr, ha]

theorem Held.state_of_noBackup (h : Held m links c fs) (hb : fs.backup = none) :
    fs.state = none := by
  cases h.state with
  | inl hs => exact hs
  | inr hsome =>
    obtain ⟨_, _, hb', _⟩ := hsome
    rw [hb] at hb'
    cases hb'

theorem restore_callHeld {procs : ProcTable} (h : Held m links c fs) :
    CallHeld (Call.relinks procs fs .restore) m links c (handler ⟨procs, links⟩)
      m.restore.run fs := by
  cases h.backup with
  | inl hb =>
    have hs := h.state_of_noBackup hb
    have hunlink : (handler ⟨procs, links⟩ (.remove .state) fs).2 = fs := by
      change (fs.unlink .state).2 = fs
      obtain ⟨_, _ | ⟨_, _ | _⟩, _⟩ := fs <;> first | rfl | cases hs
    have hops : (m.restore.run.trace (handler ⟨procs, links⟩) fs).filter SysOp.modifies =
        [.remove .state] := by
      rw [restore_trace_none hb]
      rfl
    apply callHeld_of_ops hops
    · rw [forall_prefix_cons, forall_prefix_nil, exec_cons, exec_nil, exec_nil, hunlink]
      exact ⟨.inl h, .inl h⟩
    · rw [exec_cons, exec_nil, hunlink]
      exact h
  | inr hb =>
    have hrelinks : Call.relinks procs fs .restore = fs.target.isSome := by
      simp [Call.relinks, hb]
    rw [hrelinks]
    have hops : (m.restore.run.trace (handler ⟨procs, links⟩) fs).filter SysOp.modifies =
        fs.restoreWrites c := by
      rw [restore_trace hb, restoreOps_filter]
    apply callHeld_of_ops hops
    · exact restore_held h hb
    · rw [exec_restoreWrites m hb]
      exact h.restored

theorem takeOver_callHeld {procs : ProcTable} (h : Held m links c fs) :
    CallHeld (Call.relinks procs fs (.takeOver pid now listenAddr)) m links c
      (handler ⟨procs, links⟩) (m.takeOver pid now listenAddr).run fs := by
  cases h.state with
  | inl hs =>
    apply callHeld_of_ops
    · rw [takeOver_trace_fresh hs, List.filter_cons_of_neg (by simp [SysOp.modifies])]
    · exact fun d hd => .inl (redirect_held h hs d hd)
    · exact redirect_held h hs _ List.prefix_rfl
  | inr hsome =>
    obtain ⟨s, hs, hb, _⟩ := hsome
    cases ha : alive procs s.pid with
    | true =>
      apply callHeld_of_nil h
      rw [takeOver_trace_alive hs ha]
      exact look_filter _
    | false =>
      have hops : ((m.takeOver pid now listenAddr).run.trace (handler ⟨procs, links⟩) fs).filter
          SysOp.modifies = fs.restoreWrites c ++
            ((m.redirect pid now listenAddr).run.trace (handler ⟨procs, links⟩)
              (fs.restored c)).filter SysOp.modifies := by
        rw [takeOver_trace_stale hs hb ha, List.filter_append, List.filter_append,
          restoreOps_filter, look_filter, List.nil_append]
      rw [Call.relinks, relinks_of_dead hs ha]
      apply callHeld_of_ops hops
      · rw [forall_prefix_append]
        constructor
        · exact restore_held h hb
        · intro d hd
          rw [exec_append, exec_restoreWrites m hb]
          exact .inl (redirect_held h.restored rfl d hd)
      · rw [exec_append, exec_restoreWrites m hb]
        exact redirect_held h.restored rfl _ List.prefix_rfl

theorem reconcileAfterCrash_callHeld {procs : ProcTable} (h : Held m links c fs) :
    CallHeld (Call.relinks procs fs .reconcileAfterCrash) m links c (handler ⟨procs, links⟩)
      m.reconcileAfterCrash.run fs := by
  cases h.state with
  | inl hs =>
    apply callHeld_of_nil h
    rw [reconcileAfterCrash_trace_none hs]
    rfl
  | inr hsome =>
    obtain ⟨s, hs, hb, _⟩ := hsome
    cases ha : alive procs s.pid with
    | true =>
      apply callHeld_of_nil h
      rw [reconcileAfterCrash_trace_alive hs ha]
      exact look_filter _
    | false =>
      rw [Call.relinks, relinks_of_dead hs ha]
      have hops : (m.reconcileAfterCrash.run.trace (handler ⟨procs, links⟩) fs).filter
          SysOp.modifies = fs.restoreWrites c := by
        rw [reconcileAfterCrash_trace_stale hs hb ha, List.filter_append, restoreOps_filter,
          look_filter, List.nil_append]
      apply callHeld_of_ops hops
      · exact restore_held h hb
      · rw [exec_restoreWrites m hb]
        exact h.restored

theorem trace_discard {h : Handler SysOp SysOp.Ret Fs} (call : FsM α) :
    (ExceptT.run (do let _ ← call : FsM Unit)).trace h fs = call.run.trace h fs := by
  rw [Fallible.trace_bind]
  cases (call.run.run h fs).1 <;> exact List.append_nil _

theorem callHeld_discard {gap : Bool} {h : Handler SysOp SysOp.Ret Fs} {call : FsM α}
    (hcall : CallHeld gap m links c h call.run fs) :
    CallHeld gap m links c h (ExceptT.run (do let _ ← call : FsM Unit)) fs := by
  constructor
  case crash =>
    intro n
    rw [Prog.crash_eq, Prog.performed, trace_discard, ← Prog.performed, ← Prog.crash_eq]
    exact hcall.crash n
  case final =>
    rw [Prog.run_snd, trace_discard, ← Prog.run_snd]
    exact hcall.final

theorem Held.call (h : Held m links c fs) (procs : ProcTable) (call : Call) :
    CallHeld (call.relinks procs fs) m links c (handler ⟨procs, links⟩) (call.body m).run fs := by
  cases call with
  | takeOver pid now listenAddr => exact callHeld_discard (takeOver_callHeld h)
  | restore => exact restore_callHeld h
  | reconcileAfterCrash => exact callHeld_discard (reconcileAfterCrash_callHeld h)

/-! ### The gap of a link -/

theorem gap_of_trace {call : Prog SysOp SysOp.Ret α} {before rest : List SysOp}
    (hbefore : before.filter SysOp.modifies = []) (htarget : fs.target.isSome = true)
    (htrace : call.trace (handler env) fs = before ++ fs.restoreOps c ++ rest) :
    ∃ n, (call.crash (handler env) n fs).resolv = none := by
  obtain ⟨t, ht⟩ := Option.isSome_iff_exists.mp htarget
  have hops : ∃ after, fs.restoreOps c ++ rest =
      [.backupExists, .readState, .readBackup, .remove .resolvConf] ++ after := by
    simp [Fs.restoreOps, Fs.putBack, ht]
  obtain ⟨after, hafter⟩ := hops
  rw [List.append_assoc, hafter, ← List.append_assoc] at htrace
  refine ⟨_, congrArg Fs.resolv (Prog.crash_append htrace) |>.trans ?_⟩
  rw [← exec_filter (handler_of_not_modifies env), List.filter_append, hbefore]
  change ((fs.unlink .resolvConf).2).resolv = none
  rw [unlink_resolvConf]

theorem Held.recorded (h : Held m links c fs) (ht : fs.target.isSome = true) :
    ∃ s, fs.state = some (.json s) ∧ fs.backup = some c := by
  cases h.state with
  | inl hs =>
    rw [Fs.target, Fs.record, hs] at ht
    cases ht
  | inr hsome =>
    obtain ⟨s, hs, hb, _⟩ := hsome
    exact ⟨s, hs, hb⟩

theorem Held.gap (h : Held m links c fs) {procs : ProcTable} {call : Call}
    (hr : call.relinks procs fs = true) :
    ∃ n, ((call.body m).run.crash (handler ⟨procs, links⟩) n fs).resolv = none := by
  have hdead {s : TakeoverState} (hs : fs.state = some (.json s))
      (ha : fs.record.all (fun s => !alive procs s.pid) = true) : alive procs s.pid = false := by
    simpa [Fs.record, hs, StateText.fromStr] using ha
  cases call with
  | restore =>
    obtain ⟨-, ht⟩ := Bool.and_eq_true_iff.mp hr
    obtain ⟨s, hs, hb⟩ := h.recorded ht
    have hops : m.restore.run.trace (handler ⟨procs, links⟩) fs =
        [] ++ fs.restoreOps c ++ [] := by
      rw [restore_trace hb, List.append_nil, List.nil_append]
    exact gap_of_trace rfl ht hops
  | takeOver pid now listenAddr =>
    obtain ⟨ht, ha⟩ := Bool.and_eq_true_iff.mp hr
    obtain ⟨s, hs, hb⟩ := h.recorded ht
    exact gap_of_trace (look_filter s.pid) ht
      ((trace_discard _).trans (takeOver_trace_stale hs hb (hdead hs ha)))
  | reconcileAfterCrash =>
    obtain ⟨ht, ha⟩ := Bool.and_eq_true_iff.mp hr
    obtain ⟨s, hs, hb⟩ := h.recorded ht
    exact gap_of_trace (look_filter s.pid) ht ((trace_discard _).trans
      ((reconcileAfterCrash_trace_stale hs hb (hdead hs ha)).trans (List.append_nil _).symm))

/-! ### On the disk -/

structure Attempt where
  procs : ProcTable
  accepts : Nat → Nat
  call : Call
  cut : Option Nat

variable {jsonLength : TakeoverState → Nat}

def Call.onDisk (m : ResolvManager) (jsonLength : TakeoverState → Nat) (call : Call) :
    Prog DiskOp DiskOp.Ret (Except Stop Unit) :=
  (call.body m).run.translate (ResolvConf.onDisk jsonLength)

def Attempt.step (m : ResolvManager) (links : OsPath → Option ByteArray)
    (jsonLength : TakeoverState → Nat) (d : Disk) (a : Attempt) : Disk :=
  let h := diskHandler ⟨⟨a.procs, links⟩, jsonLength, a.accepts⟩
  match a.cut with
  | none => ((a.call.onDisk m jsonLength).run h d).2
  | some n => (a.call.onDisk m jsonLength).crash h n d

def attempts (m : ResolvManager) (links : OsPath → Option ByteArray)
    (jsonLength : TakeoverState → Nat) (as : List Attempt) (d : Disk) : Disk :=
  as.foldl (Attempt.step m links jsonLength) d

/-- No attempt of the run dies while it puts a link back. -/
def Unbroken (m : ResolvManager) (links : OsPath → Option ByteArray)
    (jsonLength : TakeoverState → Nat) : List Attempt → Disk → Prop
  | [], _ => True
  | a :: as, d => (a.call.relinks a.procs d.fs = true → a.cut = none) ∧
    Unbroken m links jsonLength as (a.step m links jsonLength d)

theorem Held.step {a : Attempt} {d : Disk} (h : Held m links c d.fs)
    (hcut : a.call.relinks a.procs d.fs = true → a.cut = none) :
    Held m links c (a.step m links jsonLength d).fs := by
  have hcall := h.call a.procs a.call
  have hdisk := onDisk_implements ⟨⟨a.procs, links⟩, jsonLength, a.accepts⟩
  unfold Attempt.step
  cases ha : a.cut with
  | none =>
    have hrun := (hdisk.run (a.call.body m).run d).2
    exact hrun.symm ▸ hcall.final
  | some n =>
    obtain ⟨k, hk⟩ := hdisk.crash n (a.call.body m).run d
    have hholds := hcall.crash k
    rw [← hk] at hholds
    cases hholds with
    | inl hheld => exact hheld
    | inr hgap =>
      have hnone := hcut hgap.1
      rw [ha] at hnone
      cases hnone

theorem Held.attempts {as : List Attempt} {d : Disk} (h : Held m links c d.fs)
    (hrun : Unbroken m links jsonLength as d) :
    Held m links c (attempts m links jsonLength as d).fs := by
  induction as generalizing d with
  | nil => exact h
  | cons a as ih => exact ih (h.step hrun.1) hrun.2

theorem not_reads_of_missing (h : fs.resolv = none) : ¬fs.Reads m links c := by
  have hnone : fs.contents links = none := by rw [Fs.contents, h]; rfl
  intro hreads
  cases hreads with
  | inl hc =>
    rw [hnone] at hc
    cases hc
  | inr ht =>
    obtain ⟨a, ha⟩ := ht
    rw [hnone] at ha
    cases ha

theorem Held.misses {d : Disk} (h : Held m links c d.fs) {procs : ProcTable} {call : Call}
    (hr : call.relinks procs d.fs = true) (accepts : Nat → Nat) :
    ∃ n, ¬((call.onDisk m jsonLength).crash
      (diskHandler ⟨⟨procs, links⟩, jsonLength, accepts⟩) n d).fs.Reads m links c := by
  obtain ⟨k, hk⟩ := h.gap hr
  obtain ⟨n, hn⟩ := (onDisk_implements ⟨⟨procs, links⟩, jsonLength, accepts⟩).exists_crash k
    (call.body m).run d
  refine ⟨n, not_reads_of_missing ?_⟩
  rw [Call.onDisk, hn]
  exact hk

/-- After any run from an original `c`, a reader finds the original or a takeover file at every
moment of the next call, exactly when that call has no link to put back. -/
theorem resolv_conf_always_reads_iff (m : ResolvManager) (links : OsPath → Option ByteArray)
    (jsonLength : TakeoverState → Nat) (d : Disk) (c : ByteArray)
    (hbackup : d.fs.backup = none) (hstate : d.fs.state = none)
    (hcontents : d.fs.contents links = some c) (as : List Attempt)
    (hrun : Unbroken m links jsonLength as d) (procs : ProcTable) (accepts : Nat → Nat)
    (call : Call) :
    let d' := attempts m links jsonLength as d
    (∀ n, ((call.onDisk m jsonLength).crash
      (diskHandler ⟨⟨procs, links⟩, jsonLength, accepts⟩) n d').fs.Reads m links c) ↔
    call.relinks procs d'.fs = false := by
  intro d'
  have h : Held m links c d'.fs :=
    (Held.of_original hcontents (.inl hbackup) hstate).attempts hrun
  constructor
  · intro hreads
    by_contra hrelinks
    obtain ⟨n, hn⟩ := h.misses (by simpa using hrelinks) accepts
    exact hn (hreads n)
  · intro hrelinks n
    have hcut : call.relinks procs d'.fs = true → some n = none := by simp [hrelinks]
    exact (h.step (a := ⟨procs, accepts, call, some n⟩) hcut).reads

/-! ### A machine whose `resolv.conf` is a link -/

def stubPath : OsPath := "../run/systemd/resolve/stub-resolv.conf".toByteArray

def stubLinks : OsPath → Option ByteArray := fun _ => some googleText.toByteArray

def linked : Untouched stubLinks where
  fs := ⟨some (.symlink stubPath), none, .absent⟩
  noBackup := rfl
  noState := rfl
  text := googleText
  reads := readText_eq_ok.mpr rfl

def takenOverOnce : Attempt := ⟨idleProcs, id, .takeOver pid1000 0 proxyAddr, none⟩

theorem step_complete (procs : ProcTable) (accepts : Nat → Nat) (call : Call) (d : Disk) :
    (Attempt.step m links jsonLength d ⟨procs, accepts, call, none⟩).fs =
      ((call.body m).run.run (handler ⟨procs, links⟩) d.fs).2 :=
  ((onDisk_implements ⟨⟨procs, links⟩, jsonLength, accepts⟩).run (call.body m).run d).2

theorem linkIsText_linked : linked.fs.linkIsText = true := by
  change ByteArray.validateUTF8 stubPath = true
  rw [ByteArray.validateUTF8_eq_true_iff]
  exact String.isValidUTF8 _

theorem takenOverOnce_step (u : Untouched links) (hl : u.fs.linkIsText = true) :
    (attempts m links jsonLength [takenOverOnce] ⟨u.fs, fun _ => none⟩).fs =
      u.fs.takenOver m pid1000 0 proxyAddr u.text := by
  have hreads : u.fs.readText (Env.links ⟨idleProcs, links⟩) = .ok u.text := u.reads
  refine (step_complete idleProcs id (.takeOver pid1000 0 proxyAddr) _).trans ?_
  simp [Call.body, takeOver_run_fresh u.noState, redirect_run hreads hl]

/-- Restore removes the takeover file before it recreates the link. -/
theorem linked_restore_misses :
    ¬∀ n, ((Call.restore.onDisk default (fun _ => 400)).crash
      (diskHandler ⟨⟨idleProcs, stubLinks⟩, fun _ => 400, id⟩) n
      (attempts default stubLinks (fun _ => 400) [takenOverOnce]
        ⟨linked.fs, fun _ => none⟩)).fs.Reads default stubLinks googleText.toByteArray := by
  intro hreads
  have h : Held default stubLinks googleText.toByteArray
      (attempts default stubLinks (fun _ => 400) [takenOverOnce]
        ⟨linked.fs, fun _ => none⟩).fs :=
    (Held.of_original rfl (.inl rfl) rfl).attempts ⟨fun _ => rfl, trivial⟩
  have hrelinks : Call.relinks idleProcs (attempts default stubLinks (fun _ => 400)
      [takenOverOnce] ⟨linked.fs, fun _ => none⟩).fs .restore = true := by
    rw [takenOverOnce_step linked linkIsText_linked]
    rfl
  obtain ⟨n, hn⟩ := h.misses hrelinks id
  exact hn (hreads n)

theorem plain_restore_always_reads :
    plain.fs.backup = none ∧ plain.fs.state = none ∧ ∀ n,
      ((Call.restore.onDisk default (fun _ => 400)).crash
        (diskHandler ⟨⟨idleProcs, fun _ => none⟩, fun _ => 400, id⟩) n
        (attempts default (fun _ => none) (fun _ => 400) [takenOverOnce]
          ⟨plain.fs, fun _ => none⟩)).fs.Reads default (fun _ => none) googleText.toByteArray := by
  refine ⟨rfl, rfl, (resolv_conf_always_reads_iff default (fun _ => none) (fun _ => 400)
    ⟨plain.fs, fun _ => none⟩ googleText.toByteArray rfl rfl rfl [takenOverOnce]
    ⟨fun _ => rfl, trivial⟩ idleProcs id .restore).mpr ?_⟩
  rw [takenOverOnce_step plain rfl]
  rfl

end Detour.ResolvConf
