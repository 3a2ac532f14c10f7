import Detour.ResolvConf.CrashRecovery

/-! What a crash inside `restore` leaves behind, and what calling it again makes of it. -/

namespace Detour.ResolvConf

open Atomic Detour.Rust ResolvManager

variable {links : OsPath → Option ByteArray} {env : Env} {m : ResolvManager} {fs : Fs}
  {pid : Pid} {now : UInt64} {listenAddr : IpAddr}

def again (m : ResolvManager) (env : Env) (fs : Fs) : Fs := (m.restore.run.run (handler env) fs).2

def Fs.idle (fs : Fs) : Bool := fs.stateDir = some ⟨none, none⟩

theorem again_backup {b : ByteArray} (hb : fs.backup = some b) :
    again m env fs = fs.restored b := by
  rw [again, restore_run hb]

theorem again_idle (h : fs.idle) : again m env fs = fs := by
  have hd : fs.stateDir = some ⟨none, none⟩ := by simpa [Fs.idle] using h
  have hb : fs.backup = none := by simp [Fs.backup, hd]
  rw [again, restore_run_none hb]
  ext1 <;> simp [hd, StateDir.cleared]

theorem again_iterate_idle (h : fs.idle) (k : Nat) : (again m env)^[k] fs = fs :=
  Function.iterate_fixed (again_idle h) k

def lostRecord (done : List SysOp) : Bool := removed .state done && !removed .backup done

def rerun (u : Untouched links) (d : List SysOp) : Fs where
  resolv := if lostRecord d then some (.file u.text.toByteArray) else u.fs.resolv
  stateDir := some ⟨none, none⟩
  nm := if lostRecord d then u.fs.nm.removed else u.fs.nm

@[simp] theorem removed_removed (nm : NmConf) : nm.removed.removed = nm.removed := by
  cases nm <;> rfl

@[simp] theorem nmAfter_removed_removed (nm : NmConf) : (m.nmAfter nm).removed = nm.removed := by
  cases nm <;> cases h : m.nmDropin.parent <;> simp [writesNm, nmAfter, NmConf.removed, h]

theorem restored_of_record {nm : NmConf} (u : Untouched links) (r : Option Node)
    (hnm : (if m.writesNm u.fs.nm then nm.removed else nm) = u.fs.nm) :
    Fs.restored ⟨r, some ⟨some u.text.toByteArray,
      some (.json (m.recorded pid now u.fs u.text))⟩, nm⟩ u.text.toByteArray =
        ⟨u.fs.resolv, some ⟨none, none⟩, u.fs.nm⟩ := by
  obtain ⟨node, hn, hread⟩ := Option.bind_eq_some_iff.mp (readText_eq_ok.mp u.reads)
  simp only [Fs.restored, Fs.target, Fs.dropsNm, Fs.record, Fs.state, Option.bind_some,
    StateText.fromStr, recorded, hn, Option.all_some, hnm]
  rw [ofTarget_target hread]

theorem restored_unrecorded {nm : NmConf} (r : Option Node) (b : ByteArray) :
    Fs.restored ⟨r, some ⟨some b, none⟩, nm⟩ b =
      ⟨some (.file b), some ⟨none, none⟩, nm.removed⟩ := rfl

theorem lostRecord_undoWrites (b : ByteArray) : lostRecord (fs.undoWrites b) = false := by
  cases ht : fs.target <;> cases hn : fs.dropsNm <;>
    simp [lostRecord, Fs.undoWrites, Fs.putBack, ht, hn, removed, SysOp.removes]

theorem lostRecord_forgotten (b : ByteArray) :
    lostRecord (fs.undoWrites b ++ [.remove .state]) = true := by
  cases ht : fs.target <;> cases hn : fs.dropsNm <;>
    simp [lostRecord, Fs.undoWrites, Fs.putBack, ht, hn, removed, SysOp.removes]

theorem lostRecord_restoreWrites (b : ByteArray) : lostRecord (fs.restoreWrites b) = false := by
  simp [lostRecord, Fs.restoreWrites, removed, SysOp.removes]

theorem lostRecord_putBack (b : ByteArray) : lostRecord (fs.putBack b) = false := by
  cases ht : fs.target <;> simp [lostRecord, Fs.putBack, ht, removed, SysOp.removes]

theorem removed_filter_modifies (done : List SysOp) :
    lostRecord (done.filter SysOp.modifies) = lostRecord done := by
  rw [lostRecord, lostRecord, removed_filter, removed_filter]

theorem takenOver_undone (u : Untouched links) :
    (u.fs.takenOver m pid now listenAddr u.text).undone u.text.toByteArray =
      ⟨u.fs.resolv, some ⟨some u.text.toByteArray,
        some (.json (m.recorded pid now u.fs u.text))⟩, u.fs.nm⟩ := by
  have h : (u.fs.takenOver m pid now listenAddr u.text).restored u.text.toByteArray =
      ⟨u.fs.resolv, some ⟨none, none⟩, u.fs.nm⟩ := restored_of_record u _ (nmAfter_removed _)
  have hresolv := congrArg Fs.resolv h
  have hnm := congrArg Fs.nm h
  ext1
  · exact hresolv
  · rfl
  · exact hnm

theorem rerun_of_lost {u : Untouched links} {d : List SysOp} (h : lostRecord d = true) :
    rerun u d = ⟨some (.file u.text.toByteArray), some ⟨none, none⟩, u.fs.nm.removed⟩ := by
  simp [rerun, h]

theorem rerun_of_kept {u : Untouched links} {d : List SysOp} (h : lostRecord d = false) :
    rerun u d = ⟨u.fs.resolv, some ⟨none, none⟩, u.fs.nm⟩ := by
  simp [rerun, h]

theorem again_stage (u : Untouched links) (env env' : Env) :
    ∀ d, d <+: (u.fs.takenOver m pid now listenAddr u.text).restoreWrites u.text.toByteArray →
      again m env' (exec (handler env) d (u.fs.takenOver m pid now listenAddr u.text)) =
        rerun u d := by
  have hrecord {nm : NmConf} {d : List SysOp} (r : Option Node) (hd : lostRecord d = false)
      (hnm : (if m.writesNm u.fs.nm then nm.removed else nm) = u.fs.nm) :
      again m env' ⟨r, some ⟨some u.text.toByteArray,
        some (.json (m.recorded pid now u.fs u.text))⟩, nm⟩ = rerun u d := by
    rw [again_backup rfl, rerun_of_kept hd]
    exact restored_of_record u r hnm
  have hnm : (if m.writesNm u.fs.nm then u.fs.nm.removed else u.fs.nm) = u.fs.nm := by
    cases h : u.fs.nm <;> simp [writesNm, NmConf.removed]
  refine restore_stages rfl (P := fun d fs => again m env' fs = rerun u d)
    ?start ?unlinked ?putBack ?undone ?forgotten ?restored
  case start => exact hrecord _ rfl (nmAfter_removed _)
  case unlinked => exact fun _ => hrecord none rfl (nmAfter_removed _)
  case putBack => exact hrecord _ (lostRecord_putBack _) (nmAfter_removed _)
  case undone =>
    rw [takenOver_undone]
    exact hrecord _ (lostRecord_undoWrites _) hnm
  case forgotten =>
    rw [takenOver_undone, again_backup rfl, restored_unrecorded,
      rerun_of_lost (lostRecord_forgotten _)]
  case restored =>
    rw [rerun_of_kept (lostRecord_restoreWrites _), ← restored_of_record u _ (nmAfter_removed _)]
    exact again_idle rfl

theorem takeOver_completed (u : Untouched links) {procs : ProcTable} {s : TakeoverState}
    {fs₁ : Fs} (h : (m.takeOver pid now listenAddr).run.run (handler ⟨procs, links⟩) u.fs =
      (.ok s, fs₁)) : fs₁ = u.fs.takenOver m pid now listenAddr u.text := by
  have ht : u.fs.readText (Env.links ⟨procs, links⟩) = .ok u.text := u.reads
  rw [takeOver_run_fresh u.noState] at h
  cases hl : u.fs.linkIsText with
  | true =>
    rw [redirect_run ht hl] at h
    cases h
    rfl
  | false =>
    rw [redirect_run_panic ht hl] at h
    cases h

theorem again_crash (m : ResolvManager) (u : Untouched links) (env env' : Env) (pid : Pid)
    (now : UInt64) (listenAddr : IpAddr) (n : Nat) :
    again m env' (m.restore.run.crash (handler env) n
        (u.fs.takenOver m pid now listenAddr u.text)) =
      rerun u (m.restore.run.performed (handler env) n
        (u.fs.takenOver m pid now listenAddr u.text)) := by
  have hd : (m.restore.run.performed (handler env) n
      (u.fs.takenOver m pid now listenAddr u.text)).filter SysOp.modifies <+:
        (u.fs.takenOver m pid now listenAddr u.text).restoreWrites u.text.toByteArray := by
    rw [Prog.performed, restore_trace rfl, ← restoreOps_filter]
    exact (List.take_prefix n _).filter _
  have hstage := again_stage (m := m) u env env' _ hd
  rw [← crash_eq_exec_filter] at hstage
  rw [hstage, rerun, rerun, removed_filter_modifies]

/-- The user's own drop-in, if there was one, is still there and unchanged. -/
def Fs.keepsDropin (fs fs' : Fs) : Prop := ∀ b, fs.nm = .present b → fs'.nm = .present b

def Fs.isLink (fs : Fs) : Bool := (fs.resolv.bind Node.target).isSome

def Fs.hasDropin (fs : Fs) : Bool := match fs.nm with | .present _ => true | _ => false

theorem rerun_resolv (u : Untouched links) {d : List SysOp} (h : lostRecord d = true) :
    (rerun u d).resolv = u.fs.resolv ↔ u.fs.isLink = false := by
  obtain ⟨node, hn, hread⟩ := Option.bind_eq_some_iff.mp (readText_eq_ok.mp u.reads)
  cases node with
  | file b =>
    have hb : b = u.text.toByteArray := Option.some.inj hread
    simp [rerun, h, Fs.isLink, hn, Node.target, hb]
  | symlink t => simp [rerun, h, Fs.isLink, hn, Node.target]

theorem rerun_keepsDropin (u : Untouched links) {d : List SysOp} (h : lostRecord d = true) :
    u.fs.keepsDropin (rerun u d) ↔ u.fs.hasDropin = false := by
  cases hn : u.fs.nm <;> simp [Fs.keepsDropin, Fs.hasDropin, rerun, h, hn, NmConf.removed]

/-- `resolv.conf`, contents and link, is as it was, and so is a drop-in of the user's own. -/
def Fs.undoneTo (fs fs' : Fs) : Prop := fs'.resolv = fs.resolv ∧ fs.keepsDropin fs'

/-- After a crash inside restore, calling it again brings everything back, unless the crash
fell between the removals of the record and of the backup and there was a link to recreate or
a drop-in to keep. -/
theorem restore_crash_repeats_iff (m : ResolvManager) (u : Untouched links)
    (procs : ProcTable) (env env' : Env) (pid : Pid) (now : UInt64) (listenAddr : IpAddr)
    (s : TakeoverState) (fs₁ : Fs) (n : Nat)
    (h : (m.takeOver pid now listenAddr).run.run (handler ⟨procs, links⟩) u.fs =
      (.ok s, fs₁)) :
    let done := m.restore.run.performed (handler env) n fs₁
    (∀ k, u.fs.undoneTo
      ((again m env')^[k + 1] (m.restore.run.crash (handler env) n fs₁))) ↔
    ¬(removed .state done = true ∧ removed .backup done = false ∧
      (u.fs.isLink = true ∨ u.fs.hasDropin = true)) := by
  intro done
  have hagain (k : Nat) : (again m env')^[k + 1] (m.restore.run.crash (handler env) n fs₁) =
      rerun u done := by
    obtain rfl := takeOver_completed u h
    rw [Function.iterate_succ_apply, again_crash, again_iterate_idle (by rfl)]
  simp only [hagain, forall_const, Fs.undoneTo]
  cases hlost : lostRecord done with
  | false =>
    have hd : ¬(removed .state done = true ∧ removed .backup done = false) := by
      simpa [lostRecord] using hlost
    rw [rerun_of_kept hlost]
    exact iff_of_true ⟨rfl, fun _ hb => hb⟩ (fun hbad => hd ⟨hbad.1, hbad.2.1⟩)
  | true =>
    have hd : removed .state done = true ∧ removed .backup done = false := by
      simpa [lostRecord] using hlost
    rw [rerun_resolv u hlost, rerun_keepsDropin u hlost]
    simp [hd]

def owned : Untouched (fun _ => none) where
  fs := ⟨plain.fs.resolv, none, .present "[main]\ndns=none\n".toByteArray⟩
  noBackup := rfl
  noState := rfl
  text := googleText
  reads := plain.reads

theorem owned_takeOver : (default.takeOver pid1000 0 proxyAddr).run.run
    (handler ⟨idleProcs, fun _ => none⟩) owned.fs =
      (.ok (default.recorded pid1000 0 owned.fs owned.text),
        owned.fs.takenOver default pid1000 0 proxyAddr owned.text) := by
  rw [takeOver_run_fresh owned.noState, redirect_run owned.reads rfl]

theorem owned_performed (env : Env) (n : Nat) :
    default.restore.run.performed (handler env) n
      (owned.fs.takenOver default pid1000 0 proxyAddr owned.text) =
        ([.backupExists, .readState, .readBackup,
          .writeAtomic (.resolvConf googleText.toByteArray), .remove .state,
          .remove .backup]).take n := by
  rw [Prog.performed, restore_trace rfl]
  rfl

/-- The first restore dies with the record removed and the backup still there: the second one
removes the drop-in of the user. -/
theorem owned_second_restore_drops_dropin :
    ¬∀ k, owned.fs.undoneTo ((again default ⟨idleProcs, fun _ => none⟩)^[k + 1]
      (default.restore.run.crash (handler ⟨idleProcs, fun _ => none⟩) 5
        (owned.fs.takenOver default pid1000 0 proxyAddr owned.text))) := by
  intro h
  have hlost : lostRecord (default.restore.run.performed (handler ⟨idleProcs, fun _ => none⟩) 5
      (owned.fs.takenOver default pid1000 0 proxyAddr owned.text)) = true := by
    rw [owned_performed]
    rfl
  have hkeeps := (h 0).2
  rw [Function.iterate_one, again_crash default owned] at hkeeps
  cases (rerun_keepsDropin owned hlost).mp hkeeps

theorem owned_restores_when_backup_removed :
    ((default.takeOver pid1000 0 proxyAddr).run.run (handler ⟨idleProcs, fun _ => none⟩)
      owned.fs).1 = .ok (default.recorded pid1000 0 owned.fs owned.text) ∧
    ∀ k, owned.fs.undoneTo ((again default ⟨idleProcs, fun _ => none⟩)^[k + 1]
      (default.restore.run.crash (handler ⟨idleProcs, fun _ => none⟩) 6
        (owned.fs.takenOver default pid1000 0 proxyAddr owned.text))) := by
  refine ⟨congrArg Prod.fst owned_takeOver, (restore_crash_repeats_iff default owned idleProcs
    ⟨idleProcs, fun _ => none⟩ ⟨idleProcs, fun _ => none⟩ pid1000 0 proxyAddr _ _ 6
    owned_takeOver).mpr ?_⟩
  rw [owned_performed]
  simp [removed, SysOp.removes]

end Detour.ResolvConf
