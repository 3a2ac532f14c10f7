import Detour.ResolvConf.CrashRecovery

/-! Runs of completed calls.  Between two calls the processes of the machine may change in any
way: helpers end, are killed, and start. -/

namespace Detour.ResolvConf

open Atomic Detour.Rust ResolvManager

variable {links : OsPath → Option ByteArray} {env : Env} {m : ResolvManager} {fs fs₀ : Fs}
  {pid : Pid} {now : UInt64} {listenAddr : IpAddr} {text : String}

/-! ### Calls -/

inductive Call
  | takeOver (pid : Pid) (now : UInt64) (listenAddr : IpAddr)
  | restore
  | reconcileAfterCrash

def Call.body (m : ResolvManager) : Call → FsM Unit
  | .takeOver pid now listenAddr => do let _ ← m.takeOver pid now listenAddr
  | .restore => m.restore
  | .reconcileAfterCrash => do let _ ← m.reconcileAfterCrash

def Stop.isFailure : Stop → Bool
  | .panic _ | .err (.io _ _) | .err (.denied _) => true
  | _ => false

def Stop.isRefusal : Stop → Bool
  | .err (.alreadyActive _) | .err .noBackup => true
  | _ => false

def failed : Except Stop α → Bool
  | .ok _ => false
  | .error e => e.isFailure

def refused : Except Stop α → Bool
  | .ok _ => false
  | .error e => e.isRefusal

theorem not_failed_of_refused {r : Except Stop α} (h : refused r = true) : ¬failed r = true := by
  cases r with
  | ok a => cases h
  | error e =>
    intro hf
    change e.isRefusal = true at h
    change e.isFailure = true at hf
    cases e with
    | panic message => cases h
    | err e =>
      cases e with
      | denied path | io path source | corruptState path => cases h
      | alreadyActive pid | noBackup => cases hf

structure Invocation where
  procs : ProcTable
  call : Call

def Invocation.answer (m : ResolvManager) (links : OsPath → Option ByteArray) (fs : Fs)
    (i : Invocation) : Except Stop Unit × Fs :=
  (i.call.body m).run.run (handler ⟨i.procs, links⟩) fs

def Invocation.step (m : ResolvManager) (links : OsPath → Option ByteArray) (fs : Fs)
    (i : Invocation) : Option Fs :=
  if failed (i.answer m links fs).1 then none else some (i.answer m links fs).2

def runs (m : ResolvManager) (links : OsPath → Option ByteArray) (calls : List Invocation)
    (fs : Fs) : Option Fs := calls.foldlM (Invocation.step m links) fs

theorem runs_cons {i : Invocation} {calls : List Invocation} :
    runs m links (i :: calls) fs = (i.step m links fs).bind (runs m links calls) := rfl

/-! ### The invariant -/

inductive Tracks (m : ResolvManager) (links : OsPath → Option ByteArray) (fs₀ : Fs) : Fs → Prop
  | idle {fs : Fs} (state : fs.state = none) (backup : fs.backup = none)
      (resolv : fs.resolv = fs₀.resolv) (nm : fs.nm = fs₀.nm) : Tracks m links fs₀ fs
  | active {text : String} (reads : fs₀.readText links = .ok text) (pid : Pid) (now : UInt64)
      (listenAddr : IpAddr) : Tracks m links fs₀ (fs₀.takenOver m pid now listenAddr text)

/-- What a completed call may leave: files that hold the original or a takeover of it, and the
same `resolv.conf` and drop-in if it refused. -/
structure Completed (m : ResolvManager) (links : OsPath → Option ByteArray) (fs₀ fs : Fs)
    (r : Except Stop α × Fs) : Prop where
  tracks : Tracks m links fs₀ r.2
  same : refused r.1 = true → r.2.resolv = fs.resolv ∧ r.2.nm = fs.nm

theorem takenOver_congr (hr : fs.resolv = fs₀.resolv) (hn : fs.nm = fs₀.nm) :
    fs.takenOver m pid now listenAddr text = fs₀.takenOver m pid now listenAddr text := by
  simp [Fs.takenOver, recorded, hr, hn]

theorem readText_congr (hr : fs.resolv = fs₀.resolv) :
    fs.readText links = fs₀.readText links := by
  rw [Fs.readText, Fs.readText, Fs.contents, Fs.contents, hr]

theorem failed_ioErr (path : Path) (e : ErrorKind) :
    failed (.error (.err (ioErr path e)) : Except Stop α) = true := by
  unfold ioErr
  split <;> rfl

def Answered (m : ResolvManager) (links : OsPath → Option ByteArray) (fs₀ fs : Fs)
    (r : Except Stop α × Fs) : Prop := failed r.1 = true ∨ Completed m links fs₀ fs r

theorem answered_refused {e : Stop} (h : Tracks m links fs₀ fs') (hr : fs'.resolv = fs.resolv)
    (hn : fs'.nm = fs.nm) : Answered m links fs₀ fs ((.error e : Except Stop α), fs') :=
  .inr ⟨h, fun _ => ⟨hr, hn⟩⟩

theorem answered_ok {a : α} (h : Tracks m links fs₀ fs') :
    Answered m links fs₀ fs ((.ok a : Except Stop α), fs') :=
  .inr ⟨h, fun h => nomatch h⟩

theorem takenOver_restored (ht : fs₀.readText links = .ok text) :
    (fs₀.takenOver m pid now listenAddr text).restored text.toByteArray =
      ⟨fs₀.resolv, some ⟨none, none⟩, fs₀.nm⟩ := restored_recorded ht _

def TakesOver (m : ResolvManager) (links : OsPath → Option ByteArray) (fs₀ : Fs) (pid : Pid)
    (now : UInt64) (listenAddr : IpAddr) (r : Except Stop TakeoverState × Fs) : Prop :=
  ∃ text, fs₀.readText links = .ok text ∧
    r = (.ok (m.recorded pid now fs₀ text), fs₀.takenOver m pid now listenAddr text)

theorem redirect_cases (hr : fs.resolv = fs₀.resolv) (hn : fs.nm = fs₀.nm) (procs : ProcTable) :
    failed ((m.redirect pid now listenAddr).run.run (handler ⟨procs, links⟩) fs).1 = true ∨
      TakesOver m links fs₀ pid now listenAddr
        ((m.redirect pid now listenAddr).run.run (handler ⟨procs, links⟩) fs) := by
  cases ht : fs.readText (Env.links ⟨procs, links⟩) with
  | error e =>
    rw [redirect_run_unread ht]
    exact .inl (failed_ioErr _ _)
  | ok text =>
    cases hl : fs.linkIsText with
    | false =>
      rw [redirect_run_panic ht hl]
      exact .inl rfl
    | true =>
      have hreads : fs₀.readText links = .ok text := (readText_congr hr).symm.trans ht
      have hrec : m.recorded pid now fs text = m.recorded pid now fs₀ text := by
        simp [recorded, hr, hn]
      rw [redirect_run ht hl, takenOver_congr hr hn, hrec]
      exact .inr ⟨text, hreads, rfl⟩

theorem takeOver_cases (h : Tracks m links fs₀ fs) (procs : ProcTable) :
    failed ((m.takeOver pid now listenAddr).run.run (handler ⟨procs, links⟩) fs).1 = true ∨
      (∃ p, (m.takeOver pid now listenAddr).run.run (handler ⟨procs, links⟩) fs =
        (.error (.err (.alreadyActive p)), fs)) ∨
      TakesOver m links fs₀ pid now listenAddr
        ((m.takeOver pid now listenAddr).run.run (handler ⟨procs, links⟩) fs) := by
  cases h with
  | idle hs hb hr hn =>
    rw [takeOver_run_fresh hs]
    exact (redirect_cases hr hn procs).imp_right .inr
  | @active text ht pid' now' addr' =>
    cases ha : alive procs pid'.raw with
    | true => exact .inr (.inl ⟨_, takeOver_run_alive rfl ha⟩)
    | false =>
      rw [takeOver_run_stale rfl rfl ha, takenOver_restored ht]
      refine Or.imp_right .inr ?_
      apply redirect_cases <;> rfl

theorem takeOver_answered (h : Tracks m links fs₀ fs) (procs : ProcTable) :
    Answered m links fs₀ fs
      ((m.takeOver pid now listenAddr).run.run (handler ⟨procs, links⟩) fs) := by
  rcases takeOver_cases h procs with hf | ⟨p, hp⟩ | ⟨text, ht, hr⟩
  · exact .inl hf
  · rw [hp]
    exact answered_refused h rfl rfl
  · rw [hr]
    exact answered_ok (.active ht _ _ _)

theorem restore_answered (h : Tracks m links fs₀ fs) (procs : ProcTable) :
    Answered m links fs₀ fs (m.restore.run.run (handler ⟨procs, links⟩) fs) := by
  cases h with
  | idle hs hb hr hn =>
    rw [restore_run_none hb]
    refine answered_refused (.idle ?_ ?_ hr hn) rfl rfl
    · cases fs.stateDir <;> rfl
    · cases hd : fs.stateDir with
      | none => rfl
      | some d => simpa [Fs.backup, hd, StateDir.cleared] using hb
  | @active text ht pid' now' addr' =>
    have hb : (fs₀.takenOver m pid' now' addr' text).backup = some text.toByteArray := rfl
    rw [restore_run hb, takenOver_restored ht]
    exact answered_ok (.idle rfl rfl rfl rfl)

theorem reconcileAfterCrash_answered (h : Tracks m links fs₀ fs) (procs : ProcTable) :
    Answered m links fs₀ fs (m.reconcileAfterCrash.run.run (handler ⟨procs, links⟩) fs) := by
  have h' := h
  cases h with
  | idle hs hb hr hn =>
    rw [reconcileAfterCrash_run_none hs]
    exact answered_ok h'
  | @active text ht pid' now' addr' =>
    cases ha : alive procs pid'.raw with
    | true =>
      rw [reconcileAfterCrash_run_alive rfl ha]
      exact answered_refused h' rfl rfl
    | false =>
      rw [reconcileAfterCrash_run_stale rfl rfl ha, takenOver_restored ht]
      exact answered_ok (.idle rfl rfl rfl rfl)

theorem answered_discard {call : FsM α} {h : Handler SysOp SysOp.Ret Fs}
    (ha : Answered m links fs₀ fs (call.run.run h fs)) :
    Answered m links fs₀ fs
      ((ExceptT.run (do let _ ← call : FsM Unit)).run h fs) := by
  rw [Fallible.run_bind]
  generalize call.run.run h fs = r at ha ⊢
  obtain ⟨r, fs'⟩ := r
  cases r with
  | ok a =>
    cases ha with
    | inl hf => cases hf
    | inr hc => exact answered_ok hc.tracks
  | error e =>
    cases ha with
    | inl hf => exact .inl hf
    | inr hc => exact .inr ⟨hc.tracks, hc.same⟩

theorem Tracks.answer (h : Tracks m links fs₀ fs) (i : Invocation) :
    Answered m links fs₀ fs (i.answer m links fs) := by
  obtain ⟨procs, call⟩ := i
  cases call with
  | takeOver pid now listenAddr => exact answered_discard (takeOver_answered h procs)
  | restore => exact restore_answered h procs
  | reconcileAfterCrash => exact answered_discard (reconcileAfterCrash_answered h procs)

theorem Tracks.step {fs' : Fs} {i : Invocation} (h : Tracks m links fs₀ fs)
    (hi : i.step m links fs = some fs') : Tracks m links fs₀ fs' := by
  unfold Invocation.step at hi
  split at hi
  · cases hi
  · next hf =>
    cases hi
    exact ((h.answer i).resolve_left hf).tracks

theorem Tracks.runs {fs' : Fs} {calls : List Invocation} (h : Tracks m links fs₀ fs)
    (hr : runs m links calls fs = some fs') : Tracks m links fs₀ fs' := by
  induction calls generalizing fs with
  | nil => cases hr; exact h
  | cons i calls ih =>
    obtain ⟨fs₁, hi, hr'⟩ := Option.bind_eq_some_iff.mp hr
    exact ih (h.step hi) hr'

/-! ### The round trip -/

def Fs.isTakenOver (m : ResolvManager) (links : OsPath → Option ByteArray) (fs : Fs) : Prop :=
  ∃ listenAddr, fs.contents links = some (m.takeoverBody listenAddr).toByteArray

theorem Tracks.original (h : Tracks m links fs₀ fs) (hs : fs.state = none) :
    fs.resolv = fs₀.resolv ∧ fs.nm = fs₀.nm := by
  cases h with
  | idle _ _ hr hn => exact ⟨hr, hn⟩
  | active => cases hs

theorem Tracks.recorded (h : Tracks m links fs₀ fs) (ho : ¬fs₀.isTakenOver m links)
    (ht : fs.isTakenOver m links) : fs.state ≠ none ∧ fs.backup = fs₀.contents links := by
  cases h with
  | idle _ _ hr _ =>
    obtain ⟨a, ha⟩ := ht
    exact absurd ⟨a, by rw [← ha, Fs.contents, Fs.contents, hr]⟩ ho
  | active hreads => exact ⟨Option.some_ne_none _, (readText_eq_ok.mp hreads).symm⟩

/-- In every run of completed calls from an original `fs₀`, the original is there whenever no
takeover is recorded, a takeover is recorded and the original backed up whenever `resolv.conf`
is a takeover file, and a refused call changes neither `resolv.conf` nor the drop-in. -/
theorem runs_round_trip (m : ResolvManager) (links : OsPath → Option ByteArray) (fs₀ : Fs)
    (hbackup : fs₀.backup = none) (hstate : fs₀.state = none)
    (horiginal : ¬fs₀.isTakenOver m links) (calls : List Invocation) (fs : Fs)
    (hruns : runs m links calls fs₀ = some fs) :
    (fs.state = none → fs.resolv = fs₀.resolv ∧ fs.contents links = fs₀.contents links ∧
      fs.nm = fs₀.nm) ∧
    (fs.isTakenOver m links → fs.state ≠ none ∧ fs.backup = fs₀.contents links ∧
      ∀ listenAddr, fs.backup ≠ some (m.takeoverBody listenAddr).toByteArray) ∧
    (∀ i : Invocation, refused (i.answer m links fs).1 = true →
      (i.answer m links fs).2.resolv = fs.resolv ∧ (i.answer m links fs).2.nm = fs.nm) := by
  have h : Tracks m links fs₀ fs := (Tracks.idle hstate hbackup rfl rfl).runs hruns
  refine ⟨?original, ?recorded, ?refused⟩
  case original =>
    intro hs
    obtain ⟨hr, hn⟩ := h.original hs
    exact ⟨hr, by rw [Fs.contents, Fs.contents, hr], hn⟩
  case recorded =>
    intro ht
    obtain ⟨hs, hb⟩ := h.recorded horiginal ht
    exact ⟨hs, hb, fun a ha => horiginal ⟨a, hb.symm.trans ha⟩⟩
  case refused =>
    intro i hi
    cases h.answer i with
    | inl hf => exact absurd hf (not_failed_of_refused hi)
    | inr hc => exact hc.same hi

theorem head_append {s t : String} {c : Char} (h : s.toList.head? = some c) :
    (s ++ t).toList.head? = some c := by
  rw [String.toList_append, List.head?_append, h]
  rfl

theorem takeoverBody_head (listenAddr : IpAddr) :
    (m.takeoverBody listenAddr).toList.head? = some '#' := by
  unfold takeoverBody
  repeat' apply head_append
  decide

theorem plain_original : ¬plain.fs.isTakenOver default (fun _ => none) := by
  rintro ⟨a, ha⟩
  have hbytes : googleText.toByteArray = (default.takeoverBody a).toByteArray := by
    simpa [Fs.contents, plain, Node.read] using ha
  have htext := String.toByteArray_inj.mp hbytes
  have hhead := takeoverBody_head (m := default) a
  rw [← htext] at hhead
  exact absurd hhead (by decide)

theorem plain_takeOver (procs : ProcTable) :
    (default.takeOver pid1000 0 proxyAddr).run.run (handler ⟨procs, fun _ => none⟩) plain.fs =
      (.ok (default.recorded pid1000 0 plain.fs plain.text),
        plain.fs.takenOver default pid1000 0 proxyAddr plain.text) := by
  rw [takeOver_run_fresh plain.noState, redirect_run plain.reads rfl]

theorem plain_runs (procs : ProcTable) :
    runs default (fun _ => none) [⟨procs, .takeOver pid1000 0 proxyAddr⟩] plain.fs =
      some (plain.fs.takenOver default pid1000 0 proxyAddr plain.text) := by
  simp [runs_cons, Invocation.step, Invocation.answer, Call.body, plain_takeOver, failed,
    Except.map]
  rfl

theorem plain_round_trip :
    let fs := plain.fs.takenOver default pid1000 0 proxyAddr plain.text
    fs.backup = plain.fs.contents (fun _ => none) ∧
    ∀ i : Invocation, refused (i.answer default (fun _ => none) fs).1 = true →
      (i.answer default (fun _ => none) fs).2.resolv = fs.resolv := by
  have h := runs_round_trip default (fun _ => none) plain.fs rfl rfl plain_original _ _
    (plain_runs idleProcs)
  exact ⟨(h.2.1 ⟨proxyAddr, rfl⟩).2.1, fun i hi => (h.2.2 i hi).1⟩

/-! ### Who the next start takes for the owner -/

end Detour.ResolvConf
