import Detour.ResolvConf.Manager

/-! `write_atomic` as the system calls it is made of, and that it happens at one instant. -/

namespace Detour.ResolvConf

open Atomic Detour.Rust

/-! ### Temporary files -/

structure Tmp where
  w : Write
  written : Nat
  mode : Nat

/-- The files under their names, and the temporary file beside each of them. -/
structure Disk where
  fs : Fs
  tmp : File → Option Tmp

structure DiskEnv extends Env where
  /-- The length of a record as JSON. -/
  jsonLength : TakeoverState → Nat
  /-- How many of the bytes offered to it a `write` takes. -/
  accepts : Nat → Nat

def Disk.setTmp (d : Disk) (f : File) (t : Option Tmp) : Disk :=
  { d with tmp := Function.update d.tmp f t }

@[simp] theorem setTmp_fs (d : Disk) (f : File) (t : Option Tmp) : (d.setTmp f t).fs = d.fs := rfl

@[simp] theorem setTmp_tmp (d : Disk) (f : File) (t : Option Tmp) : (d.setTmp f t).tmp f = t :=
  Function.update_self ..

def Write.size (jsonLength : TakeoverState → Nat) : Write → Nat
  | .resolvConf b | .backup b | .nmDropin b => b.size
  | .state s => jsonLength s

def Write.mode : Write → Nat
  | .resolvConf _ | .nmDropin _ => 0o644
  | .backup _ | .state _ => 0o600

def Fs.hasDirOf (fs : Fs) : File → Bool
  | .resolvConf => true
  | .backup | .state => fs.stateDir.isSome
  | .nmDropin => fs.nm ≠ .noConfD

def Fs.putCut (fs : Fs) (n : Nat) : Write → Fs
  | .resolvConf b => (fs.put (.resolvConf (b.extract 0 n))).2
  | .backup b => (fs.put (.backup (b.extract 0 n))).2
  | .nmDropin b => (fs.put (.nmDropin (b.extract 0 n))).2
  | .state _ => { fs with stateDir := fs.stateDir.map (fun d => { d with state := some .garbled }) }

theorem put_of_hasDir {fs : Fs} {w : Write} (h : fs.hasDirOf w.file = true) :
    (fs.put w).1 = .ok () := by
  obtain ⟨_, _ | _, _ | _ | _⟩ := fs <;> cases w <;>
    first | rfl | simp [Fs.hasDirOf, Write.file] at h

theorem put_of_noDir {fs : Fs} {w : Write} (h : fs.hasDirOf w.file = false) :
    fs.put w = (.error (.tmp .notFound), fs) := by
  obtain ⟨_, _ | _, _ | _ | _⟩ := fs <;> cases w <;>
    first | rfl | simp [Fs.hasDirOf, Write.file] at h

/-! ### System calls -/

inductive DiskOp
  | sys (o : SysOp)
  | createTmp (w : Write)
  | writeTmp (w : Write) (rest : Nat)
  | syncTmp (w : Write)
  | chmodTmp (w : Write) (mode : Nat)
  | renameTmp (w : Write)
  | removeTmp (w : Write)
  | syncDir (f : File)

@[reducible] def DiskOp.Ret : DiskOp → Type
  | .sys o => o.Ret
  | .createTmp _ | .syncTmp _ | .chmodTmp _ _ | .renameTmp _ => Except ErrorKind Unit
  | .writeTmp _ _ => Nat
  | .removeTmp _ | .syncDir _ => Unit

def diskHandler (env : DiskEnv) : Handler DiskOp DiskOp.Ret Disk
  | .sys o, d =>
    ((handler env.toEnv o d.fs).1, { d with fs := (handler env.toEnv o d.fs).2 })
  | .createTmp w, d =>
    if d.fs.hasDirOf w.file then (.ok (), d.setTmp w.file (some ⟨w, 0, 0o644⟩))
    else (.error .notFound, d)
  | .writeTmp w rest, d =>
    let n := max 1 (min rest (env.accepts rest))
    (n, d.setTmp w.file ((d.tmp w.file).map (fun t => { t with written := t.written + n })))
  | .syncTmp _, d => (.ok (), d)
  | .chmodTmp w mode, d =>
    (.ok (), d.setTmp w.file ((d.tmp w.file).map (fun t => { t with mode := mode })))
  | .renameTmp w, d => match d.tmp w.file with
    | none => (.error .notFound, d)
    | some t =>
      let fs := if t.written = t.w.size env.jsonLength then (d.fs.put t.w).2
        else d.fs.putCut t.written t.w
      (.ok (), { d with fs := fs }.setTmp w.file none)
  | .removeTmp w, d => ((), d.setTmp w.file none)
  | .syncDir _, d => ((), d)

/-! ### `write_atomic` -/

abbrev DiskM := Fallible DiskOp DiskOp.Ret WriteError

def onTmp : Except ErrorKind α → DiskM α
  | .ok a => pure a
  | .error e => throw (.tmp e)

def writeAll (w : Write) : (fuel rest : Nat) → DiskM Unit
  | 0, _ | _, 0 => pure ()
  | fuel + 1, rest + 1 => do
    let n ← Fallible.sys (DiskOp.writeTmp w (rest + 1))
    writeAll w fuel (rest + 1 - n)

def prepareTmp (size : Nat) (w : Write) : DiskM Unit := do
  onTmp (← Fallible.sys (DiskOp.createTmp w))
  writeAll w size size
  onTmp (← Fallible.sys (DiskOp.syncTmp w))
  onTmp (← Fallible.sys (DiskOp.chmodTmp w w.mode))

def renameOver (w : Write) : DiskM Unit := do
  match ← Fallible.sys (DiskOp.renameTmp w) with
  | .error e =>
    let _ ← Fallible.sys (DiskOp.removeTmp w)
    throw (.target e)
  | .ok () => Fallible.sys (DiskOp.syncDir w.file)

def writeAtomicOnDisk (jsonLength : TakeoverState → Nat) (w : Write) : DiskM Unit := do
  prepareTmp (w.size jsonLength) w
  renameOver w

def onDisk (jsonLength : TakeoverState → Nat) : (o : SysOp) → Prog DiskOp DiskOp.Ret o.Ret
  | .writeAtomic w => (writeAtomicOnDisk jsonLength w).run
  | o => (Prog.perform (DiskOp.sys o) : Prog DiskOp DiskOp.Ret _)

/-! ### One instant -/

def DiskOp.onlyTmp : DiskOp → Prop
  | .sys _ | .renameTmp _ => False
  | _ => True

variable {env : DiskEnv} {d : Disk} {w : Write}

theorem onlyTmp_fs (o : DiskOp) (d : Disk) (h : o.onlyTmp) : (diskHandler env o d).2.fs = d.fs := by
  cases o with
  | sys o => cases h
  | renameTmp w => cases h
  | createTmp w =>
    simp only [diskHandler]
    split <;> rfl
  | _ => rfl

theorem onTmp_onlyTmp (r : Except ErrorKind α) :
    (ExceptT.run (onTmp r)).All DiskOp.onlyTmp := by
  cases r with
  | ok a => exact Prog.all_pure _
  | error e => exact Prog.all_pure _

theorem writeAll_onlyTmp (fuel rest : Nat) :
    (ExceptT.run (writeAll w fuel rest)).All DiskOp.onlyTmp := by
  induction fuel generalizing rest with
  | zero => exact Prog.all_pure _
  | succ fuel ih =>
    cases rest with
    | zero => exact Prog.all_pure _
    | succ rest => exact Fallible.all_bind (Fallible.all_sys trivial) (fun n => ih _)

theorem prepareTmp_onlyTmp (size : Nat) :
    (ExceptT.run (prepareTmp size w)).All DiskOp.onlyTmp := by
  have hsys (o : DiskOp) (ho : o.onlyTmp) (f : o.Ret → DiskM Unit)
      (hf : ∀ r, (ExceptT.run (f r)).All DiskOp.onlyTmp) :
      (ExceptT.run (Fallible.sys o >>= f)).All DiskOp.onlyTmp :=
    Fallible.all_bind (Fallible.all_sys ho) hf
  apply hsys (.createTmp w) trivial
  intro r
  apply Fallible.all_bind (onTmp_onlyTmp r)
  intro _
  apply Fallible.all_bind (writeAll_onlyTmp size size)
  intro _
  apply hsys (.syncTmp w) trivial
  intro r
  apply Fallible.all_bind (onTmp_onlyTmp r)
  intro _
  apply hsys (.chmodTmp w w.mode) trivial
  exact onTmp_onlyTmp

theorem writeAll_run (env : DiskEnv) (d : Disk) (fuel rest : Nat) (h : rest ≤ fuel) (t : Tmp)
    (ht : d.tmp w.file = some t) :
    ((ExceptT.run (writeAll w fuel rest)).run (diskHandler env) d).1 = .ok () ∧
    ((ExceptT.run (writeAll w fuel rest)).run (diskHandler env) d).2.tmp w.file =
      some { t with written := t.written + rest } := by
  induction fuel generalizing d rest t with
  | zero =>
    obtain rfl : rest = 0 := by omega
    exact ⟨rfl, ht⟩
  | succ fuel ih =>
    cases rest with
    | zero => exact ⟨rfl, ht⟩
    | succ rest =>
      simp only [writeAll, Fallible.run_bind, Fallible.run_sys, diskHandler]
      generalize hn : max 1 (min (rest + 1) (env.accepts (rest + 1))) = n
      have ih := ih (d.setTmp w.file ((d.tmp w.file).map (fun t =>
        { t with written := t.written + n }))) (rest + 1 - n) (by omega)
        { t with written := t.written + n } (by simp [ht])
      refine ⟨ih.1, ih.2.trans ?_⟩
      simp only [Option.some.injEq, Tmp.mk.injEq, true_and, and_true]
      omega

theorem prepareTmp_run (h : d.fs.hasDirOf w.file = true) :
    ((ExceptT.run (prepareTmp (w.size env.jsonLength) w)).run (diskHandler env) d).1 = .ok () ∧
    ((ExceptT.run (prepareTmp (w.size env.jsonLength) w)).run (diskHandler env) d).2.tmp w.file =
      some ⟨w, w.size env.jsonLength, w.mode⟩ := by
  have hw := writeAll_run env (d.setTmp w.file (some ⟨w, 0, 0o644⟩)) (w.size env.jsonLength)
    (w.size env.jsonLength) (Nat.le_refl _) _ (setTmp_tmp _ _ _)
  simp [prepareTmp, diskHandler, h, onTmp, hw.1, hw.2]

theorem prepareTmp_run_noDir (h : d.fs.hasDirOf w.file = false) (size : Nat) :
    ((ExceptT.run (prepareTmp size w)).run (diskHandler env) d) = (.error (.tmp .notFound), d) := by
  simp only [prepareTmp, Fallible.run_bind, Fallible.run_sys, diskHandler, h]
  rfl

theorem renameTmp_complete {mode : Nat}
    (h : d.tmp w.file = some ⟨w, w.size env.jsonLength, mode⟩) :
    diskHandler env (.renameTmp w) d =
      (.ok (), { d with fs := (d.fs.put w).2 }.setTmp w.file none) := by
  simp [diskHandler, h]

def Disk.prepared (env : DiskEnv) (w : Write) (d : Disk) : Disk :=
  ((ExceptT.run (prepareTmp (w.size env.jsonLength) w)).run (diskHandler env) d).2

@[simp] theorem prepared_fs : (d.prepared env w).fs = d.fs :=
  Prog.run_all onlyTmp_fs (prepareTmp_onlyTmp _) d

theorem renameTmp_prepared (h : d.fs.hasDirOf w.file = true) :
    diskHandler env (.renameTmp w) (d.prepared env w) =
      (.ok (), { d.prepared env w with fs := (d.fs.put w).2 }.setTmp w.file none) := by
  have htmp : (d.prepared env w).tmp w.file = some ⟨w, w.size env.jsonLength, w.mode⟩ :=
    (prepareTmp_run h).2
  rw [renameTmp_complete htmp, prepared_fs]

theorem writeAtomicOnDisk_run :
    ((ExceptT.run (writeAtomicOnDisk env.jsonLength w)).run (diskHandler env) d).1 =
      (d.fs.put w).1 ∧
    ((ExceptT.run (writeAtomicOnDisk env.jsonLength w)).run (diskHandler env) d).2.fs =
      (d.fs.put w).2 := by
  cases h : d.fs.hasDirOf w.file with
  | false =>
    rw [put_of_noDir h]
    simp only [writeAtomicOnDisk, Fallible.run_bind, prepareTmp_run_noDir h, and_self]
  | true =>
    have hr : diskHandler env (.renameTmp w) (d.prepared env w) = _ := renameTmp_prepared h
    rw [Disk.prepared] at hr
    rw [put_of_hasDir h]
    simp only [writeAtomicOnDisk, Fallible.run_bind, (prepareTmp_run h).1, renameOver,
      Fallible.run_sys, hr, true_and]
    rfl

theorem renameOver_crash (n : Nat) (h : d.fs.hasDirOf w.file = true) :
    ((ExceptT.run (renameOver w)).crash (diskHandler env) n (d.prepared env w)).fs = d.fs ∨
    ((ExceptT.run (renameOver w)).crash (diskHandler env) n (d.prepared env w)).fs =
      (d.fs.put w).2 := by
  cases n with
  | zero => exact .inl prepared_fs
  | succ n =>
    right
    have hsync :
        (ExceptT.run (Fallible.sys (DiskOp.syncDir w.file) : DiskM Unit)).All DiskOp.onlyTmp :=
      Fallible.all_sys trivial
    rw [renameOver, Fallible.crash_sys_bind, renameTmp_prepared h]
    exact Prog.crash_all onlyTmp_fs hsync n _

/-- Wherever it stops, `write_atomic` has either changed no file or written it whole. -/
theorem writeAtomicOnDisk_crash (n : Nat) :
    ((ExceptT.run (writeAtomicOnDisk env.jsonLength w)).crash (diskHandler env) n d).fs = d.fs ∨
    ((ExceptT.run (writeAtomicOnDisk env.jsonLength w)).crash (diskHandler env) n d).fs =
      (d.fs.put w).2 := by
  have hprepare := prepareTmp_onlyTmp (w := w) (w.size env.jsonLength)
  rw [writeAtomicOnDisk, ExceptT.run_bind, Prog.crash_bind]
  split
  · exact .inl (Prog.crash_all onlyTmp_fs hprepare n d)
  · cases h : d.fs.hasDirOf w.file with
    | false =>
      rw [prepareTmp_run_noDir h]
      exact .inl (Prog.crash_all onlyTmp_fs (Prog.all_pure _) _ d)
    | true =>
      rw [(prepareTmp_run h).1]
      exact renameOver_crash _ h

/-- Every operation of the manager, carried out on the disk, happens at one instant. -/
theorem onDisk_implements (env : DiskEnv) :
    Implements (handler env.toEnv) (diskHandler env) Disk.fs (onDisk env.jsonLength) := by
  constructor
  case answer =>
    intro o d
    cases o with
    | writeAtomic w => exact writeAtomicOnDisk_run.1
    | _ => rfl
  case final =>
    intro o d
    cases o with
    | writeAtomic w => exact writeAtomicOnDisk_run.2
    | _ => rfl
  case atomic =>
    intro o n d
    cases o with
    | writeAtomic w => exact writeAtomicOnDisk_crash n
    | _ =>
      cases n with
      | zero => exact .inl rfl
      | succ n => exact .inr (by cases n <;> rfl)

end Detour.ResolvConf
