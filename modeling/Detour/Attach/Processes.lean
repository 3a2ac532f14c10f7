import Detour.Attach.Command

/-! The processes that fork and exit while `tunnel attach` moves them. -/

namespace Detour.Attach

open Atomic Detour.Rust Detour.Tunnel Worklist

structure Proc where
  parent : UInt32
  owner : UInt32
  cgroup : Text
  deriving DecidableEq

/-- The live processes.  Of each pid it is known whether the process it was last given to descends
from the app's roots, and of attach which pids it has moved and how often it has looked. -/
structure Forest where
  procs : UInt32 → Option Proc
  kin : UInt32 → Prop
  moved : List UInt32
  snapshots : Nat

namespace Forest

def ParentOf (s : Forest) (p q : UInt32) : Prop := (s.procs q).map Proc.parent = some p

def start (roots : List UInt32) (procs : UInt32 → Option Proc) : Forest where
  procs := procs
  kin := Reaches (fun p q => (procs q).map Proc.parent = some p) roots
  moved := []
  snapshots := 0

def fork (s : Forest) (parent child : UInt32) (p : Proc) : Forest :=
  { s with
    procs := Function.update s.procs child (some { p with parent := parent })
    kin := Function.update s.kin child (s.kin parent) }

def exit (s : Forest) (pid adopter : UInt32) : Forest :=
  { s with procs := fun q => if q = pid then none else
    (s.procs q).map fun c => if c.parent = pid then { c with parent := adopter } else c }

def enter (s : Forest) (pid : UInt32) (p : Proc) (scope : Text) : Forest :=
  { s with
    procs := Function.update s.procs pid (some { p with cgroup := scope })
    moved := s.moved ++ [pid] }

end Forest

/-- What attach may be answered, where `scope` is where its holding scope really is. -/
def machine (scope : Text) : Env AttachOp AttachOp.Ret Forest
  | .canonicalize _, s, r, t => t = s ∧ ∀ path, r = .ok path → path = scope
  | .processUid pid, s, r, t => t = s ∧ r = (s.procs pid).map Proc.owner
  | .processTable, s, r, t => t = { s with snapshots := s.snapshots + 1 } ∧
    ∀ q p, (q, p) ∈ r ↔ s.ParentOf p q
  | .move pid path, s, .ok (), t => ∃ p, s.procs pid = some p ∧ t = s.enter pid p path
  | .move pid _, s, .error .gone, t => s.procs pid = none ∧ t = s
  | .move _ _, s, .error (.other _), t => t = s
  | .println _, s, _, t => t = s
  | .ss _, s, _, t => t = s

inductive Beside : Forest → Forest → Prop
  | fork (s : Forest) (parent child : UInt32) (p : Proc) : s.procs parent = some p →
    s.procs child = none → Beside s (s.fork parent child p)
  | exit (s : Forest) (pid adopter : UInt32) : (s.procs pid).isSome →
    (s.procs adopter).isSome → adopter ≠ pid → Beside s (s.exit pid adopter)

/-! ### Strays -/

structure App where
  uid : UInt32
  scope : Text
  roots : List UInt32

namespace App

variable (a : App)

/-- A live process of the app, owned by the user, outside the holding scope. -/
def Stray (s : Forest) (q : UInt32) : Prop :=
  ∃ p, s.procs q = some p ∧ s.kin q ∧ p.owner = a.uid ∧ p.cgroup ≠ a.scope

/-- What attach can follow: no stray loses its parent or leaves the tree below the roots, and
strays start others only before the last snapshot, under pids that have not been moved. -/
structure Orderly (s t : Forest) : Prop where
  beside : Beside s t
  parents : ∀ p q, a.Stray s q → s.ParentOf p q → (s.procs p).isSome → (t.procs p).isSome
  below : ∀ q, a.Stray t q → Reaches t.ParentOf a.roots q
  forks : ∀ q, a.Stray t q → a.Stray s q ∨ (s.snapshots < 5 ∧ q ∉ s.moved)

end App

/-! ### What processes do to strays -/

variable {a : App} {s t : Forest} {p q : UInt32} {P : UInt32 → Prop}

theorem Beside.moved (h : Beside s t) : t.moved = s.moved := by
  cases h <;> rfl

theorem Beside.snapshots (h : Beside s t) : t.snapshots = s.snapshots := by
  cases h <;> rfl

theorem exit_procs {s : Forest} {pid adopter : UInt32} {c : Proc}
    (h : (s.exit pid adopter).procs q = some c) : q ≠ pid ∧ ∃ b, s.procs q = some b ∧
      c = if b.parent = pid then { b with parent := adopter } else b := by
  change (if q = pid then none else (s.procs q).map _) = some c at h
  split at h
  · cases h
  · next hq =>
    obtain ⟨b, hb, rfl⟩ := Option.map_eq_some_iff.mp h
    exact ⟨hq, b, hb, rfl⟩

theorem Beside.stray (h : Beside s t) (hq : a.Stray t q) :
    a.Stray s q ∨ ∃ p, a.Stray s p ∧ a.Stray t p ∧ t.ParentOf p q := by
  obtain ⟨c, hc, hkin, howner, hcgroup⟩ := hq
  cases h with
  | fork parent child p hp hchild =>
    by_cases hq : q = child
    · subst hq
      right
      have hne : parent ≠ q := by
        rintro rfl
        rw [hchild] at hp
        cases hp
      have hparent : (s.fork parent q p).procs parent = some p :=
        (Function.update_of_ne hne ..).trans hp
      have hkin' : s.kin parent := by
        have hself : (s.fork parent q p).kin q = s.kin parent := Function.update_self ..
        rwa [← hself]
      have hnew : (s.fork parent q p).procs q = some { p with parent := parent } :=
        Function.update_self ..
      obtain rfl := Option.some.inj (hnew.symm.trans hc)
      refine ⟨parent, ⟨p, hp, hkin', howner, hcgroup⟩, ⟨p, hparent, ?_, howner, hcgroup⟩, ?_⟩
      · have hother : (s.fork parent q p).kin parent = s.kin parent := Function.update_of_ne hne ..
        rwa [hother]
      · rw [Forest.ParentOf, hnew]
        rfl
    · left
      have hold : (s.fork parent child p).procs q = s.procs q := Function.update_of_ne hq ..
      have hkin' : (s.fork parent child p).kin q = s.kin q := Function.update_of_ne hq ..
      exact ⟨c, hold ▸ hc, hkin' ▸ hkin, howner, hcgroup⟩
  | exit pid adopter =>
    left
    obtain ⟨-, b, hb, rfl⟩ := exit_procs hc
    refine ⟨b, hb, hkin, ?_, ?_⟩
    · split at howner <;> exact howner
    · split at hcgroup <;> exact hcgroup

theorem Beside.stray_of_isSome (h : Beside s t) (hq : a.Stray s q) (hlive : (t.procs q).isSome) :
    a.Stray t q := by
  obtain ⟨b, hb, hkin, howner, hcgroup⟩ := hq
  cases h with
  | fork parent child p hp hchild =>
    have hne : q ≠ child := by
      rintro rfl
      rw [hchild] at hb
      cases hb
    have hold : (s.fork parent child p).procs q = s.procs q := Function.update_of_ne hne ..
    have hkin' : (s.fork parent child p).kin q = s.kin q := Function.update_of_ne hne ..
    exact ⟨b, hold.trans hb, hkin' ▸ hkin, howner, hcgroup⟩
  | exit pid adopter =>
    obtain ⟨c, hc⟩ := Option.isSome_iff_exists.mp hlive
    obtain ⟨-, b', hb', rfl⟩ := exit_procs hc
    obtain rfl := Option.some.inj (hb.symm.trans hb')
    refine ⟨_, hc, hkin, ?_, ?_⟩
    · split <;> exact howner
    · split <;> exact hcgroup

theorem Beside.parentOf (h : Beside s t) (hpq : s.ParentOf p q)
    (hp : (s.procs p).isSome → (t.procs p).isSome) (hlive : (t.procs q).isSome) :
    t.ParentOf p q := by
  obtain ⟨b, hb, rfl⟩ := Option.map_eq_some_iff.mp hpq
  cases h with
  | fork parent child p' hp' hchild =>
    have hne : q ≠ child := by
      rintro rfl
      rw [hchild] at hb
      cases hb
    have hold : (s.fork parent child p').procs q = s.procs q := Function.update_of_ne hne ..
    rw [Forest.ParentOf, hold, hb]
    rfl
  | exit pid adopter hpid =>
    obtain ⟨c, hc⟩ := Option.isSome_iff_exists.mp hlive
    obtain ⟨-, b', hb', rfl⟩ := exit_procs hc
    obtain rfl := Option.some.inj (hb.symm.trans hb')
    have hne : b.parent ≠ pid := by
      intro heq
      rw [heq] at hp
      obtain ⟨c, hc⟩ := Option.isSome_iff_exists.mp (hp hpid)
      exact (exit_procs hc).1 rfl
    rw [Forest.ParentOf, hc, if_neg hne]
    rfl

theorem App.Stray.isSome (h : a.Stray s q) : (s.procs q).isSome := by
  obtain ⟨p, hp, -⟩ := h
  exact Option.isSome_of_eq_some hp

/-! ### What attach knows of strays -/

inductive Tracked (a : App) (s : Forest) (P : UInt32 → Prop) : UInt32 → Prop
  | listed {q : UInt32} : a.Stray s q → P q → Tracked a s P q
  | forked {p q : UInt32} : a.Stray s q → s.ParentOf p q → Tracked a s P p → Tracked a s P q

theorem Tracked.stray (h : Tracked a s P q) : a.Stray s q := by
  cases h with
  | listed hq => exact hq
  | forked hq => exact hq

theorem Tracked.mono {P' : UInt32 → Prop} (h : Tracked a s P q)
    (hP : ∀ q, a.Stray s q → P q → P' q) : Tracked a s P' q := by
  induction h with
  | listed hq hp => exact .listed hq (hP _ hq hp)
  | forked hq hpq _ ih => exact .forked hq hpq ih

theorem Tracked.step (h : Tracked a s P q) (ho : a.Orderly s t) (hq : a.Stray t q) :
    Tracked a t P q := by
  induction h with
  | listed _ hp => exact .listed hq hp
  | @forked p q hold hpq hup ih =>
    have hlive (hp : (s.procs p).isSome) : (t.procs p).isSome := ho.parents p q hold hpq hp
    have hstray : a.Stray t p := ho.beside.stray_of_isSome hup.stray (hlive hup.stray.isSome)
    exact .forked hq (ho.beside.parentOf hpq hlive hq.isSome) (ih hstray)

structure Steady (a : App) (moved : List UInt32) (k : Nat) (s : Forest) : Prop where
  recorded : s.moved = moved
  snapshots : s.snapshots = k
  below : ∀ q, a.Stray s q → Reaches s.ParentOf a.roots q
  unmoved : ∀ q, a.Stray s q → q ∉ moved

structure Searching (a : App) (P : UInt32 → Prop) (s : Forest) : Prop where
  tracked : ∀ q, a.Stray s q → Tracked a s P q
  last : s.snapshots = 5 → ∀ q, a.Stray s q → P q

def Moving (a : App) (fresh : List UInt32) (s : Forest) : Prop :=
  s.snapshots = 5 → ∀ q, a.Stray s q → q ∈ fresh

def Clear (a : App) (s : Forest) : Prop := ∀ q, ¬a.Stray s q

variable {moved fresh : List UInt32} {k : Nat}

theorem Steady.step (h : Steady a moved k s) (ho : a.Orderly s t) : Steady a moved k t where
  recorded := ho.beside.moved.trans h.recorded
  snapshots := ho.beside.snapshots.trans h.snapshots
  below := ho.below
  unmoved q hq := by
    rcases ho.forks q hq with hold | ⟨-, hnew⟩
    · exact h.unmoved q hold
    · rwa [h.recorded] at hnew

theorem App.Orderly.old (ho : a.Orderly s t) (hlast : t.snapshots = 5) (hq : a.Stray t q) :
    a.Stray s q := by
  rcases ho.forks q hq with hold | ⟨hless, -⟩
  · exact hold
  · rw [← ho.beside.snapshots] at hless
    omega

theorem Searching.step (h : Searching a P s) (ho : a.Orderly s t) : Searching a P t where
  tracked q hq := by
    rcases ho.beside.stray hq with hold | ⟨p, hold, hp, hpq⟩
    · exact (h.tracked q hold).step ho hq
    · exact .forked hq hpq ((h.tracked p hold).step ho hp)
  last hlast q hq := h.last (ho.beside.snapshots.symm.trans hlast) q (ho.old hlast hq)

theorem Moving.step (h : Moving a fresh s) (ho : a.Orderly s t) : Moving a fresh t :=
  fun hlast q hq => h (ho.beside.snapshots.symm.trans hlast) q (ho.old hlast hq)

theorem Clear.step (h : Clear a s) (ho : a.Orderly s t) : Clear a t := by
  intro q hq
  rcases ho.beside.stray hq with hold | ⟨p, hold, -⟩
  · exact h q hold
  · exact h p hold

end Detour.Attach
