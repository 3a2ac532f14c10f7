import Detour.Gui.Commands
import Detour.Lib.RelyGuarantee

/-! The launches of apps step by step: how holding scopes are found idle and stopped, and what is
moved into them; what each step does to the other launches. -/

namespace Detour.Gui

open Atomic Detour.Rust Detour.Tunnel

/-! ### The commands, step by step -/

inductive MoveError
  | gone
  | other (message : String)
  deriving DecidableEq

inductive LaunchOp
  | gui (o : GuiOp)
  | readSlice
  | onlyPlaceholder (unit : Text)
  | flatpakScopes (id : Text)
  | procs (scope : Text)
  | move (pid : Nat) (unit : Text)
  | timedOut
  | settled

@[reducible] def LaunchOp.Ret : LaunchOp → Type
  | .gui o => o.Ret
  | .readSlice | .flatpakScopes _ => List Text
  | .onlyPlaceholder _ | .timedOut | .settled => Bool
  | .procs _ => List Nat
  | .move _ _ => Except MoveError Unit

abbrev LaunchM := Fallible LaunchOp LaunchOp.Ret String

def idleOf : List Text → Prog LaunchOp LaunchOp.Ret (List Text)
  | [] => pure []
  | name :: names =>
    if "detour-hold-".toList.isPrefixOf name then do
      let idle ← Prog.perform (LaunchOp.onlyPlaceholder name)
      let rest ← idleOf names
      return if idle then name :: rest else rest
    else idleOf names

def idleHolds : Prog LaunchOp LaunchOp.Ret (List Text) :=
  Prog.perform LaunchOp.readSlice >>= idleOf

def moveAll (unit : Text) (moved : Nat) : List Nat → LaunchM Nat
  | [] => return moved
  | pid :: pids => do
    match ← Fallible.sys (LaunchOp.move pid unit) with
    | .ok () => moveAll unit (moved + 1) pids
    -- ESRCH: the process is already gone.
    | .error .gone => moveAll unit moved pids
    | .error (.other e) => throw e

def migrate (scope unit : Text) : LaunchM Nat := do
  moveAll unit 0 (← Fallible.sys (LaunchOp.procs scope))

def sweep (unit : Text) (moved : Nat) : List Text → LaunchM Nat
  | [] => return moved
  | scope :: scopes => do sweep unit (moved + (← migrate scope unit)) scopes

def captureRounds (id unit : Text) : (rounds moved : Nat) → LaunchM Nat
  | 0, moved => return moved
  | rounds + 1, moved => do
    if ← Fallible.sys LaunchOp.timedOut then return moved
    else
      let moved ← sweep unit moved (← Fallible.sys (LaunchOp.flatpakScopes id))
      -- nothing settles before something has moved
      if 0 < moved then
        if ← Fallible.sys LaunchOp.settled then return moved
        else captureRounds id unit rounds moved
      else captureRounds id unit rounds moved

/-- `apps::capture_flatpak`: every round but the last sleeps five milliseconds of the twenty
seconds. -/
def captureFlatpak (id unit : Text) : LaunchM Nat := captureRounds id unit 4001 0

def carryOut : (o : GuiOp) → Prog LaunchOp LaunchOp.Ret o.Ret
  | .idleHolds => idleHolds
  | .captureFlatpak id unit => ExceptT.run (captureFlatpak id unit)
  | o => (Prog.perform (LaunchOp.gui o) : Prog LaunchOp LaunchOp.Ret _)

def launchInSteps (app : Text) : Prog LaunchOp LaunchOp.Ret (Except String String) :=
  (ExceptT.run (launchInTunnel app)).translate carryOut

/-! ### The slice and the launches -/

structure Process where
  pid : Nat
  comm : Text
  deriving DecidableEq

/-- The holding scopes, and the scopes that flatpak makes, with what is in them.  Of each launch
it is known which scope it has obtained and not moved its app into yet, and which ones it has
found idle and is still to stop. -/
structure Desk (ι : Type) where
  holds : Text → Option (List Process)
  scopes : Text → List Process
  waits : ι → Option Text
  listed : ι → List Text

variable {ι : Type} [DecidableEq ι]

namespace Desk

def Idle (s : Desk ι) (unit : Text) : Prop :=
  ∀ p ∈ (s.holds unit).getD [], p.comm = "sleep".toList

def list (s : Desk ι) (i : ι) (unit : Text) : Desk ι :=
  { s with listed := Function.update s.listed i (unit :: s.listed i) }

def unlist (s : Desk ι) (i : ι) (unit : Text) : Desk ι :=
  { s with listed := Function.update s.listed i ((s.listed i).filter (· ≠ unit)) }

def wait (s : Desk ι) (i : ι) (unit : Option Text) : Desk ι :=
  { s with waits := Function.update s.waits i unit }

omit [DecidableEq ι] in
def stop (s : Desk ι) (unit : Text) : Desk ι :=
  { s with holds := Function.update s.holds unit none }

def take (s : Desk ι) (p : Process) (unit : Text) (ps : List Process) : Desk ι :=
  { s with
    holds := Function.update s.holds unit (some (p :: ps))
    scopes := fun scope => (s.scopes scope).filter (·.pid ≠ p.pid) }

end Desk

def desk (i : ι) : Env LaunchOp LaunchOp.Ret (Desk ι)
  | .readSlice, s, r, t => t = s ∧ r.Nodup ∧
    ∀ unit, "detour-hold-".toList <+: unit → (unit ∈ r ↔ (s.holds unit).isSome)
  | .onlyPlaceholder unit, s, r, t => (r = true ↔ s.Idle unit) ∧
    t = if r then s.list i unit else s
  -- systemd may not do it
  | .gui (.stopUnit unit), s, _, t => t = s.unlist i unit ∨ t = (s.unlist i unit).stop unit
  | .gui (.holdExists unit), s, r, t => (r = true ↔ (s.holds unit).isSome) ∧
    t = if r then s.wait i (some unit) else s
  | .gui (.spawn _), s, r, t => t = if r.isOk then s else s.wait i none
  | .gui _, s, _, t => t = s
  | .flatpakScopes id, s, r, t => t = s ∧ ∀ scope ∈ r,
    "app-flatpak-".toList ++ id ++ "-".toList <+: scope ∧ ".scope".toList <:+ scope
  | .procs scope, s, r, t => t = s ∧ r = (s.scopes scope).map Process.pid
  | .move pid unit, s, .ok (), t => ∃ p ps, p.pid = pid ∧ s.holds unit = some ps ∧
    t = (s.wait i none).take p unit ps
  | .move _ _, s, .error .gone, t => t = s
  | .move _ _, s, .error (.other _), t => t = s.wait i none
  | .timedOut, s, r, t => t = if r then s.wait i none else s
  | .settled, s, _, t => t = s

inductive Beside : Desk ι → Desk ι → Prop
  /-- a holding scope that was asked for comes, with its placeholder -/
  | appears (s : Desk ι) (unit : Text) (p : Process) : s.holds unit = none →
    p.comm = "sleep".toList →
    Beside s { s with holds := Function.update s.holds unit (some [p]) }
  /-- processes in a holding scope start others or exit; its placeholder stays -/
  | changes (s : Desk ι) (unit : Text) (ps qs : List Process) : s.holds unit = some ps →
    (∀ p ∈ ps, p.comm = "sleep".toList → p ∈ qs) →
    Beside s { s with holds := Function.update s.holds unit (some qs) }
  /-- flatpak apps start and exit -/
  | flatpak (s : Desk ι) (scopes : Text → List Process) : Beside s { s with scopes := scopes }

/-- No launch takes for idle what another waits in, or waits in what another is to stop. -/
def Orderly (i : ι) (s : Desk ι) : LaunchOp → Prop
  | .onlyPlaceholder unit => s.Idle unit → ∀ j, j ≠ i → s.waits j ≠ some unit
  | .gui (.holdExists unit) => (s.holds unit).isSome → ∀ j, j ≠ i → unit ∉ s.listed j
  | _ => True

def orderly (i : ι) : Env LaunchOp LaunchOp.Ret (Desk ι) :=
  fun o s r t => desk i o s r t ∧ Orderly i s o

/-! ### What a launch does to the others -/

structure Guarantees (i : ι) (s t : Desk ι) : Prop where
  waits : ∀ j, j ≠ i → t.waits j = s.waits j
  listed : ∀ j, j ≠ i → t.listed j = s.listed j
  holds : ∀ unit, (s.holds unit).isSome →
    (t.holds unit).isSome ∨ (unit ∈ s.listed i ∧ s.waits i = none)

structure Relies (i : ι) (s t : Desk ι) : Prop where
  waits : t.waits i = s.waits i
  listed : t.listed i = s.listed i

instance (i : ι) : IsPreorder (Desk ι) (Relies i) where
  refl _ := ⟨rfl, rfl⟩
  trans _ _ _ h h' := ⟨h'.waits.trans h.waits, h'.listed.trans h.listed⟩

variable {i j : ι} {s t : Desk ι} {unit : Text}

omit [DecidableEq ι] in
theorem Guarantees.relies (h : Guarantees j s t) (hij : i ≠ j) : Relies i s t :=
  ⟨h.waits i hij, h.listed i hij⟩

omit [DecidableEq ι] in
theorem Beside.relies (h : Beside s t) (i : ι) : Relies i s t := by
  cases h <;> exact ⟨rfl, rfl⟩

/-! ### What a launch has of its own -/

theorem list_listed_self : (s.list i unit).listed i = unit :: s.listed i :=
  Function.update_self ..

theorem unlist_listed_self : (s.unlist i unit).listed i = (s.listed i).filter (· ≠ unit) :=
  Function.update_self ..

theorem wait_waits_self {w : Option Text} : (s.wait i w).waits i = w := Function.update_self ..

theorem desk_waits {o : LaunchOp} {r : o.Ret} (h : desk i o s r t)
    (hw : t.waits i = some unit) :
    s.waits i = some unit ∨ (o = .gui (.holdExists unit) ∧ (s.holds unit).isSome) := by
  cases o with
  | gui o =>
    cases o with
    | stopUnit u =>
      left
      rcases h with rfl | rfl
      · exact hw
      · exact hw
    | holdExists u =>
      obtain ⟨hr, rfl⟩ := h
      cases r with
      | false => exact .inl hw
      | true =>
        right
        rw [if_pos rfl, wait_waits_self] at hw
        obtain rfl := Option.some.inj hw
        exact ⟨rfl, hr.mp rfl⟩
    | spawn e =>
      cases r with
      | ok a =>
        obtain rfl := h
        exact .inl hw
      | error e =>
        obtain rfl := h
        rw [if_neg (by nofun), wait_waits_self] at hw
        cases hw
    | _ =>
      obtain rfl := h
      exact .inl hw
  | onlyPlaceholder u =>
    obtain ⟨-, rfl⟩ := h
    cases r with
    | false => exact .inl hw
    | true => exact .inl hw
  | move pid u =>
    match r, h with
    | .ok (), h =>
      obtain ⟨p, ps, -, -, rfl⟩ := h
      have hnone : ((s.wait i none).take p u ps).waits i = none := wait_waits_self
      rw [hnone] at hw
      cases hw
    | .error .gone, h =>
      obtain rfl := h
      exact .inl hw
    | .error (.other _), h =>
      obtain rfl := h
      rw [wait_waits_self] at hw
      cases hw
  | timedOut =>
    cases r with
    | false =>
      obtain rfl := h
      exact .inl hw
    | true =>
      obtain rfl := h
      rw [if_pos rfl, wait_waits_self] at hw
      cases hw
  | readSlice | flatpakScopes u | procs u =>
    obtain ⟨rfl, -⟩ := h
    exact .inl hw
  | settled =>
    obtain rfl := h
    exact .inl hw

theorem desk_listed {o : LaunchOp} {r : o.Ret} (h : desk i o s r t)
    (hu : unit ∈ t.listed i) :
    unit ∈ s.listed i ∨ (o = .onlyPlaceholder unit ∧ s.Idle unit) := by
  cases o with
  | gui o =>
    cases o with
    | stopUnit u =>
      left
      have hmem : unit ∈ (s.listed i).filter (· ≠ u) := by
        rcases h with rfl | rfl
        · rwa [unlist_listed_self] at hu
        · rwa [Desk.stop, unlist_listed_self] at hu
      exact List.mem_of_mem_filter hmem
    | holdExists u =>
      obtain ⟨-, rfl⟩ := h
      cases r with
      | false => exact .inl hu
      | true => exact .inl hu
    | spawn e =>
      cases r with
      | ok a =>
        obtain rfl := h
        exact .inl hu
      | error e =>
        obtain rfl := h
        exact .inl hu
    | _ =>
      obtain rfl := h
      exact .inl hu
  | onlyPlaceholder u =>
    obtain ⟨hr, rfl⟩ := h
    cases r with
    | false => exact .inl hu
    | true =>
      rw [if_pos rfl, list_listed_self] at hu
      rcases List.mem_cons.mp hu with rfl | hu
      · exact .inr ⟨rfl, hr.mp rfl⟩
      · exact .inl hu
  | move pid u =>
    match r, h with
    | .ok (), h =>
      obtain ⟨p, ps, -, -, rfl⟩ := h
      exact .inl hu
    | .error .gone, h =>
      obtain rfl := h
      exact .inl hu
    | .error (.other _), h =>
      obtain rfl := h
      exact .inl hu
  | timedOut =>
    cases r with
    | false =>
      obtain rfl := h
      exact .inl hu
    | true =>
      obtain rfl := h
      exact .inl hu
  | readSlice | flatpakScopes u | procs u =>
    obtain ⟨rfl, -⟩ := h
    exact .inl hu
  | settled =>
    obtain rfl := h
    exact .inl hu

/-! ### What orderly steps keep -/

structure Kept (s : Desk ι) : Prop where
  there : ∀ i unit, s.waits i = some unit → (s.holds unit).isSome
  unlisted : ∀ i j unit, i ≠ j → s.waits i = some unit → unit ∉ s.listed j

theorem Kept.step (h : Kept s) {o : LaunchOp} {r : o.Ret} (he : desk i o s r t)
    (ho : Orderly i s o) (hg : Guarantees i s t) : Kept t := by
  have hstays (j : ι) (u : Text) (hw : s.waits j = some u) : (t.holds u).isSome := by
    rcases hg.holds u (h.there j u hw) with hu | ⟨hu, hnone⟩
    · exact hu
    · by_cases hij : j = i
      · subst hij
        rw [hnone] at hw
        cases hw
      · exact absurd hu (h.unlisted j i u hij hw)
  constructor
  · intro j u hw
    by_cases hij : j = i
    · subst hij
      rcases desk_waits he hw with hold | ⟨rfl, hthere⟩
      · exact hstays j u hold
      · obtain ⟨-, rfl⟩ := he
        cases r with
        | false => exact hthere
        | true => exact hthere
    · rw [hg.waits j hij] at hw
      exact hstays j u hw
  · intro j k u hjk hw hu
    by_cases hj : j = i
    · subst hj
      rw [hg.listed k (Ne.symm hjk)] at hu
      rcases desk_waits he hw with hold | ⟨rfl, hthere⟩
      · exact h.unlisted j k u hjk hold hu
      · exact ho hthere k (Ne.symm hjk) hu
    · rw [hg.waits j hj] at hw
      by_cases hk : k = i
      · subst hk
        rcases desk_listed he hu with hold | ⟨rfl, hidle⟩
        · exact h.unlisted j k u hjk hw hold
        · exact ho hidle j hj hw
      · rw [hg.listed k hk] at hu
        exact h.unlisted j k u hjk hw hu

omit [DecidableEq ι] in
theorem Kept.beside (h : Kept s) (hb : Beside s t) : Kept t := by
  have hholds (u : Text) (hu : (s.holds u).isSome) : (t.holds u).isSome := by
    cases hb with
    | appears v p =>
      by_cases huv : u = v
      · subst huv
        simp
      · simpa [Function.update_of_ne huv] using hu
    | changes v ps qs =>
      by_cases huv : u = v
      · subst huv
        simp
      · simpa [Function.update_of_ne huv] using hu
    | flatpak scopes => exact hu
  have hwaits : t.waits = s.waits := by cases hb <;> rfl
  have hlisted : t.listed = s.listed := by cases hb <;> rfl
  constructor
  · intro i u hw
    rw [hwaits] at hw
    exact hholds u (h.there i u hw)
  · intro i j u hij hw
    rw [hwaits] at hw
    rw [hlisted]
    exact h.unlisted i j u hij hw

/-! ### What every step guarantees -/

def LaunchOp.KeepsScopes : LaunchOp → Prop
  | .gui (.stopUnit _) => False
  | _ => True

omit [DecidableEq ι] in
theorem Guarantees.refl (i : ι) (s : Desk ι) : Guarantees i s s :=
  ⟨fun _ _ => rfl, fun _ _ => rfl, fun _ h => .inl h⟩

theorem Guarantees.wait (i : ι) (s : Desk ι) (w : Option Text) : Guarantees i s (s.wait i w) :=
  ⟨fun _ hj => Function.update_of_ne hj .., fun _ _ => rfl, fun _ h => .inl h⟩

theorem Guarantees.list (i : ι) (s : Desk ι) (unit : Text) : Guarantees i s (s.list i unit) :=
  ⟨fun _ _ => rfl, fun _ hj => Function.update_of_ne hj .., fun _ h => .inl h⟩

omit [DecidableEq ι] in
theorem Guarantees.take (h : Guarantees i s t) (p : Process) (unit : Text) (ps : List Process) :
    Guarantees i s (t.take p unit ps) := by
  refine ⟨h.waits, h.listed, fun u hu => ?_⟩
  by_cases huv : u = unit
  · subst huv
    left
    have hnew : (t.take p u ps).holds u = some (p :: ps) := Function.update_self ..
    rw [hnew]
    rfl
  · have hsame : (t.take p unit ps).holds u = t.holds u := Function.update_of_ne huv ..
    rw [hsame]
    exact h.holds u hu

theorem desk_guarantees {o : LaunchOp} {r : o.Ret} (h : desk i o s r t) (ho : o.KeepsScopes) :
    Guarantees i s t := by
  cases o with
  | gui o =>
    cases o with
    | stopUnit u => cases ho
    | holdExists u =>
      obtain ⟨-, rfl⟩ := h
      cases r with
      | false => exact .refl i _
      | true => exact .wait i _ (some u)
    | spawn e =>
      cases r with
      | ok a =>
        obtain rfl := h
        exact .refl i _
      | error e =>
        obtain rfl := h
        exact .wait i _ none
    | _ =>
      obtain rfl := h
      exact .refl i _
  | onlyPlaceholder u =>
    obtain ⟨-, rfl⟩ := h
    cases r with
    | false => exact .refl i _
    | true => exact .list i _ u
  | move pid u =>
    match r, h with
    | .ok (), h =>
      obtain ⟨p, ps, -, -, rfl⟩ := h
      exact (Guarantees.wait i _ none).take p u ps
    | .error .gone, h =>
      obtain rfl := h
      exact .refl i _
    | .error (.other _), h =>
      obtain rfl := h
      exact .wait i _ none
  | timedOut =>
    cases r with
    | false =>
      obtain rfl := h
      exact .refl i _
    | true =>
      obtain rfl := h
      exact .wait i _ none
  | readSlice | flatpakScopes u | procs u =>
    obtain ⟨rfl, -⟩ := h
    exact .refl i _
  | settled =>
    obtain rfl := h
    exact .refl i _

theorem stopUnit_guarantees (r : Unit) (h : desk i (.gui (.stopUnit unit)) s r t)
    (hlisted : unit ∈ s.listed i) (hwaits : s.waits i = none) : Guarantees i s t := by
  have hothers (j : ι) (hj : j ≠ i) : (s.unlist i unit).listed j = s.listed j :=
    Function.update_of_ne hj ..
  rcases h with rfl | rfl
  · exact ⟨fun _ _ => rfl, hothers, fun _ h => .inl h⟩
  · refine ⟨fun _ _ => rfl, hothers, fun u hu => ?_⟩
    by_cases huv : u = unit
    · subst huv
      exact .inr ⟨hlisted, hwaits⟩
    · left
      have hsame : ((s.unlist i unit).stop unit).holds u = s.holds u := Function.update_of_ne huv ..
      rwa [hsame]

end Detour.Gui
