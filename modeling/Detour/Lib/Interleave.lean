import Detour.Lib.Program
import Mathlib.Logic.Function.Basic

/-! Several programs that take their operations in any order on one shared state. -/

namespace Atomic

variable {ι Op : Type} {Ret : Op → Type} {α σ : Type} {h : Handler Op Ret σ}

namespace Prog

def next : Prog Op Ret α → Option Op
  | .done _ => none
  | .op o _ => some o

theorem eq_done_of_next {p : Prog Op Ret α} (hp : p.next = none) : ∃ a, p = .done a := by
  cases p with
  | done a => exact ⟨a, rfl⟩
  | op o k => cases hp

theorem after_add (p : Prog Op Ret α) (n k : Nat) (s : σ) :
    p.after h (n + k) s = (p.after h n s).1.after h k (p.after h n s).2 := by
  induction n generalizing p s with
  | zero => rw [Nat.zero_add]; rfl
  | succ n ih =>
    rw [Nat.succ_add]
    cases p with
    | done a => cases k <;> rfl
    | op o f => exact ih _ _

theorem run_after (p : Prog Op Ret α) (n : Nat) (s : σ) :
    (p.after h n s).1.run h (p.after h n s).2 = p.run h s := by
  induction n generalizing p s with
  | zero => rfl
  | succ n ih =>
    cases p with
    | done a => rfl
    | op o f => exact ih _ _

theorem run_of_after_done {p : Prog Op Ret α} {n : Nat} {s : σ} {a : α}
    (hdone : (p.after h n s).1 = .done a) : p.run h s = (a, (p.after h n s).2) := by
  rw [← run_after p n s, hdone]
  rfl

theorem after_of_length_le {p : Prog Op Ret α} {n : Nat} {s : σ}
    (hn : (p.trace h s).length ≤ n) : p.after h n s = (.done (p.run h s).1, (p.run h s).2) := by
  induction n generalizing p s with
  | zero =>
    cases p with
    | done a => rfl
    | op o f => simp [trace] at hn
  | succ n ih =>
    cases p with
    | done a => rfl
    | op o f => exact ih (Nat.le_of_succ_le_succ hn)

end Prog

/-- What is left of each program, what each of them has done, and the state they share. -/
structure Pool (ι Op : Type) (Ret : Op → Type) (α σ : Type) where
  prog : ι → Prog Op Ret α
  taken : ι → List Op
  state : σ

namespace Pool

variable [DecidableEq ι] {p : Pool ι Op Ret α σ} {i j : ι}

def start (prog : ι → Prog Op Ret α) (s : σ) : Pool ι Op Ret α σ := ⟨prog, fun _ => [], s⟩

def step (h : Handler Op Ret σ) (p : Pool ι Op Ret α σ) (i : ι) : Pool ι Op Ret α σ :=
  match p.prog i with
  | .done _ => p
  | .op o k => {
      prog := Function.update p.prog i (k (h o p.state).1)
      taken := Function.update p.taken i (p.taken i ++ [o])
      state := (h o p.state).2 }

def run (h : Handler Op Ret σ) (schedule : List ι) (p : Pool ι Op Ret α σ) : Pool ι Op Ret α σ :=
  schedule.foldl (step h) p

theorem run_append (is js : List ι) : p.run h (is ++ js) = (p.run h is).run h js :=
  List.foldl_append

theorem step_of_op {o : Op} {k : Ret o → Prog Op Ret α} (hp : p.prog i = .op o k) :
    p.step h i = {
      prog := Function.update p.prog i (k (h o p.state).1)
      taken := Function.update p.taken i (p.taken i ++ [o])
      state := (h o p.state).2 } := by
  rw [step, hp]

theorem step_of_done {a : α} (hp : p.prog i = .done a) : p.step h i = p := by
  rw [step, hp]

theorem step_self : ((p.step h i).prog i, (p.step h i).state) = (p.prog i).after h 1 p.state := by
  cases hp : p.prog i with
  | done a => rw [step_of_done hp, hp]; rfl
  | op o k =>
    rw [step_of_op hp]
    exact Prod.ext (Function.update_self ..) rfl

theorem step_prog_self : (p.step h i).prog i = ((p.prog i).after h 1 p.state).1 :=
  congrArg Prod.fst step_self

theorem step_state : (p.step h i).state = ((p.prog i).after h 1 p.state).2 :=
  congrArg Prod.snd step_self

theorem step_prog_ne (hj : j ≠ i) : (p.step h i).prog j = p.prog j := by
  cases hp : p.prog i with
  | done a => rw [step_of_done hp]
  | op o k =>
    rw [step_of_op hp]
    exact Function.update_of_ne hj ..

theorem step_taken_ne (hj : j ≠ i) : (p.step h i).taken j = p.taken j := by
  cases hp : p.prog i with
  | done a => rw [step_of_done hp]
  | op o k =>
    rw [step_of_op hp]
    exact Function.update_of_ne hj ..

theorem run_replicate (n : Nat) (p : Pool ι Op Ret α σ) :
    ((p.run h (List.replicate n i)).prog i, (p.run h (List.replicate n i)).state) =
        (p.prog i).after h n p.state ∧
      ∀ j, j ≠ i → (p.run h (List.replicate n i)).prog j = p.prog j ∧
        (p.run h (List.replicate n i)).taken j = p.taken j := by
  induction n generalizing p with
  | zero => exact ⟨rfl, fun _ _ => ⟨rfl, rfl⟩⟩
  | succ n ih =>
    obtain ⟨hself, hother⟩ := ih (p.step h i)
    have hstep := step_self (h := h) (p := p) (i := i)
    constructor
    · refine hself.trans ?_
      rw [Nat.add_comm, Prog.after_add, ← hstep]
    · intro j hj
      exact ⟨(hother j hj).1.trans (step_prog_ne hj), (hother j hj).2.trans (step_taken_ne hj)⟩

def Guarded (allows : Pool ι Op Ret α σ → ι → Prop) (h : Handler Op Ret σ) :
    List ι → Pool ι Op Ret α σ → Prop
  | [], _ => True
  | i :: schedule, p => allows p i ∧ Guarded allows h schedule (p.step h i)

theorem Guarded.run {allows : Pool ι Op Ret α σ → ι → Prop} {Inv : Pool ι Op Ret α σ → Prop}
    (hstep : ∀ p i, Inv p → allows p i → Inv (p.step h i)) {schedule : List ι}
    (hp : Inv p) (hs : Guarded allows h schedule p) : Inv (p.run h schedule) := by
  induction schedule generalizing p with
  | nil => exact hp
  | cons i schedule ih => exact ih (hstep p i hp hs.1) hs.2

theorem guarded_append {allows : Pool ι Op Ret α σ → ι → Prop} {is js : List ι} :
    Guarded allows h (is ++ js) p ↔ Guarded allows h is p ∧ Guarded allows h js (p.run h is) := by
  induction is generalizing p with
  | nil => exact ⟨fun hp => ⟨trivial, hp⟩, fun hp => hp.2⟩
  | cons i is ih => rw [List.cons_append, Guarded, Guarded, ih, and_assoc]; rfl

end Pool

end Atomic
