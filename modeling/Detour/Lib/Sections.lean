import Mathlib.Data.List.Basic

/-! Texts in sections: the lines before the first header, and each header with the lines under
it.  A loop over the lines that can stop with an error is a loop over the sections. -/

namespace Sections

variable {α ε σ : Type} {isHeader : α → Bool}

structure Block (α : Type) where
  header : α
  lines : List α
  deriving DecidableEq

def Block.toList (b : Block α) : List α := b.header :: b.lines

def blocks (isHeader : α → Bool) : List α → List α × List (Block α)
  | [] => ([], [])
  | l :: ls =>
    let rest := blocks isHeader ls
    if isHeader l then ([], ⟨l, rest.1⟩ :: rest.2) else (l :: rest.1, rest.2)

theorem blocks_header {l : α} {ls : List α} (h : isHeader l = true) : blocks isHeader (l :: ls) =
    ([], ⟨l, (blocks isHeader ls).1⟩ :: (blocks isHeader ls).2) := by
  simp only [blocks, h, if_true]

theorem blocks_line {l : α} {ls : List α} (h : isHeader l = false) : blocks isHeader (l :: ls) =
    (l :: (blocks isHeader ls).1, (blocks isHeader ls).2) := by
  simp only [blocks, h, Bool.false_eq_true, if_false]

theorem blocks_append (isHeader : α → Bool) (ls : List α) :
    (blocks isHeader ls).1 ++ (blocks isHeader ls).2.flatMap Block.toList = ls := by
  induction ls with
  | nil => rfl
  | cons l ls ih =>
    cases h : isHeader l with
    | true => rw [blocks_header h, List.flatMap_cons, List.nil_append, Block.toList,
        List.cons_append, ih]
    | false => rw [blocks_line h, List.cons_append, ih]

theorem blocks_isHeader (isHeader : α → Bool) (ls : List α) :
    (∀ l ∈ (blocks isHeader ls).1, isHeader l = false) ∧
    ∀ b ∈ (blocks isHeader ls).2, isHeader b.header = true ∧
      ∀ l ∈ b.lines, isHeader l = false := by
  induction ls with
  | nil => exact ⟨nofun, nofun⟩
  | cons l ls ih =>
    cases h : isHeader l with
    | true =>
      rw [blocks_header h]
      exact ⟨nofun, List.forall_mem_cons.mpr ⟨⟨h, ih.1⟩, ih.2⟩⟩
    | false =>
      rw [blocks_line h]
      exact ⟨List.forall_mem_cons.mpr ⟨h, ih.1⟩, ih.2⟩

/-! ### Loops that can stop -/

variable {f : σ → α → Except ε σ} {s t : σ}

theorem foldlM_append_ok {xs ys : List α} : (xs ++ ys).foldlM f s = .ok t ↔
    ∃ u, xs.foldlM f s = .ok u ∧ ys.foldlM f u = .ok t := by
  rw [List.foldlM_append]
  cases xs.foldlM f s with
  | error e => exact ⟨nofun, fun ⟨_, h, _⟩ => nomatch h⟩
  | ok u => exact ⟨fun h => ⟨u, rfl, h⟩, fun ⟨_, h, hy⟩ => Except.ok.inj h ▸ hy⟩

/-- For items with `P`, in states with `I`: a round goes through exactly for what `accepts` has,
and then does what `g` does. -/
structure Round (f : σ → α → Except ε σ) (P : α → Prop) (I : σ → Prop) (accepts : α → Prop)
    (g : σ → α → σ) : Prop where
  keeps : ∀ s a, I s → I (g s a)
  ok_iff : ∀ s a t, P a → I s → (f s a = .ok t ↔ accepts a ∧ t = g s a)

variable {P accepts : α → Prop} {I : σ → Prop} {g : σ → α → σ}

theorem Round.foldlM_ok_iff (hf : Round f P I accepts g) (hs : I s) {xs : List α}
    (hxs : ∀ a ∈ xs, P a) :
    xs.foldlM f s = .ok t ↔ (∀ a ∈ xs, accepts a) ∧ t = xs.foldl g s := by
  induction xs generalizing s with
  | nil => exact ⟨fun h => ⟨nofun, (Except.ok.inj h).symm⟩, fun h => congrArg Except.ok h.2.symm⟩
  | cons a xs ih =>
    obtain ⟨hpa, hxs⟩ := List.forall_mem_cons.mp hxs
    have ih := ih (s := g s a) (hf.keeps s a hs) hxs
    rw [List.foldlM_cons, List.foldl_cons, List.forall_mem_cons]
    constructor
    · intro h
      cases hround : f s a with
      | error e =>
        rw [hround] at h
        cases h
      | ok u =>
        rw [hround] at h
        obtain ⟨ha, rfl⟩ := (hf.ok_iff s a u hpa hs).mp hround
        obtain ⟨hall, ht⟩ := ih.mp h
        exact ⟨⟨ha, hall⟩, ht⟩
    · rintro ⟨⟨ha, hall⟩, ht⟩
      rw [(hf.ok_iff s a _ hpa hs).mpr ⟨ha, rfl⟩]
      exact ih.mpr ⟨hall, ht⟩

theorem foldlM_flatMap {β : Type} (out : β → List α) (bs : List β) (s : σ) :
    (bs.flatMap out).foldlM f s = bs.foldlM (fun s b => (out b).foldlM f s) s := by
  induction bs generalizing s with
  | nil => rfl
  | cons b bs ih =>
    rw [List.flatMap_cons, List.foldlM_append, List.foldlM_cons]
    congr 1
    funext u
    exact ih u

/-! ### What a loop collects -/

section Collects

variable {γ : Type}

theorem foldl_append (field : σ → List γ) (out : α → List γ)
    (h : ∀ s a, field (g s a) = field s ++ out a) (xs : List α) (s : σ) :
    field (xs.foldl g s) = field s ++ xs.flatMap out := by
  induction xs generalizing s with
  | nil => exact (List.append_nil _).symm
  | cons a xs ih => rw [List.foldl_cons, ih, h, List.flatMap_cons, List.append_assoc]

theorem foldl_any (field : σ → Bool) (out : α → Bool)
    (h : ∀ s a, field (g s a) = (field s || out a)) (xs : List α) (s : σ) :
    field (xs.foldl g s) = (field s || xs.any out) := by
  induction xs generalizing s with
  | nil => exact (Bool.or_false _).symm
  | cons a xs ih => rw [List.foldl_cons, ih, h, List.any_cons, Bool.or_assoc]

theorem foldl_first (field : σ → Option γ) (out : α → Option γ)
    (h : ∀ s a, field (g s a) = (field s).or (out a)) (xs : List α) (s : σ) :
    field (xs.foldl g s) = (field s).or (xs.findSome? out) := by
  induction xs generalizing s with
  | nil => exact (Option.or_none).symm
  | cons a xs ih =>
    rw [List.foldl_cons, ih, h, List.findSome?_cons, Option.or_assoc]
    cases out a <;> rfl

theorem foldl_last (field : σ → Option γ) (out : α → Option γ)
    (h : ∀ s a, field (g s a) = (out a).or (field s)) (xs : List α) (s : σ) :
    field (xs.foldl g s) = (xs.reverse.findSome? out).or (field s) := by
  induction xs generalizing s with
  | nil => rfl
  | cons a xs ih =>
    rw [List.foldl_cons, ih, h, List.reverse_cons, List.findSome?_append, Option.or_assoc,
      List.findSome?_singleton]

theorem foldl_same (field : σ → γ) (h : ∀ s a, field (g s a) = field s) (xs : List α) (s : σ) :
    field (xs.foldl g s) = field s := by
  induction xs generalizing s with
  | nil => rfl
  | cons a xs ih => rw [List.foldl_cons, ih, h]

theorem flatMap_filter (p : α → Bool) (out : α → List γ) (xs : List α) :
    xs.flatMap (fun a => if p a then out a else []) = (xs.filter p).flatMap out := by
  induction xs with
  | nil => rfl
  | cons a xs ih =>
    rw [List.flatMap_cons, ih]
    cases h : p a with
    | true => rw [List.filter_cons_of_pos h, List.flatMap_cons, if_pos rfl]
    | false =>
      rw [List.filter_cons_of_neg (ne_true_of_eq_false h), if_neg Bool.false_ne_true,
        List.nil_append]

end Collects

end Sections
