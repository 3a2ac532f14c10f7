import Mathlib.Data.List.DropRight
import Mathlib.Data.List.Infix

/-! Texts that are pieces with a separator between them, and what ends one. -/

namespace Delimited

variable {α : Type} {sep c : α} {xs ys : List (List α)} {f s x : List α}

/-! ### Joining -/

theorem intercalate_append (hx : xs ≠ []) (hy : ys ≠ []) :
    [sep].intercalate (xs ++ ys) = [sep].intercalate xs ++ sep :: [sep].intercalate ys := by
  induction xs with
  | nil => exact absurd rfl hx
  | cons x xs ih =>
    cases xs with
    | nil =>
      rw [List.singleton_append, List.intercalate_cons_of_ne_nil hy, List.intercalate_singleton]
      simp
    | cons x' xs =>
      have hne : x' :: xs ++ ys ≠ [] := List.cons_ne_nil x' (xs ++ ys)
      rw [List.cons_append, List.intercalate_cons_of_ne_nil hne,
        List.intercalate_cons_of_ne_nil (List.cons_ne_nil x' xs), ih (List.cons_ne_nil x' xs)]
      simp

theorem map_intercalate {β : Type} (g : α → β) (xs : List (List α)) :
    ([sep].intercalate xs).map g = [g sep].intercalate (xs.map (List.map g)) := by
  induction xs with
  | nil => rfl
  | cons x xs ih =>
    cases xs with
    | nil => simp
    | cons x' xs =>
      rw [List.map_cons] at ih
      rw [List.intercalate_cons_cons, List.map_cons, List.map_cons, List.intercalate_cons_cons,
        ← ih]
      simp

theorem intercalate_concat (sep : α) (xs : List (List α)) :
    ∃ p, ∀ y, [sep].intercalate (xs ++ [y]) = p ++ y := by
  by_cases hx : xs = []
  · subst hx
    exact ⟨[], fun y => by simp⟩
  · refine ⟨[sep].intercalate xs ++ [sep], fun y => ?_⟩
    rw [intercalate_append hx (List.cons_ne_nil y []), List.intercalate_singleton]
    simp

theorem suffix_append_cons {y : α} {rs as bs : List α} (hy : y ∉ rs) :
    rs <:+ as ++ y :: bs ↔ rs <:+ bs := by
  constructor
  · intro h
    rcases List.suffix_or_suffix_of_suffix h (List.suffix_append as (y :: bs)) with hs | hs
    · rcases List.suffix_cons_iff.mp hs with rfl | hs
      · exact absurd List.mem_cons_self hy
      · exact hs
    · exact absurd (hs.subset List.mem_cons_self) hy
  · intro h
    exact h.trans ((List.suffix_cons y bs).trans (List.suffix_append as (y :: bs)))

theorem prefix_append_cons {y : α} {rs as bs : List α} (hy : y ∉ rs) :
    rs <+: as ++ y :: bs ↔ rs <+: as := by
  have hrev : y ∉ rs.reverse := mt List.mem_reverse.mp hy
  rw [← List.reverse_suffix, List.reverse_append, List.reverse_cons, List.append_assoc,
    List.singleton_append, suffix_append_cons hrev, List.reverse_suffix]

theorem before_iff : (s.length < f.length ∧ s <:+ f ∧ f[f.length - s.length - 1]? = some c) ↔
    ∃ p, f = p ++ c :: s := by
  constructor
  · rintro ⟨hlen, ⟨q, rfl⟩, hc⟩
    have hq : q ≠ [] := by
      rintro rfl
      simp at hlen
    obtain ⟨p, a, rfl⟩ := (List.eq_nil_or_concat' q).resolve_left hq
    refine ⟨p, ?_⟩
    have hidx : (p ++ [a] ++ s).length - s.length - 1 = p.length := by
      simp
      omega
    rw [hidx] at hc
    simp only [List.append_assoc, List.singleton_append, List.getElem?_append_right (Nat.le_refl _),
      Nat.sub_self, List.getElem?_cons_zero, Option.some.injEq] at hc
    rw [hc]
    simp
  · rintro ⟨p, rfl⟩
    refine ⟨by simp; omega, ⟨p ++ [c], by simp⟩, ?_⟩
    have hidx : (p ++ c :: s).length - s.length - 1 = p.length := by simp; omega
    rw [hidx]
    simp

/-! ### Reading piece by piece -/

structure Piecewise {β : Type} (P : α → Prop) (r : List α → List β) : Prop where
  nil : r [] = []
  append : ∀ a c b, P c → r (a ++ c :: b) = r a ++ r b

namespace Piecewise

variable {β : Type} {P : α → Prop} {r : List α → List β} {a : List α}

theorem cons (h : Piecewise P r) (hc : P c) : r (c :: a) = r a := by
  rw [← List.nil_append (c :: a), h.append [] c a hc, h.nil, List.nil_append]

theorem concat (h : Piecewise P r) (hc : P c) : r (a ++ [c]) = r a := by
  rw [h.append a c [] hc, h.nil, List.append_nil]

theorem intercalate (h : Piecewise P r) (hsep : P sep) (xs : List (List α)) :
    r ([sep].intercalate xs) = xs.flatMap r := by
  induction xs with
  | nil => exact h.nil
  | cons x xs ih =>
    cases xs with
    | nil => simp
    | cons y ys =>
      rw [List.intercalate_cons_cons, List.append_assoc, List.singleton_append,
        h.append _ _ _ hsep, ih]
      rfl

theorem splitOnP (h : Piecewise P r) {p : α → Bool} (hp : ∀ c, p c = true → P c) (a : List α) :
    (a.splitOnP p).flatMap r = r a := by
  induction hn : a.length using Nat.strongRecOn generalizing a with
  | ind n ih =>
    by_cases hall : ∀ c ∈ a, p c = false
    · rw [List.splitOnP_eq_singleton hall, List.flatMap_singleton]
    · simp only [not_forall, Bool.not_eq_false] at hall
      obtain ⟨c, hc, hpc⟩ := hall
      obtain ⟨b, d, rfl⟩ := List.append_of_mem hc
      simp only [List.length_append, List.length_cons] at hn
      rw [List.splitOnP_append_cons b d hpc, List.flatMap_append, h.append b c d (hp c hpc),
        ih b.length (by omega) b rfl, ih d.length (by omega) d rfl]

end Piecewise

/-! ### Splitting -/

variable [DecidableEq α]

theorem splitOn_intercalate_flatMap (h : xs ≠ []) :
    ([sep].intercalate xs).splitOn sep = xs.flatMap (List.splitOn sep) := by
  induction xs with
  | nil => exact absurd rfl h
  | cons x xs ih =>
    cases xs with
    | nil => simp
    | cons x' xs =>
      have hne : x' :: xs ≠ [] := List.cons_ne_nil x' xs
      rw [List.intercalate_cons_of_ne_nil hne, List.flatMap_cons, ← ih hne, List.append_assoc,
        List.singleton_append, List.splitOn_append_cons_self]

theorem splitOn_concat (hc : c ≠ sep) (x : List α) :
    ∃ init piece, (x ++ [c]).splitOn sep = init ++ [piece ++ [c]] := by
  induction x with
  | nil => exact ⟨[], [], List.splitOn_eq_singleton (by simpa using hc.symm)⟩
  | cons a x ih =>
    obtain ⟨init, piece, h⟩ := ih
    rw [List.cons_append, List.splitOn_cons_eq_if_modifyHead, h]
    split
    · exact ⟨[] :: init, piece, rfl⟩
    · cases init with
      | nil => exact ⟨[], a :: piece, rfl⟩
      | cons p init => exact ⟨(a :: p) :: init, piece, rfl⟩

theorem notMem_of_mem_splitOn (h : x ∈ f.splitOn sep) : sep ∉ x := by
  induction f generalizing x with
  | nil =>
    obtain rfl := List.mem_singleton.mp h
    exact List.not_mem_nil
  | cons a f ih =>
    rw [List.splitOn_cons_eq_if_modifyHead] at h
    obtain ⟨p, ps, hps⟩ := List.exists_cons_of_ne_nil (List.splitOn_ne_nil sep f)
    rw [hps] at h ih
    split at h
    next =>
      rcases List.mem_cons.mp h with rfl | h
      · exact List.not_mem_nil
      · exact ih h
    next ha =>
      rcases List.mem_cons.mp h with rfl | h
      · have hp := ih List.mem_cons_self
        simp only [List.mem_cons, not_or]
        exact ⟨fun heq => ha (by simp [heq]), hp⟩
      · exact ih (List.mem_cons_of_mem p h)

/-! ### What ends a text -/

theorem notMem_iff_length_splitOn : sep ∉ f ↔ (f.splitOn sep).length = 1 := by
  constructor
  · intro h
    rw [List.splitOn_eq_singleton h]
    rfl
  · intro h
    obtain ⟨x, hx⟩ := List.length_eq_one_iff.mp h
    have hf : f = x := by
      have hjoin : [sep].intercalate (f.splitOn sep) = f := List.intercalate_splitOn sep
      rw [← hjoin, hx, List.intercalate_singleton]
    rw [hf]
    exact notMem_of_mem_splitOn (hx ▸ List.mem_singleton_self x)

theorem splitOn_map {β : Type} [DecidableEq β] {g : α → β} (hg : ∀ a, g a = g sep ↔ a = sep)
    (f : List α) : (f.map g).splitOn (g sep) = (f.splitOn sep).map (List.map g) := by
  induction f with
  | nil => rfl
  | cons a f ih =>
    rw [List.map_cons, List.splitOn_cons_eq_if_modifyHead, List.splitOn_cons_eq_if_modifyHead, ih]
    by_cases ha : a = sep
    · simp [ha]
    · have hga : ¬g a = g sep := fun h => ha ((hg a).mp h)
      obtain ⟨p, ps, hps⟩ := List.exists_cons_of_ne_nil (List.splitOn_ne_nil sep f)
      simp [ha, hga, hps]

variable (hne : xs ≠ []) (hsep : ∀ x ∈ xs, sep ∉ x)
include hne hsep

theorem eq_intercalate_iff : f = [sep].intercalate xs ↔ xs = f.splitOn sep := by
  constructor
  · rintro rfl
    exact (List.splitOn_intercalate sep hsep hne).symm
  · rintro rfl
    exact (List.intercalate_splitOn sep).symm

theorem under_iff : (∃ p, f = p ++ sep :: [sep].intercalate xs) ↔
    xs <:+ f.splitOn sep ∧ xs ≠ f.splitOn sep := by
  constructor
  · rintro ⟨p, rfl⟩
    rw [List.splitOn_append_cons_self, List.splitOn_intercalate sep hsep hne]
    refine ⟨List.suffix_append _ _, fun heq => ?_⟩
    have hnil : p.splitOn sep = [] := List.self_eq_append_left.mp heq
    exact List.splitOn_ne_nil sep p hnil
  · rintro ⟨⟨ps, hps⟩, hproper⟩
    have hps' : ps ≠ [] := by
      rintro rfl
      exact hproper hps
    refine ⟨[sep].intercalate ps, ?_⟩
    rw [← intercalate_append hps' hne, hps, List.intercalate_splitOn]

theorem ends_iff : (f = [sep].intercalate xs ∨ ∃ p, f = p ++ sep :: [sep].intercalate xs) ↔
    xs <:+ f.splitOn sep := by
  rw [eq_intercalate_iff hne hsep, under_iff hne hsep]
  constructor
  · rintro (rfl | h)
    · exact List.suffix_refl _
    · exact h.1
  · intro h
    by_cases heq : xs = f.splitOn sep
    · exact .inl heq
    · exact .inr ⟨h, heq⟩

end Delimited
