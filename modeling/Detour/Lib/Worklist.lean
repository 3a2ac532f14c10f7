import Mathlib.Data.List.Infix
import Mathlib.Data.List.Nodup
import Mathlib.Logic.Relation

/-! Walking a table of (child, parent) pairs from a list of roots, with a list that grows while it
is being walked. -/

namespace Worklist

variable {α : Type} [DecidableEq α]

def visit (parent : α) (out : List α) (entries : List (α × α)) : List α :=
  entries.foldl (fun out e => if e.2 = parent ∧ e.1 ∉ out then out ++ [e.1] else out) out

def unseen (table : List (α × α)) (out : List α) : List (α × α) :=
  table.filter (fun e => e.1 ∉ out)

variable {table entries : List (α × α)} {roots out : List α} {parent p q : α}

theorem visit_cons (e : α × α) : visit parent out (e :: entries) =
    visit parent (if e.2 = parent ∧ e.1 ∉ out then out ++ [e.1] else out) entries := rfl

theorem prefix_visit : out <+: visit parent out entries := by
  induction entries generalizing out with
  | nil => exact List.prefix_rfl
  | cons e entries ih =>
    rw [visit_cons]
    split
    · exact (List.prefix_append out [e.1]).trans ih
    · exact ih

theorem unseen_append (he : p ∉ out) (hp : (p, q) ∈ table) :
    (unseen table (out ++ [p])).length < (unseen table out).length := by
  have hsub : (unseen table (out ++ [p])).Sublist (unseen table out) := by
    apply List.monotone_filter_right
    intro e hout
    simp only [List.mem_append, decide_eq_true_eq] at hout ⊢
    exact fun h => hout (.inl h)
  apply lt_of_le_of_ne hsub.length_le
  intro hlen
  have hmem : (p, q) ∈ unseen table out := List.mem_filter.mpr ⟨hp, decide_eq_true he⟩
  rw [← hsub.eq_of_length hlen] at hmem
  have hnot := of_decide_eq_true (List.mem_filter.mp hmem).2
  exact hnot (List.mem_append_right _ (List.mem_singleton_self _))

theorem unseen_visit (hsub : entries ⊆ table) :
    (unseen table (visit parent out entries)).length + (visit parent out entries).length ≤
      (unseen table out).length + out.length := by
  induction entries generalizing out with
  | nil => exact le_rfl
  | cons e entries ih =>
    rw [List.cons_subset] at hsub
    rw [visit_cons]
    split
    · next h =>
      have hless : (unseen table (out ++ [e.1])).length < (unseen table out).length :=
        unseen_append h.2 hsub.1
      apply (ih hsub.2).trans
      rw [List.length_append, List.length_singleton]
      omega
    · exact ih hsub.2

def scan (table : List (α × α)) (out : List α) (i : Nat) : List α :=
  if h : i < out.length then scan table (visit out[i] out table) (i + 1) else out
termination_by (unseen table out).length + out.length - i
decreasing_by
  have hseen : (unseen table (visit out[i] out table)).length + (visit out[i] out table).length ≤
      (unseen table out).length + out.length := unseen_visit (List.Subset.refl table)
  omega

/-! ### What the walk finds -/

def Reaches (edge : α → α → Prop) (roots : List α) (q : α) : Prop :=
  ∃ r ∈ roots, Relation.ReflTransGen edge r q

omit [DecidableEq α] in
theorem Reaches.root {edge : α → α → Prop} (h : q ∈ roots) : Reaches edge roots q := ⟨q, h, .refl⟩

omit [DecidableEq α] in
theorem Reaches.child {edge : α → α → Prop} (h : Reaches edge roots p) (he : edge p q) :
    Reaches edge roots q := by
  obtain ⟨r, hr, hp⟩ := h
  exact ⟨r, hr, hp.tail he⟩

omit [DecidableEq α] in
theorem Reaches.rec_on {edge : α → α → Prop} {P : α → Prop} (h : Reaches edge roots q)
    (hroot : ∀ r ∈ roots, P r) (hchild : ∀ p q, P p → edge p q → P q) : P q := by
  obtain ⟨r, hr, hq⟩ := h
  induction hq with
  | refl => exact hroot r hr
  | tail _ he ih => exact hchild _ _ ih he

theorem mem_visit (hq : (q, parent) ∈ entries) : q ∈ visit parent out entries := by
  induction entries generalizing out with
  | nil => cases hq
  | cons e entries ih =>
    rcases List.mem_cons.mp hq with rfl | htail
    · rw [visit_cons]
      apply prefix_visit.subset
      by_cases hmem : q ∈ out
      · simp [hmem]
      · simp [hmem]
    · exact ih htail

theorem prefix_scan (i : Nat) : out <+: scan table out i := by
  fun_induction scan table out i with
  | case1 out i h ih => exact prefix_visit.trans ih
  | case2 out i h => exact List.prefix_rfl

def Closed (table : List (α × α)) (visited out : List α) : Prop :=
  ∀ p ∈ visited, ∀ q, (q, p) ∈ table → q ∈ out

theorem closed_scan (i : Nat) (h : Closed table (out.take i) out) :
    Closed table (scan table out i) (scan table out i) := by
  fun_induction scan table out i with
  | case1 out i hi ih =>
    apply ih
    intro p hp q hq
    obtain ⟨more, hmore⟩ : out <+: visit out[i] out table := prefix_visit
    have htake : (visit out[i] out table).take (i + 1) = out.take i ++ [out[i]] := by
      rw [← hmore, List.take_append_of_le_length hi, List.take_concat_get']
    rw [htake, List.mem_append, List.mem_singleton] at hp
    rcases hp with hold | rfl
    · exact prefix_visit.subset (h p hold q hq)
    · exact mem_visit hq
  | case2 out i hi =>
    rwa [List.take_of_length_le (Nat.le_of_not_lt hi)] at h

/-- The walk misses nothing below the roots. -/
theorem mem_scan (h : Reaches (fun p q => (q, p) ∈ table) roots q) : q ∈ scan table roots 0 := by
  have hclosed : Closed table (scan table roots 0) (scan table roots 0) :=
    closed_scan 0 (by rw [List.take_zero]; exact nofun)
  exact h.rec_on (fun r hr => (prefix_scan 0).subset hr) (fun p q hp hq => hclosed p hp q hq)

/-! ### What the walk adds -/

theorem of_mem_visit (h : q ∈ visit parent out entries) : q ∈ out ∨ (q, parent) ∈ entries := by
  induction entries generalizing out with
  | nil => exact .inl h
  | cons e entries ih =>
    rw [visit_cons] at h
    rcases ih h with hout | htail
    · split at hout
      · next he =>
        rcases List.mem_append.mp hout with hold | hnew
        · exact .inl hold
        · obtain rfl := List.mem_singleton.mp hnew
          obtain ⟨rfl, -⟩ := he
          exact .inr List.mem_cons_self
      · exact .inl hout
    · exact .inr (List.mem_cons_of_mem e htail)

theorem nodup_visit (h : out.Nodup) : (visit parent out entries).Nodup := by
  induction entries generalizing out with
  | nil => exact h
  | cons e entries ih =>
    rw [visit_cons]
    split
    · next he =>
      apply ih
      rw [← List.concat_eq_append]
      exact List.Nodup.concat he.2 h
    · exact ih h

theorem nodup_scan (i : Nat) (h : out.Nodup) : (scan table out i).Nodup := by
  fun_induction scan table out i with
  | case1 out i hi ih => exact ih (nodup_visit h)
  | case2 out i hi => exact h

theorem scan_reaches (i : Nat) (h : ∀ q ∈ out, Reaches (fun p q => (q, p) ∈ table) roots q) :
    ∀ q ∈ scan table out i, Reaches (fun p q => (q, p) ∈ table) roots q := by
  fun_induction scan table out i with
  | case1 out i hi ih =>
    apply ih
    intro q hq
    rcases of_mem_visit hq with hold | hnew
    · exact h q hold
    · exact (h out[i] (List.getElem_mem hi)).child hnew
  | case2 out i hi => exact h

theorem mem_scan_iff : q ∈ scan table roots 0 ↔ Reaches (fun p q => (q, p) ∈ table) roots q :=
  ⟨scan_reaches 0 (fun _ hr => .root hr) q, mem_scan⟩

/-! ### How long it takes -/

def scanFor (table : List (α × α)) (out : List α) (i : Nat) : (rounds : Nat) → Option (List α)
  | 0 => if i < out.length then none else some out
  | rounds + 1 =>
    if h : i < out.length then scanFor table (visit out[i] out table) (i + 1) rounds else some out

theorem scanFor_eq_some {rounds : Nat} (i : Nat)
    (h : (unseen table out).length + out.length ≤ i + rounds) :
    scanFor table out i rounds = some (scan table out i) := by
  induction rounds generalizing out i with
  | zero =>
    have hi : ¬i < out.length := by omega
    rw [scanFor, if_neg hi, scan, dif_neg hi]
  | succ rounds ih =>
    by_cases hi : i < out.length
    · rw [scanFor, dif_pos hi, scan, dif_pos hi]
      apply ih
      have hseen : (unseen table (visit out[i] out table)).length +
          (visit out[i] out table).length ≤ (unseen table out).length + out.length :=
        unseen_visit (List.Subset.refl table)
      omega
    · rw [scanFor, dif_neg hi, scan, dif_neg hi]

theorem length_unseen_le : (unseen table out).length ≤ table.length := List.length_filter_le ..

end Worklist
