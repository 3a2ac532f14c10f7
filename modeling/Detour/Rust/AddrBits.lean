import Detour.Rust.IpAddr
import Mathlib.Data.List.Sort
import Mathlib.Data.Nat.Digits.Defs

/-! IP addresses as numbers, and their order. -/

namespace Detour.Rust

/-! ### Numbers -/

def Ipv4Addr.digits (a : Ipv4Addr) : List Nat := (a.octets.toList.map UInt8.toNat).reverse

def Ipv4Addr.toNat (a : Ipv4Addr) : Nat := Nat.ofDigits 256 a.digits

def Ipv6Addr.digits (a : Ipv6Addr) : List Nat := (a.segments.toList.map UInt16.toNat).reverse

def Ipv6Addr.toNat (a : Ipv6Addr) : Nat := Nat.ofDigits 65536 a.digits

theorem Ipv4Addr.length_digits (a : Ipv4Addr) : a.digits.length = 4 := by simp [digits]

theorem Ipv6Addr.length_digits (a : Ipv6Addr) : a.digits.length = 8 := by simp [digits]

theorem Ipv4Addr.digits_lt (a : Ipv4Addr) : ∀ d ∈ a.digits, d < 256 := by
  intro d hd
  obtain ⟨o, -, rfl⟩ := List.mem_map.mp (List.mem_reverse.mp hd)
  exact o.toNat_lt

theorem Ipv6Addr.digits_lt (a : Ipv6Addr) : ∀ d ∈ a.digits, d < 65536 := by
  intro d hd
  obtain ⟨o, -, rfl⟩ := List.mem_map.mp (List.mem_reverse.mp hd)
  exact o.toNat_lt

theorem Ipv4Addr.toNat_lt (a : Ipv4Addr) : a.toNat < 2 ^ 32 := by
  have h := Nat.ofDigits_lt_base_pow_length (by decide) a.digits_lt
  rwa [a.length_digits] at h

theorem Ipv6Addr.toNat_lt (a : Ipv6Addr) : a.toNat < 2 ^ 128 := by
  have h := Nat.ofDigits_lt_base_pow_length (by decide) a.digits_lt
  rwa [a.length_digits] at h

theorem Ipv4Addr.toNat_inj {a b : Ipv4Addr} (h : a.toNat = b.toNat) : a = b := by
  have hlen : a.digits.length = b.digits.length := a.length_digits.trans b.length_digits.symm
  have hdigits : a.digits = b.digits :=
    Nat.ofDigits_inj_of_len_eq (by decide) hlen a.digits_lt b.digits_lt h
  have hmap : a.octets.toList.map UInt8.toNat = b.octets.toList.map UInt8.toNat :=
    List.reverse_injective hdigits
  obtain ⟨as⟩ := a
  obtain ⟨bs⟩ := b
  have hlist : as.toList = bs.toList :=
    List.map_injective_iff.mpr (fun _ _ => UInt8.toNat_inj.mp) hmap
  rw [Vector.toList_inj.mp hlist]

theorem Ipv6Addr.toNat_inj {a b : Ipv6Addr} (h : a.toNat = b.toNat) : a = b := by
  have hlen : a.digits.length = b.digits.length := a.length_digits.trans b.length_digits.symm
  have hdigits : a.digits = b.digits :=
    Nat.ofDigits_inj_of_len_eq (by decide) hlen a.digits_lt b.digits_lt h
  have hmap : a.segments.toList.map UInt16.toNat = b.segments.toList.map UInt16.toNat :=
    List.reverse_injective hdigits
  obtain ⟨as⟩ := a
  obtain ⟨bs⟩ := b
  have hlist : as.toList = bs.toList :=
    List.map_injective_iff.mpr (fun _ _ => UInt16.toNat_inj.mp) hmap
  rw [Vector.toList_inj.mp hlist]

/-! ### `Ord` -/

def IpAddr.rank : IpAddr → Nat
  | .v4 a => a.toNat
  | .v6 a => 2 ^ 32 + a.toNat

theorem IpAddr.rank_inj {a b : IpAddr} (h : a.rank = b.rank) : a = b := by
  cases a with
  | v4 a =>
    cases b with
    | v4 b => rw [Ipv4Addr.toNat_inj h]
    | v6 b =>
      have hlt := a.toNat_lt
      simp only [rank] at h
      omega
  | v6 a =>
    cases b with
    | v4 b =>
      have hlt := b.toNat_lt
      simp only [rank] at h
      omega
    | v6 b => rw [Ipv6Addr.toNat_inj (Nat.add_left_cancel h)]

/-! ### `Vec::sort` and `Vec::dedup` -/

def sortBy {α : Type} (rank : α → Nat) (l : List α) : List α :=
  l.mergeSort fun a b => rank a ≤ rank b

def dedup {α : Type} [DecidableEq α] : List α → List α
  | [] => []
  | a :: l => if l.head? = some a then dedup l else a :: dedup l

variable {α : Type} [DecidableEq α] {rank : α → Nat} {l m : List α} {x : α}

theorem mem_dedup : x ∈ dedup l ↔ x ∈ l := by
  induction l with
  | nil => rfl
  | cons a l ih =>
    rw [dedup]
    split
    · next h =>
      rw [ih, List.mem_cons]
      refine ⟨.inr, fun hx => hx.elim ?_ id⟩
      rintro rfl
      exact List.mem_of_head? h
    · rw [List.mem_cons, List.mem_cons, ih]

omit [DecidableEq α] in
theorem sortBy_sorted (rank : α → Nat) (l : List α) :
    (sortBy rank l).Pairwise fun a b => rank a ≤ rank b := by
  have h : (l.mergeSort fun a b => decide (rank a ≤ rank b)).Pairwise
      fun a b => decide (rank a ≤ rank b) = true := by
    apply List.pairwise_mergeSort
    · intro a b c hab hbc
      simp only [decide_eq_true_eq] at *
      omega
    · intro a b
      simp only [Bool.or_eq_true, decide_eq_true_eq]
      omega
  rw [sortBy]
  simpa only [decide_eq_true_eq] using h

theorem dedup_sorted (hinj : ∀ a b, rank a = rank b → a = b)
    (h : l.Pairwise fun a b => rank a ≤ rank b) :
    (dedup l).Pairwise fun a b => rank a < rank b := by
  induction h with
  | nil => exact List.Pairwise.nil
  | @cons a l hle hl ih =>
    rw [dedup]
    split
    · exact ih
    · next hne =>
      refine List.Pairwise.cons (fun x hx => ?_) ih
      have hx := mem_dedup.mp hx
      apply lt_of_le_of_ne (hle x hx)
      intro heq
      obtain rfl := hinj a x heq
      cases l with
      | nil => cases hx
      | cons b l =>
        have hb : rank b ≤ rank a := by
          rcases List.mem_cons.mp hx with rfl | hx
          · exact le_rfl
          · exact (List.pairwise_cons.mp hl).1 a hx
        have hab : rank a ≤ rank b := hle b List.mem_cons_self
        exact hne (congrArg some (hinj b a (le_antisymm hb hab)))

omit [DecidableEq α] in
theorem ne_of_rank {a b : α} (h : rank a < rank b) : a ≠ b := by
  rintro rfl
  exact lt_irrefl _ h

theorem dedup_sortBy_inj (hinj : ∀ a b, rank a = rank b → a = b) :
    dedup (sortBy rank l) = dedup (sortBy rank m) ↔ ∀ x, x ∈ l ↔ x ∈ m := by
  have hmem (l : List α) (x : α) : x ∈ dedup (sortBy rank l) ↔ x ∈ l := by
    rw [mem_dedup, sortBy, List.mem_mergeSort]
  constructor
  · intro h x
    rw [← hmem l, ← hmem m, h]
  · intro h
    have hl := dedup_sorted hinj (sortBy_sorted rank l)
    have hm := dedup_sorted hinj (sortBy_sorted rank m)
    have hperm : (dedup (sortBy rank l)).Perm (dedup (sortBy rank m)) := by
      rw [List.perm_ext_iff_of_nodup (hl.imp ne_of_rank) (hm.imp ne_of_rank)]
      intro x
      rw [hmem, hmem, h]
    exact hperm.eq_of_pairwise (fun a b _ _ hab hba => absurd (hab.trans hba) (lt_irrefl _)) hl hm

end Detour.Rust
