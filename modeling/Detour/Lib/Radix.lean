import Mathlib.Tactic.Ring

/-! Numbers of a fixed count of digits, the first digit the most significant. -/

namespace Radix

variable {base n a : Nat} {ds : List Nat}

def digit (base n a i : Nat) : Nat := a / base ^ (n - 1 - i) % base

def Starts (base n : Nat) (ds : List Nat) (a : Nat) : Prop :=
  ∀ i d, ds[i]? = some d → digit base n a i = d

theorem digit_zero (hd : a < base ^ (n + 1)) : digit base (n + 1) a 0 = a / base ^ n := by
  apply Nat.mod_eq_of_lt
  apply Nat.div_lt_of_lt_mul
  rwa [← Nat.pow_succ]

theorem digit_succ {i d : Nat} (hpos : 0 < base) (hi : i < n) :
    digit base (n + 1) (d * base ^ n + a) (i + 1) = digit base n a i := by
  obtain ⟨k, rfl⟩ : ∃ k, n = i + 1 + k := Nat.exists_eq_add_of_le hi
  have hsucc : i + 1 + k + 1 - 1 - (i + 1) = k := by omega
  have hhere : i + 1 + k - 1 - i = k := by omega
  unfold digit
  rw [hsucc, hhere]
  have hsplit : d * base ^ (i + 1 + k) + a = a + base ^ k * (base * (d * base ^ i)) := by ring
  rw [hsplit, Nat.add_mul_div_left _ _ (Nat.pow_pos hpos), Nat.add_mul_mod_self_left]

theorem exists_starts (base n : Nat) (ds : List Nat) (hpos : 0 < base) (hlen : ds.length ≤ n)
    (hds : ∀ d ∈ ds, d < base) : ∃ a < base ^ n, Starts base n ds a := by
  induction ds generalizing n with
  | nil => exact ⟨0, Nat.pow_pos hpos, nofun⟩
  | cons d ds ih =>
    rw [List.forall_mem_cons] at hds
    cases n with
    | zero => exact absurd hlen (Nat.not_succ_le_zero _)
    | succ n =>
      obtain ⟨a, ha, hstarts⟩ := ih n (Nat.le_of_succ_le_succ hlen) hds.2
      have hlt : d * base ^ n + a < base ^ (n + 1) :=
        calc
          d * base ^ n + a < d * base ^ n + base ^ n := Nat.add_lt_add_left ha _
          _ = (d + 1) * base ^ n := by ring
          _ ≤ base * base ^ n := Nat.mul_le_mul_right _ hds.1
          _ = base ^ (n + 1) := by ring
      refine ⟨d * base ^ n + a, hlt, fun i d' hi => ?_⟩
      cases i with
      | zero =>
        cases hi
        rw [digit_zero hlt, Nat.mul_comm, Nat.mul_add_div (Nat.pow_pos hpos),
          Nat.div_eq_of_lt ha, Nat.add_zero]
      | succ i =>
        have hlt' : i < n := by
          obtain ⟨hi, -⟩ := List.getElem?_eq_some_iff.mp hi
          rw [List.length_cons] at hi hlen
          omega
        rw [digit_succ hpos hlt']
        exact hstarts i d' hi

end Radix
