import Mathlib.Data.List.DropRight

/-! A list of bounded length that gives up its oldest item for a new one. -/

namespace Bounded

variable {α : Type} {xs : List α} {n k : Nat}

def push (capacity : Nat) (xs : List α) (x : α) : List α :=
  (if capacity ≤ xs.length then xs.tail else xs) ++ [x]

theorem length_rtake (xs : List α) (n : Nat) : (xs.rtake n).length = min n xs.length := by
  rw [List.rtake, List.length_drop]
  omega

theorem push_rtake (hpos : 0 < n) (xs : List α) (x : α) :
    push n (xs.rtake n) x = (xs ++ [x]).rtake n := by
  have hdrop : (xs ++ [x]).rtake n = xs.drop (xs.length + 1 - n) ++ [x] := by
    rw [List.rtake, List.length_append, List.length_singleton,
      List.drop_append_of_le_length (by omega)]
  rw [push, length_rtake, hdrop]
  congr 1
  split
  next hfull =>
    rw [List.rtake, List.tail_drop]
    congr 1
    omega
  next hroom =>
    rw [List.rtake]
    congr 1
    omega

theorem take_reverse_rtake (h : k ≤ n) (xs : List α) :
    (xs.rtake n).reverse.take k = xs.reverse.take k := by
  rw [List.rtake_eq_reverse_take_reverse, List.reverse_reverse, List.take_take, Nat.min_eq_left h]

end Bounded
