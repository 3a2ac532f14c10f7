import Mathlib.Data.List.Basic

/-! Indexing and slicing that panics out of range. -/

namespace Detour.Rust

inductive Panic
  | indexOutOfBounds (index len : Nat)
  | sliceOutOfRange (bound len : Nat)
  deriving DecidableEq

abbrev Checked := Except Panic

variable {xs : List α} {i : Nat}

def index (xs : List α) (i : Nat) : Checked α :=
  match xs[i]? with
  | some a => .ok a
  | none => .error (.indexOutOfBounds i xs.length)

def sliceFrom (xs : List α) (i : Nat) : Checked (List α) :=
  if i ≤ xs.length then .ok (xs.drop i) else .error (.sliceOutOfRange i xs.length)

def sliceTo (xs : List α) (i : Nat) : Checked (List α) :=
  if i ≤ xs.length then .ok (xs.take i) else .error (.sliceOutOfRange i xs.length)

theorem sliceFrom_of_le (h : i ≤ xs.length) : sliceFrom xs i = .ok (xs.drop i) := if_pos h

theorem sliceTo_of_le (h : i ≤ xs.length) : sliceTo xs i = .ok (xs.take i) := if_pos h

end Detour.Rust
