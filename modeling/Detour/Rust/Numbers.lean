import Detour.Rust.AddrText

/-! Unsigned numbers of the standard library: bounds, and reading them from text. -/

namespace Detour.Rust

def clamp (n low high : Nat) : Nat := if n < low then low else if high < n then high else n

/-- `str::parse` of an unsigned number up to `max`. -/
def parseUnsigned (max : Nat) (s : List Char) : Option Nat :=
  let (ds, rest) := readDigits 10 (if s.head? = some '+' then s.tail else s)
  let value := ds.foldl (fun v d => v * 10 + d) 0
  if ds ≠ [] ∧ rest = [] ∧ value ≤ max then some value else none

def parseU32 (s : List Char) : Option UInt32 := (parseUnsigned 4294967295 s).map UInt32.ofNat

def parseU16 (s : List Char) : Option UInt16 := (parseUnsigned 65535 s).map UInt16.ofNat

def parseU8 (s : List Char) : Option UInt8 := (parseUnsigned 255 s).map UInt8.ofNat

theorem parseUnsigned_toDigits {max n : Nat} (h : n ≤ max) :
    parseUnsigned max (Nat.toDigits 10 n) = some n := by
  obtain ⟨ds, htext, hds, hne, hvalue, -⟩ := exists_toDigits (show 1 < 10 by decide) n
  have hsign : (Nat.toDigits 10 n).head? ≠ some '+' := by
    intro hplus
    have hchar : AddrChar '+' :=
      addrChar_of_mem_toDigits (.inl rfl) (List.mem_of_mem_head? hplus)
    unfold AddrChar at hchar
    exact absurd hchar (by decide)
  have hread : readDigits 10 (Nat.toDigits 10 n) = (ds, []) := by
    rw [htext, ← List.append_nil (ds.map _)]
    exact readDigits_append (fun d hd => toDigit_digitChar (.inl rfl) d (hds d hd)) noDigit_nil
  rw [parseUnsigned, if_neg hsign, hread]
  simp only [hvalue]
  exact if_pos ⟨hne, trivial, h⟩

theorem parseU32_toDigits (n : UInt32) : parseU32 (Nat.toDigits 10 n.toNat) = some n := by
  have hn : n.toNat ≤ 4294967295 := Nat.le_of_lt_succ n.toNat_lt
  rw [parseU32, parseUnsigned_toDigits hn, Option.map_some, UInt32.ofNat_toNat]

theorem parseU16_toDigits (n : UInt16) : parseU16 (Nat.toDigits 10 n.toNat) = some n := by
  have hn : n.toNat ≤ 65535 := Nat.le_of_lt_succ n.toNat_lt
  rw [parseU16, parseUnsigned_toDigits hn, Option.map_some, UInt16.ofNat_toNat]

end Detour.Rust
