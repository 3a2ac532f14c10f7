import Detour.Rust.Numbers
import Mathlib.Data.List.DropRight

/-! The `str` methods that work on bytes, over lists of bytes. -/

namespace Detour.Rust

abbrev Bytes := List UInt8

def ascii (s : String) : Bytes := s.toList.map fun c => c.toNat.toUInt8

def lowerByte (b : UInt8) : UInt8 := if 65 ≤ b ∧ b ≤ 90 then b + 32 else b

def lowerBytes (s : Bytes) : Bytes := s.map lowerByte

def trimEndMatches (c : UInt8) (s : Bytes) : Bytes := s.rdropWhile (· == c)

def stripPrefixBytes (p s : Bytes) : Option Bytes :=
  if p.isPrefixOf s then some (s.drop p.length) else none

def stripSuffixBytes (p s : Bytes) : Option Bytes :=
  if p.isSuffixOf s then some (s.take (s.length - p.length)) else none

def trimEndMatchesText (p : Bytes) (s : Bytes) : Bytes :=
  if p ≠ [] ∧ p.isSuffixOf s then trimEndMatchesText p (s.take (s.length - p.length)) else s
termination_by s.length
decreasing_by
  rename_i h
  have hlen : p.length ≤ s.length := (List.isSuffixOf_iff_suffix.mp h.2).length_le
  have hpos : 0 < p.length := List.length_pos_of_ne_nil h.1
  rw [List.length_take]
  omega

def parseU8Bytes (s : Bytes) : Option Nat := parseUnsigned 255 (s.map fun b => Char.ofNat b.toNat)

end Detour.Rust
