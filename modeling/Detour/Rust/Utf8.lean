import Detour.Rust.Bytes
import Mathlib.Data.Bool.AllAny

/-! `String::from_utf8_lossy`: UTF-8 as it is decoded when anything may stand in it. -/

namespace Detour.Rust

def REPLACEMENT_CHARACTER : Char := Char.ofNat 0xFFFD

abbrev ByteRange := UInt8 × UInt8

def ByteRange.has (r : ByteRange) (b : UInt8) : Bool := r.1 ≤ b && b ≤ r.2

def continuation : ByteRange := (0x80, 0xBF)

def utf8Start (b : UInt8) : Option (Nat × List ByteRange) :=
  if b < 0x80 then some (b.toNat, [])
  else if b < 0xC2 then none
  else if b < 0xE0 then some (b.toNat % 32, [continuation])
  -- no overlong forms and no surrogates
  else if b = 0xE0 then some (b.toNat % 16, [(0xA0, 0xBF), continuation])
  else if b = 0xED then some (b.toNat % 16, [(0x80, 0x9F), continuation])
  else if b < 0xF0 then some (b.toNat % 16, [continuation, continuation])
  else if b = 0xF0 then some (b.toNat % 8, [(0x90, 0xBF), continuation, continuation])
  else if b < 0xF4 then some (b.toNat % 8, [continuation, continuation, continuation])
  else if b = 0xF4 then some (b.toNat % 8, [(0x80, 0x8F), continuation, continuation])
  else none

def decodeStart (b : UInt8) (go : List ByteRange → Nat → List Char) : List Char :=
  match utf8Start b with
  | none => REPLACEMENT_CHARACTER :: go [] 0
  | some (n, []) => Char.ofNat n :: go [] 0
  | some (n, r :: rs) => go (r :: rs) n

/-- The decoding, in the middle of a code point of which `acc` is read and `pending` has to
follow.  What breaks off early is replaced as one piece. -/
def fromUtf8LossyFrom (pending : List ByteRange) (acc : Nat) : Bytes → List Char
  | [] => if pending = [] then [] else [REPLACEMENT_CHARACTER]
  | b :: bs =>
    match pending with
    | [] => decodeStart b fun p n => fromUtf8LossyFrom p n bs
    | r :: rs =>
      if r.has b then
        if rs = [] then Char.ofNat (acc * 64 + b.toNat % 64) :: fromUtf8LossyFrom [] 0 bs
        else fromUtf8LossyFrom rs (acc * 64 + b.toNat % 64) bs
      else REPLACEMENT_CHARACTER :: decodeStart b fun p n => fromUtf8LossyFrom p n bs

def fromUtf8Lossy (bs : Bytes) : List Char := fromUtf8LossyFrom [] 0 bs

/-! ### Line feeds -/

def Continues (pending : List ByteRange) : Prop := ∀ r ∈ pending, 0x80 ≤ r.1

variable {pending : List ByteRange} {n : Nat}

theorem continues_start {b : UInt8} (h : utf8Start b = some (n, pending)) : Continues pending := by
  have hall : ∀ r ∈ [continuation, (0xA0, 0xBF), (0x80, 0x9F), (0x90, 0xBF), (0x80, 0x8F)],
      0x80 ≤ r.1 := List.all_iff_forall_prop.mp (by decide)
  have hmem : pending ⊆
      [continuation, (0xA0, 0xBF), (0x80, 0x9F), (0x90, 0xBF), (0x80, 0x8F)] := by
    unfold utf8Start at h
    split_ifs at h <;> cases h <;> decide
  exact fun r hr => hall r (hmem hr)

theorem Continues.nil : Continues [] := fun _ h => absurd h List.not_mem_nil

theorem decodeStart_append {b : UInt8} {go go' : List ByteRange → Nat → List Char} {t : List Char}
    (h : ∀ pending n, Continues pending → go pending n = go' pending n ++ t) :
    decodeStart b go = decodeStart b go' ++ t := by
  unfold decodeStart
  cases hs : utf8Start b with
  | none => exact congrArg _ (h [] 0 .nil)
  | some s =>
    obtain ⟨n, rs⟩ := s
    cases rs with
    | nil => exact congrArg _ (h [] 0 .nil)
    | cons r rs => exact h (r :: rs) n (continues_start hs)

theorem fromUtf8LossyFrom_append (h : Continues pending) (acc : Nat) (a b : Bytes) :
    fromUtf8LossyFrom pending acc (a ++ 10 :: b) =
      fromUtf8LossyFrom pending acc a ++ '\n' :: fromUtf8LossyFrom [] 0 b := by
  induction a generalizing pending acc with
  | nil =>
    cases pending with
    | nil => rfl
    | cons r rs =>
      have hlow : (0x80 : UInt8) ≤ r.1 := h r List.mem_cons_self
      have hno : r.has 10 = false := by
        have hlt : ¬r.1 ≤ 10 := by
          rw [UInt8.le_iff_toNat_le] at hlow ⊢
          exact fun hle => absurd (hlow.trans hle) (by decide)
        simp [ByteRange.has, hlt]
      simp only [List.nil_append, fromUtf8LossyFrom, hno]
      rfl
  | cons c a ih =>
    have hstart : (decodeStart c fun p n => fromUtf8LossyFrom p n (a ++ 10 :: b)) =
        (decodeStart c fun p n => fromUtf8LossyFrom p n a) ++
          '\n' :: fromUtf8LossyFrom [] 0 b :=
      decodeStart_append fun p n hp => ih hp n
    cases pending with
    | nil => exact hstart
    | cons r rs =>
      have hlater : Continues rs := fun x hx => h x (List.mem_cons_of_mem r hx)
      simp only [List.cons_append, fromUtf8LossyFrom]
      split_ifs with hhas hlast
      · rw [ih .nil, List.cons_append]
      · exact ih hlater _
      · rw [hstart, List.cons_append]

theorem fromUtf8Lossy_append (a b : Bytes) :
    fromUtf8Lossy (a ++ 10 :: b) = fromUtf8Lossy a ++ '\n' :: fromUtf8Lossy b :=
  fromUtf8LossyFrom_append .nil 0 a b

end Detour.Rust
