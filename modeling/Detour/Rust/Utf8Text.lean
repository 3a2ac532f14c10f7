import Detour.Rust.Bytes

/-! UTF-8 that is not read lossily: what of a file is a text. -/

namespace Detour.Rust

def utf8Bytes (s : List Char) : Bytes := s.flatMap String.utf8EncodeChar

/-- `String::from_utf8`, of whose errors nothing is kept. -/
def fromUtf8 (bs : Bytes) : Option (List Char) :=
  (String.fromUTF8? bs.toByteArray).map String.toList

def IsUtf8 (bs : Bytes) : Prop := ∃ s, bs = utf8Bytes s

variable {bs a b : Bytes} {s t : List Char} {c : Char} {x : UInt8}

theorem toByteArray_injective (h : a.toByteArray = b.toByteArray) : a = b := by
  have hdata := congrArg ByteArray.data h
  rw [List.data_toByteArray, List.data_toByteArray] at hdata
  exact List.toArray_inj hdata

theorem fromUtf8_eq_some_iff : fromUtf8 bs = some s ↔ bs = utf8Bytes s := by
  rw [fromUtf8, Option.map_eq_some_iff, String.fromUTF8?]
  constructor
  · rintro ⟨text, htext, rfl⟩
    split at htext
    · next hvalid =>
      have hbytes : text.toByteArray = bs.toByteArray := by rw [← Option.some.inj htext]; rfl
      apply toByteArray_injective
      rw [← hbytes]
      exact String.utf8Encode_toList.symm
    · cases htext
  · rintro rfl
    refine ⟨String.ofList s, ?_, String.toList_ofList⟩
    exact dif_pos ⟨s, rfl⟩

theorem fromUtf8_utf8Bytes : fromUtf8 (utf8Bytes s) = some s := fromUtf8_eq_some_iff.mpr rfl

theorem fromUtf8_eq_none_iff : fromUtf8 bs = none ↔ ¬IsUtf8 bs := by
  rw [← Option.not_isSome_iff_eq_none, Option.isSome_iff_exists]
  exact not_congr (exists_congr fun _ => fromUtf8_eq_some_iff)

theorem utf8Bytes_append : utf8Bytes (s ++ t) = utf8Bytes s ++ utf8Bytes t := List.flatMap_append

theorem ascii_utf8 (h : ∀ c ∈ s, c.toNat < 128) : utf8Bytes s = s.map fun c => c.toNat.toUInt8 := by
  induction s with
  | nil => rfl
  | cons c s ih =>
    obtain ⟨hc, hs⟩ := List.forall_mem_cons.mp h
    have hsize : c.utf8Size = 1 := Char.utf8Size_eq_one_iff.mpr (by
      rw [UInt32.le_iff_toNat_le]
      exact Nat.le_of_lt_succ hc)
    rw [List.map_cons, ← ih hs, utf8Bytes, List.flatMap_cons,
      String.utf8EncodeChar_eq_singleton hsize]
    rfl

theorem ascii_first {pre post : Bytes} (h : String.utf8EncodeChar c = pre ++ x :: post)
    (hx : x < 128) : pre = [] := by
  have hlen : pre.length < (String.utf8EncodeChar c).length := by
    rw [h, List.length_append, List.length_cons]
    omega
  have hget : (String.utf8EncodeChar c)[pre.length] = x := by
    simp only [h, List.getElem_append_right (Nat.le_refl _), Nat.sub_self, List.getElem_cons_zero]
  have hfirst : (String.utf8EncodeChar c)[pre.length].IsUTF8FirstByte := by
    rw [hget]
    left
    have hbit : x.toBitVec < 128#8 := hx
    apply UInt8.toBitVec_inj.mp
    change x.toBitVec &&& 128#8 = 0#8
    revert hbit
    generalize x.toBitVec = v
    revert v
    decide
  exact List.eq_nil_of_length_eq_zero (UInt8.isUTF8FirstByte_getElem_utf8EncodeChar.mp hfirst)

theorem isUtf8_append (ha : IsUtf8 a) (hb : IsUtf8 b) : IsUtf8 (a ++ b) := by
  obtain ⟨s, rfl⟩ := ha
  obtain ⟨t, rfl⟩ := hb
  exact ⟨s ++ t, utf8Bytes_append.symm⟩

theorem exists_ascii (hx : x < 128) : ∃ c : Char, c.toNat < 128 ∧ utf8Bytes [c] = [x] := by
  have hlt : x.toNat < 128 := hx
  have hvalid : x.toNat.isValidChar := .inl (by omega)
  have hnat : (Char.ofNat x.toNat).toNat = x.toNat := by
    rw [Char.ofNat, dif_pos hvalid]
    rfl
  have hchar : ∀ c ∈ [Char.ofNat x.toNat], c.toNat < 128 := by
    rw [List.forall_mem_singleton, hnat]
    exact hlt
  refine ⟨Char.ofNat x.toNat, hchar _ List.mem_cons_self, ?_⟩
  rw [ascii_utf8 hchar, List.map_singleton, hnat, Nat.toUInt8, UInt8.ofNat_toNat]

theorem isUtf8_iff : IsUtf8 bs ↔ bs.toByteArray.IsValidUTF8 := by
  constructor
  · rintro ⟨s, rfl⟩
    exact ⟨s, rfl⟩
  · rintro ⟨s, hs⟩
    exact ⟨s, toByteArray_injective hs⟩

theorem isUtf8_text_append_iff : IsUtf8 (utf8Bytes s ++ b) ↔ IsUtf8 b := by
  induction s with
  | nil => rfl
  | cons c s ih =>
    have happ : (utf8Bytes (c :: s) ++ b).toByteArray =
        [c].utf8Encode ++ (utf8Bytes s ++ b).toByteArray := by
      rw [utf8Bytes, List.flatMap_cons, List.append_assoc, List.toByteArray_append,
        List.utf8Encode_singleton]
      rfl
    rw [isUtf8_iff, happ, ByteArray.isValidUTF8_utf8Encode_singleton_append_iff, ← isUtf8_iff, ih]

theorem isUtf8_cons_iff (hx : x < 128) : IsUtf8 (x :: b) ↔ IsUtf8 b := by
  obtain ⟨c, -, hc⟩ := exists_ascii hx
  rw [← List.singleton_append, ← hc, isUtf8_text_append_iff]

theorem isUtf8_append_cons_iff (hx : x < 128) : IsUtf8 (a ++ x :: b) ↔ IsUtf8 a ∧ IsUtf8 b := by
  constructor
  · rintro ⟨s, hs⟩
    induction s generalizing a with
    | nil => cases a <;> cases hs
    | cons c s ih =>
      rw [utf8Bytes, List.flatMap_cons] at hs
      rcases List.append_eq_append_iff.mp hs with ⟨rest, hc, hrest⟩ | ⟨rest, rfl, hrest⟩
      · cases rest with
        | nil =>
          rw [List.append_nil] at hc
          refine ⟨⟨[c], ?_⟩, (ih (a := []) hrest).2⟩
          rw [utf8Bytes, List.flatMap_cons, List.flatMap_nil, List.append_nil, hc]
        | cons y rest =>
          -- the byte lies in the character, so it is the first of it
          obtain ⟨rfl, -⟩ := List.cons.inj hrest
          obtain rfl := ascii_first hc hx
          exact ⟨⟨[], rfl⟩, (isUtf8_cons_iff hx).mp ⟨c :: s, hs⟩⟩
      · obtain ⟨⟨t, rfl⟩, hb⟩ := ih hrest.symm
        exact ⟨⟨c :: t, by rw [utf8Bytes, utf8Bytes, List.flatMap_cons]⟩, hb⟩
  · rintro ⟨ha, hb⟩
    exact isUtf8_append ha ((isUtf8_cons_iff hx).mpr hb)

theorem fromUtf8_between (hc : c.toNat < 128) :
    fromUtf8 (utf8Bytes s ++ (b ++ utf8Bytes (c :: t))) =
      (fromUtf8 b).map fun name => s ++ (name ++ c :: t) := by
  cases hb : fromUtf8 b with
  | some name =>
    obtain rfl := fromUtf8_eq_some_iff.mp hb
    rw [← utf8Bytes_append, ← utf8Bytes_append, fromUtf8_utf8Bytes, Option.map_some]
  | none =>
    rw [Option.map_none, fromUtf8_eq_none_iff, isUtf8_text_append_iff]
    have hbyte : utf8Bytes (c :: t) = c.toNat.toUInt8 :: utf8Bytes t := by
      rw [← List.singleton_append, utf8Bytes_append, ascii_utf8 (by simpa using hc)]
      rfl
    have hascii : c.toNat.toUInt8 < 128 := by
      rw [UInt8.lt_iff_toNat_lt, Nat.toUInt8, UInt8.toNat_ofNat']
      exact Nat.lt_of_le_of_lt (Nat.mod_le _ _) hc
    rw [hbyte, isUtf8_append_cons_iff hascii]
    exact fun h => fromUtf8_eq_none_iff.mp hb h.1

end Detour.Rust
