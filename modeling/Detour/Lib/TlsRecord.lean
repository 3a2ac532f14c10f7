import Mathlib.Data.List.Basic
import Mathlib.Data.List.TakeDrop

/-! The TLS record layer: records as bytes, and the bytes that they carry. -/

namespace Tls

/-! ### Sixteen bits, the high byte first -/

def be16 (n : Nat) : List UInt8 := [UInt8.ofNat (n / 256), UInt8.ofNat n]

def ofBe16 (hi lo : UInt8) : Nat := hi.toNat * 256 + lo.toNat

@[simp] theorem length_be16 (n : Nat) : (be16 n).length = 2 := rfl

theorem ofBe16_be16 {n : Nat} (h : n < 65536) :
    ofBe16 (UInt8.ofNat (n / 256)) (UInt8.ofNat n) = n := by
  simp only [ofBe16, UInt8.toNat_ofNat']
  omega

theorem be16_ofBe16 (hi lo : UInt8) : be16 (ofBe16 hi lo) = [hi, lo] := by
  have hhi := hi.toNat_lt
  have hlo := lo.toNat_lt
  have h1 : (hi.toNat * 256 + lo.toNat) / 256 = hi.toNat := by omega
  have h2 : UInt8.ofNat (hi.toNat * 256 + lo.toNat) = lo := by
    apply UInt8.toNat_inj.mp
    rw [UInt8.toNat_ofNat']
    omega
  rw [be16, ofBe16, h1, h2, UInt8.ofNat_toNat]

theorem ofBe16_lt (hi lo : UInt8) : ofBe16 hi lo < 65536 := by
  have hhi := hi.toNat_lt
  have hlo := lo.toNat_lt
  unfold ofBe16
  omega

/-! ### Records -/

def handshake : UInt8 := 22

structure Record where
  contentType : UInt8
  version : UInt8 × UInt8
  payload : List UInt8
  /-- The length field has sixteen bits. -/
  fits : payload.length < 65536

namespace Record

def encode (r : Record) : List UInt8 :=
  r.contentType :: r.version.1 :: r.version.2 :: (be16 r.payload.length ++ r.payload)

@[simp] theorem length_encode (r : Record) : r.encode.length = 5 + r.payload.length := by
  simp [encode]
  omega

def take (r : Record) (n : Nat) : Record where
  contentType := r.contentType
  version := r.version
  payload := r.payload.take n
  fits := Nat.lt_of_le_of_lt (List.length_take_le' n r.payload) r.fits

def drop (r : Record) (n : Nat) : Record where
  contentType := r.contentType
  version := r.version
  payload := r.payload.drop n
  fits := Nat.lt_of_le_of_lt (by simp) r.fits

theorem exists_encode {t v w hi lo : UInt8} {payload : List UInt8}
    (h : ofBe16 hi lo = payload.length) :
    ∃ r : Record, r.encode = t :: v :: w :: hi :: lo :: payload ∧ r.contentType = t ∧
      r.version = (v, w) ∧ r.payload = payload := by
  refine ⟨⟨t, (v, w), payload, h ▸ ofBe16_lt hi lo⟩, ?_, rfl, rfl, rfl⟩
  change t :: v :: w :: (be16 payload.length ++ payload) = _
  rw [← h, be16_ofBe16]
  rfl

end Record

/-! ### A stream of records -/

/-- The records of a stream, each with its content type; the last one may be cut short. -/
def records : List UInt8 → List (UInt8 × List UInt8)
  | t :: _ :: _ :: hi :: lo :: rest =>
    (t, rest.take (ofBe16 hi lo)) :: records (rest.drop (ofBe16 hi lo))
  | _ => []
termination_by bs => bs.length
decreasing_by simp; omega

def stripHeaders (bs : List UInt8) : List UInt8 := (records bs).flatMap Prod.snd

def handshakeStream (bs : List UInt8) : List UInt8 :=
  ((records bs).filter (fun r => r.1 = handshake)).flatMap Prod.snd

theorem records_encode_append (r : Record) (bs : List UInt8) :
    records (r.encode ++ bs) = (r.contentType, r.payload) :: records bs := by
  simp only [Record.encode, be16, List.cons_append, List.nil_append, records,
    ofBe16_be16 r.fits, List.take_left, List.drop_left]

/-- Cutting a record in two changes nothing in what the stream carries. -/
theorem strip_split (r : Record) (n : Nat) (bs : List UInt8) :
    stripHeaders ((r.take n).encode ++ (r.drop n).encode ++ bs) =
      stripHeaders (r.encode ++ bs) := by
  rw [stripHeaders, stripHeaders, List.append_assoc, records_encode_append,
    records_encode_append, records_encode_append]
  simp only [List.flatMap_cons, Record.take, Record.drop, ← List.append_assoc,
    List.take_append_drop]

theorem handshakeStream_split (r : Record) (n : Nat) (bs : List UInt8) :
    handshakeStream ((r.take n).encode ++ (r.drop n).encode ++ bs) =
      handshakeStream (r.encode ++ bs) := by
  rw [handshakeStream, handshakeStream, List.append_assoc, records_encode_append,
    records_encode_append, records_encode_append]
  by_cases ht : r.contentType = handshake
  · simp only [Record.take, Record.drop, ht, decide_true, List.filter_cons_of_pos,
      List.flatMap_cons, ← List.append_assoc, List.take_append_drop]
  · simp [Record.take, Record.drop, ht]

/-! ### Where a part of the stream lies -/

/-- The `n` bytes from offset `o` of what the stream carries lie whole in one record. -/
def Whole (bs : List UInt8) (o n : Nat) : Prop :=
  ∃ before r after, records bs = before ++ r :: after ∧
    (before.flatMap Prod.snd).length ≤ o ∧
    o + n ≤ (before.flatMap Prod.snd).length + r.2.length

end Tls
