import Detour.Lib.TlsRecord
import Detour.Rust.Slice
import Mathlib.Tactic.Common

/-! `fragment_client_hello`: a ClientHello cut in two records inside the host name it asks for. -/

namespace Detour.Dpi

open Detour.Rust Tls

def TLS_HEADER : Nat := 5

def CONTENT_HANDSHAKE : UInt8 := 0x16

def HANDSHAKE_CLIENT_HELLO : UInt8 := 0x01

def EXT_SNI : Nat := 0x0000

/-! ### The code -/

def u16be (b : List UInt8) (i : Nat) : Option Nat := do
  let hi ← b[i]?
  let lo ← b[i + 1]?
  return (hi.toNat <<< 8) ||| lo.toNat

/-- The middle of the host name in a `server_name` extension whose data starts at `start`. -/
def sniMiddle (p : List UInt8) (start : Nat) : Option Nat := do
  -- the two bytes of the list length are skipped
  let nameType ← p[start + 2]?
  if nameType ≠ 0 then none
  else do
    let nameLen ← u16be p (start + 3)
    let nameStart := start + 5
    if nameLen < 2 ∨ nameStart + nameLen > p.length then none
    else return nameStart + nameLen / 2

def walkExtensions (p : List UInt8) (i : Nat) : Option Nat :=
  if i + 4 ≤ p.length then do
    let etype ← u16be p i
    let elen ← u16be p (i + 2)
    let edataStart := i + 4
    if etype = EXT_SNI then sniMiddle p edataStart else walkExtensions p (edataStart + elen)
  else none
termination_by p.length - i
decreasing_by omega

def sniSplitOffset (p : List UInt8) : Option Nat := do
  let type ← p[0]?
  if type ≠ HANDSHAKE_CLIENT_HELLO then none
  else do
    -- 1 type + 3 length + 2 version + 32 random
    let i := 1 + 3 + 2 + 32
    let sidLen ← p[i]?
    let i := i + (1 + sidLen.toNat)
    let cipherLen ← u16be p i
    let i := i + (2 + cipherLen)
    let compLen ← p[i]?
    let i := i + (1 + compLen.toNat)
    let _ ← u16be p i
    walkExtensions p (i + 2)

def cutOffset (payload : List UInt8) : Option Nat :=
  match (sniSplitOffset payload).filter (fun c => 0 < c && c < payload.length) with
  | some c => some c
  -- No SNI found: splitting near the front is harmless.
  | none => if payload.length < 2 then none else some (max (payload.length / 2) 1)

def framePart (version : UInt8 × UInt8) (part : List UInt8) : List UInt8 :=
  CONTENT_HANDSHAKE :: version.1 :: version.2 :: (be16 part.length ++ part)

def reframe (data : List UInt8) : Checked (List UInt8) := do
  let version := (← index data 1, ← index data 2)
  let payload ← sliceFrom data TLS_HEADER
  match cutOffset payload with
  | none => return data
  | some cut => do
    let first ← sliceTo payload cut
    let second ← sliceFrom payload cut
    return framePart version first ++ framePart version second

def fragmentClientHello (data : List UInt8) : Checked (List UInt8) :=
  if data.length ≤ TLS_HEADER then .ok data
  else do
    let contentType ← index data 0
    if contentType ≠ CONTENT_HANDSHAKE then return data
    else match u16be data 3 with
      | none => return data
      | some recLen =>
        -- Only reframe when the whole record is present and `data` is exactly it.
        if TLS_HEADER + recLen ≠ data.length then return data else reframe data

/-! ### Reading numbers -/

theorem shift_or (hi lo : UInt8) : (hi.toNat <<< 8) ||| lo.toNat = ofBe16 hi lo := by
  rw [← Nat.shiftLeft_add_eq_or_of_lt lo.toNat_lt, Nat.shiftLeft_eq]
  rfl

/-! ### The cut -/

theorem cutOffset_inside {payload : List UInt8} {cut : Nat} (h : cutOffset payload = some cut) :
    0 < cut ∧ cut < payload.length := by
  unfold cutOffset at h
  split at h
  next c hc =>
    obtain rfl := Option.some.inj h
    have := (Option.filter_eq_some_iff.mp hc).2
    simpa using this
  next =>
    split at h
    next => cases h
    next hlen =>
      obtain rfl := Option.some.inj h
      omega

/-! ### The records -/

theorem framePart_take (r : Record) (hr : r.contentType = CONTENT_HANDSHAKE) (cut : Nat) :
    framePart r.version (r.payload.take cut) = (r.take cut).encode := by
  rw [framePart, Record.encode, ← hr]
  rfl

theorem framePart_drop (r : Record) (hr : r.contentType = CONTENT_HANDSHAKE) (cut : Nat) :
    framePart r.version (r.payload.drop cut) = (r.drop cut).encode := by
  rw [framePart, Record.encode, ← hr]
  rfl

theorem reframe_encode (r : Record) (hr : r.contentType = CONTENT_HANDSHAKE) :
    reframe r.encode = .ok (match cutOffset r.payload with
      | none => r.encode
      | some cut => (r.take cut).encode ++ (r.drop cut).encode) := by
  have hpayload : sliceFrom r.encode TLS_HEADER = .ok r.payload :=
    sliceFrom_of_le (by simp [TLS_HEADER])
  have hversion : index r.encode 1 = .ok r.version.1 ∧ index r.encode 2 = .ok r.version.2 :=
    ⟨rfl, rfl⟩
  simp only [reframe, hversion.1, hversion.2, hpayload, bind, Except.bind]
  cases hc : cutOffset r.payload with
  | none => rfl
  | some cut =>
    have hcut := Nat.le_of_lt (cutOffset_inside hc).2
    simp only [sliceTo_of_le hcut, sliceFrom_of_le hcut, framePart_take r hr, framePart_drop r hr]
    rfl

theorem fragmentClientHello_encode (r : Record) (hr : r.contentType = CONTENT_HANDSHAKE) :
    fragmentClientHello r.encode = .ok (match cutOffset r.payload with
      | none => r.encode
      | some cut => (r.take cut).encode ++ (r.drop cut).encode) := by
  have htype : index r.encode 0 = .ok r.contentType := rfl
  have hlen : u16be r.encode 3 = some r.payload.length := by
    simp [u16be, Record.encode, be16, shift_or, ofBe16_be16 r.fits]
  unfold fragmentClientHello
  split
  next hshort =>
    have hpayload : r.payload = [] := by
      rw [Record.length_encode, TLS_HEADER] at hshort
      exact List.eq_nil_of_length_eq_zero (by omega)
    rw [hpayload]
    rfl
  next =>
    have hwhole : TLS_HEADER + r.payload.length = r.encode.length := r.length_encode.symm
    simp only [htype, hlen, hr, hwhole, bind, Except.bind, ne_eq, not_true_eq_false, if_false]
    exact reframe_encode r hr

theorem fragmentClientHello_other {d : List UInt8}
    (h : ∀ r : Record, r.contentType = CONTENT_HANDSHAKE → r.encode ≠ d) :
    fragmentClientHello d = .ok d := by
  match d with
  | [] | [_] | [_, _] | [_, _, _] | [_, _, _, _] => rfl
  | t :: v :: w :: hi :: lo :: payload =>
    have htype : index (t :: v :: w :: hi :: lo :: payload) 0 = .ok t := rfl
    have hlen : u16be (t :: v :: w :: hi :: lo :: payload) 3 = some (ofBe16 hi lo) := by
      simp [u16be, shift_or]
    unfold fragmentClientHello
    simp only [htype, hlen, bind, Except.bind]
    split
    next => rfl
    next =>
      split
      next => rfl
      next ht =>
        split
        next => rfl
        next hwhole =>
          have hlen' : ofBe16 hi lo = payload.length := by
            simp only [TLS_HEADER, List.length_cons, ne_eq, not_not] at hwhole
            omega
          obtain ⟨r, hr, htype', -⟩ := Record.exists_encode hlen'
          exact absurd hr (h r (htype'.trans (not_not.mp ht)))

/-- The data is passed on as it is, or it is one handshake record and goes out as two, of the
same type and version, that carry what it carried.  Either way the stream it starts carries the
same bytes, and nothing was indexed or sliced out of range. -/
theorem fragmentClientHello_reframes (d : List UInt8) :
    ∃ out, fragmentClientHello d = .ok out ∧
      (out = d ∨ ∃ r a b : Record, d = r.encode ∧ out = a.encode ++ b.encode ∧
        a.contentType = r.contentType ∧ a.version = r.version ∧
        b.contentType = r.contentType ∧ b.version = r.version ∧
        a.payload ≠ [] ∧ b.payload ≠ [] ∧ a.payload ++ b.payload = r.payload ∧
        out.length = d.length + 5) ∧
      ∀ rest, stripHeaders (out ++ rest) = stripHeaders (d ++ rest) ∧
        handshakeStream (out ++ rest) = handshakeStream (d ++ rest) := by
  by_cases h : ∃ r : Record, r.contentType = CONTENT_HANDSHAKE ∧ r.encode = d
  · obtain ⟨r, hr, rfl⟩ := h
    refine ⟨_, fragmentClientHello_encode r hr, ?_⟩
    cases hc : cutOffset r.payload with
    | none => exact ⟨.inl rfl, fun rest => ⟨rfl, rfl⟩⟩
    | some cut =>
      obtain ⟨hpos, hlt⟩ := cutOffset_inside hc
      refine ⟨.inr ⟨r, r.take cut, r.drop cut, rfl, rfl, rfl, rfl, rfl, rfl, ?_, ?_, ?_, ?_⟩,
        fun rest => ⟨strip_split r cut rest, handshakeStream_split r cut rest⟩⟩
      · apply List.ne_nil_of_length_pos
        simp only [Record.take, List.length_take]
        omega
      · apply List.ne_nil_of_length_pos
        simp only [Record.drop, List.length_drop]
        omega
      · exact List.take_append_drop cut r.payload
      · simp only [List.length_append, Record.length_encode, Record.take, Record.drop,
          List.length_take, List.length_drop]
        omega
  · have hother : fragmentClientHello d = .ok d :=
      fragmentClientHello_other fun r hr he => h ⟨r, hr, he⟩
    exact ⟨d, hother, .inl rfl, fun rest => ⟨rfl, rfl⟩⟩

end Detour.Dpi
