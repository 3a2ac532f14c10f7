import Detour.Helper.Serve

/-! `truncate_if_needed`: what a UDP client gets of a response that is longer than it accepts. -/

namespace Detour.Helper

open Detour.Core Detour.Rust

/-! ### What is assumed -/

def codeNumber : ResponseCode → UInt16
  | .noError => 0
  | .formErr => 1
  | .servFail => 2
  | .nxDomain => 3
  | .other code => code

def numberedCode (n : UInt16) : ResponseCode :=
  if n = 0 then .noError
  else if n = 1 then .formErr
  else if n = 2 then .servFail
  else if n = 3 then .nxDomain
  else .other n

def QuestionsOnly (m : Message) : Prop :=
  m.answers = [] ∧ m.nameServers = [] ∧ m.additionals = [] ∧ m.edns = none

instance (m : Message) : Decidable (QuestionsOnly m) := inferInstanceAs (Decidable (_ ∧ _))

/-- How a message of a header and questions stands on the wire.  The header has room for four bits
of the response code, and is as long in every message. -/
structure HeaderOnWire (codec : Codec) : Prop where
  read : ∀ m b, codec.toVec m = .ok b → QuestionsOnly m → ∃ m', codec.fromBytes b = .ok m' ∧
    m'.id = m.id ∧ m'.opCode = m.opCode ∧ m'.truncated = m.truncated ∧
    m'.responseCode = numberedCode (codeNumber m.responseCode &&& 15)
  size : ∀ m m' b, QuestionsOnly m → QuestionsOnly m' → m.queries = m'.queries →
    codec.toVec m = .ok b → ∃ b', codec.toVec m' = .ok b' ∧ b'.length = b.length
  /-- A code is read as what its number stands for. -/
  code : ∀ b m, codec.fromBytes b = .ok m →
    numberedCode (codeNumber m.responseCode) = m.responseCode

variable {codec : Codec} {query response : Bytes} {msg : Message} {limit : Nat}

theorem codeNumber_numberedCode (n : UInt16) : codeNumber (numberedCode n) = n := by
  unfold numberedCode
  split_ifs with h0 h1 h2 h3
  · exact h0.symm
  · exact h1.symm
  · exact h2.symm
  · exact h3.symm
  · rfl

theorem toNat_and_15 (n : UInt16) : (n &&& 15).toNat = n.toNat % 16 := by
  rw [UInt16.toNat_and]
  exact Nat.and_two_pow_sub_one_eq_mod n.toNat 4

theorem and_15_eq_iff (n : UInt16) : n &&& 15 = n ↔ n < 16 := by
  rw [← UInt16.toNat_inj, toNat_and_15, UInt16.lt_iff_toNat_lt]
  exact Nat.mod_eq_iff_lt (by decide)

/-! ### The limit -/

def questionsMessage (queries : List Query) : Message := { Message.new with queries := queries }

variable (codec) in
def QuestionsFit (queries : List Query) (limit : Nat) : Prop :=
  ∃ b, codec.toVec (questionsMessage queries) = .ok b ∧ b.length ≤ limit

variable (codec query response msg) in
/-- What a client is sent for a response is no longer than it accepts; where that is something
else, it is a truncated message with the header of the response. -/
def Respects : Prop :=
  (truncateIfNeeded codec response query).length ≤ advertised codec query ∧
    (truncateIfNeeded codec response query ≠ response → ∃ m,
      codec.fromBytes (truncateIfNeeded codec response query) = .ok m ∧ m.truncated = true ∧
        m.id = msg.id ∧ m.opCode = msg.opCode ∧ m.responseCode = msg.responseCode)

theorem questionsOnly_truncatedMessage (msg : Message) : QuestionsOnly (truncatedMessage msg) :=
  ⟨rfl, rfl, rfl, rfl⟩

theorem questionsFit_iff (hw : HeaderOnWire codec) : QuestionsFit codec msg.queries limit ↔
    ∃ b, codec.toVec (truncatedMessage msg) = .ok b ∧ b.length ≤ limit := by
  constructor
  · rintro ⟨b, hb, hle⟩
    obtain ⟨b', hb', hlen⟩ := hw.size (questionsMessage msg.queries) (truncatedMessage msg) b
      ⟨rfl, rfl, rfl, rfl⟩ (questionsOnly_truncatedMessage msg) rfl hb
    exact ⟨b', hb', hlen.trans_le hle⟩
  · rintro ⟨b, hb, hle⟩
    obtain ⟨b', hb', hlen⟩ := hw.size _ (questionsMessage msg.queries) b
      (questionsOnly_truncatedMessage msg) ⟨rfl, rfl, rfl, rfl⟩ rfl hb
    exact ⟨b', hb', hlen.trans_le hle⟩

theorem truncateIfNeeded_long (hread : codec.fromBytes response = .ok msg)
    (hlong : ¬response.length ≤ advertised codec query) :
    truncateIfNeeded codec response query =
      match codec.toVec (truncatedMessage msg) with
      | .ok bytes => bytes
      | .error _ => response := by
  rewrite [truncateIfNeeded, if_neg hlong, hread]
  rfl

theorem read_truncated (hw : HeaderOnWire codec) (hread : codec.fromBytes response = .ok msg)
    {b : Bytes} (hb : codec.toVec (truncatedMessage msg) = .ok b) :
    (∃ m, codec.fromBytes b = .ok m ∧ m.truncated = true ∧ m.id = msg.id ∧
      m.opCode = msg.opCode ∧ m.responseCode = msg.responseCode) ↔
      codeNumber msg.responseCode < 16 := by
  obtain ⟨m, hm, hid, hop, htc, hcode⟩ := hw.read _ b hb (questionsOnly_truncatedMessage msg)
  rw [← and_15_eq_iff]
  constructor
  · rintro ⟨m', hm', -, -, -, hsame⟩
    obtain rfl := Except.ok.inj (hm.symm.trans hm')
    rw [hsame] at hcode
    have hnumber := congrArg codeNumber hcode
    rw [codeNumber_numberedCode] at hnumber
    exact hnumber.symm
  · intro hlow
    refine ⟨m, hm, htc, hid, hop, ?_⟩
    rw [hcode]
    change numberedCode (codeNumber msg.responseCode &&& 15) = _
    rw [hlow, hw.code response msg hread]

/-- The limit is kept, and the header too, where the response needs no truncation, or its questions
fit and its response code has four bits. -/
theorem truncateIfNeeded_respects_iff (hw : HeaderOnWire codec)
    (hread : codec.fromBytes response = .ok msg) : Respects codec query response msg ↔
      response.length ≤ advertised codec query ∨
        (QuestionsFit codec msg.queries (advertised codec query) ∧
          codeNumber msg.responseCode < 16) := by
  unfold Respects
  by_cases hlong : response.length ≤ advertised codec query
  · have hsame : truncateIfNeeded codec response query = response := if_pos hlong
    rw [hsame]
    exact iff_of_true ⟨hlong, fun h => absurd rfl h⟩ (.inl hlong)
  · rw [or_iff_right hlong, questionsFit_iff hw, truncateIfNeeded_long hread hlong]
    cases hb : codec.toVec (truncatedMessage msg) with
    | error e =>
      -- the response is sent as it is
      apply iff_of_false
      · exact fun h => hlong h.1
      · rintro ⟨⟨b, hb', -⟩, -⟩
        cases hb'
    | ok b =>
      dsimp only
      rw [read_truncated hw hread hb]
      constructor
      · rintro ⟨hle, hcode⟩
        refine ⟨⟨b, rfl, hle⟩, hcode ?_⟩
        rintro rfl
        exact hlong hle
      · rintro ⟨⟨b', hb', hle⟩, hcode⟩
        obtain rfl := Except.ok.inj hb'
        exact ⟨hle, fun _ => hcode⟩

/-! ### Questions for the root on the wire -/

def rootName : Name := ⟨[], by simp⟩

def u16Bytes (n : UInt16) : Bytes := [(n >>> 8).toUInt8, n.toUInt8]

def u16OfBytes (high low : UInt8) : UInt16 := high.toUInt16 <<< 8 ||| low.toUInt16

def bit (b : Bool) (mask : UInt8) : UInt8 := if b then mask else 0

def opCodeNumber : OpCode → UInt8
  | .query => 0
  | .status => 2
  | .notify => 4
  | .update => 5

def flagsHigh (type : MessageType) (op : OpCode) (aa tc rd : Bool) : UInt8 :=
  bit (type = .response) 128 ||| opCodeNumber op <<< 3 ||| bit aa 4 ||| bit tc 2 ||| bit rd 1

def flagsLow (ra ad cd : Bool) (code : UInt8) : UInt8 :=
  bit ra 128 ||| bit ad 32 ||| bit cd 16 ||| code

def rootQuestion (q : Query) : Bytes := 0 :: (u16Bytes q.queryType ++ u16Bytes q.queryClass)

def encodeRoot (m : Message) : Bytes :=
  u16Bytes m.id ++ ([flagsHigh m.messageType m.opCode m.authoritative m.truncated
      m.recursionDesired,
    flagsLow m.recursionAvailable m.authenticData m.checkingDisabled
      (codeNumber m.responseCode &&& 15).toUInt8] ++
    (u16Bytes m.queries.length.toUInt16 ++ (List.replicate 6 0 ++
      m.queries.flatMap rootQuestion)))

def readOpCode (high : UInt8) : Option OpCode :=
  match high >>> 3 &&& 15 with
  | 0 => some .query
  | 2 => some .status
  | 4 => some .notify
  | 5 => some .update
  | _ => none

def readQuestions : Nat → Bytes → Option (List Query)
  | 0, [] => some []
  | n + 1, 0 :: a :: b :: c :: d :: rest =>
    (readQuestions n rest).map fun qs => ⟨rootName, u16OfBytes a b, u16OfBytes c d⟩ :: qs
  | _, _ => none

def readHeader (id : UInt16) (high low : UInt8) (op : OpCode) (queries : List Query) : Message where
  id := id
  messageType := if high &&& 128 = 0 then .query else .response
  opCode := op
  authoritative := high &&& 4 ≠ 0
  truncated := high &&& 2 ≠ 0
  recursionDesired := high &&& 1 ≠ 0
  recursionAvailable := low &&& 128 ≠ 0
  authenticData := low &&& 32 ≠ 0
  checkingDisabled := low &&& 16 ≠ 0
  responseCode := numberedCode (low &&& 15).toUInt16
  queries := queries
  answers := []
  nameServers := []
  additionals := []
  edns := none

def rootCodec : Codec where
  toVec m :=
    if QuestionsOnly m ∧ (∀ q ∈ m.queries, q.name = rootName) ∧ 12 + 5 * m.queries.length ≤ 65535
    then .ok (encodeRoot m)
    else .error "not a message of questions for the root"
  fromBytes
    | a :: b :: high :: low :: c :: d :: rest =>
      if rest.take 6 = List.replicate 6 0 then
        match readOpCode high, readQuestions (u16OfBytes c d).toNat (rest.drop 6) with
        | some op, some queries => .ok (readHeader (u16OfBytes a b) high low op queries)
        | _, _ => .error "not a message of questions for the root"
      else .error "not a message of questions for the root"
    | _ => .error "unexpected end of input"

theorem toNat_u16OfBytes (high low : UInt8) :
    (u16OfBytes high low).toNat = high.toNat * 256 + low.toNat := by
  have hhigh : (high.toUInt16 <<< 8).toNat = high.toNat <<< 8 := by
    have h := high.toNat_lt
    simp [UInt16.toNat_shiftLeft, Nat.shiftLeft_eq]
    omega
  rw [u16OfBytes, UInt16.toNat_or, hhigh, UInt8.toNat_toUInt16,
    ← Nat.shiftLeft_add_eq_or_of_lt low.toNat_lt, Nat.shiftLeft_eq]

theorem u16OfBytes_u16Bytes (n : UInt16) : u16OfBytes (n >>> 8).toUInt8 n.toUInt8 = n := by
  rw [← UInt16.toNat_inj, toNat_u16OfBytes]
  have h := n.toNat_lt
  simp [UInt16.toNat_shiftRight, Nat.shiftRight_eq_div_pow]
  omega

theorem read_flagsHigh (type : MessageType) (op : OpCode) (aa tc rd : Bool) :
    readOpCode (flagsHigh type op aa tc rd) = some op ∧
      (if flagsHigh type op aa tc rd &&& 128 = 0 then .query else .response) = type ∧
      decide (flagsHigh type op aa tc rd &&& 4 ≠ 0) = aa ∧
      decide (flagsHigh type op aa tc rd &&& 2 ≠ 0) = tc ∧
      decide (flagsHigh type op aa tc rd &&& 1 ≠ 0) = rd := by
  cases type <;> cases op <;> cases aa <;> cases tc <;> cases rd <;> decide

theorem read_flagsLow (ra ad cd : Bool) (n : UInt16) :
    decide (flagsLow ra ad cd (n &&& 15).toUInt8 &&& 128 ≠ 0) = ra ∧
      decide (flagsLow ra ad cd (n &&& 15).toUInt8 &&& 32 ≠ 0) = ad ∧
      decide (flagsLow ra ad cd (n &&& 15).toUInt8 &&& 16 ≠ 0) = cd ∧
      (flagsLow ra ad cd (n &&& 15).toUInt8 &&& 15).toUInt16 = n &&& 15 := by
  have hlow : ∃ k : Fin 16, n &&& 15 = UInt16.ofNat k := by
    refine ⟨⟨(n &&& 15).toNat, ?_⟩, UInt16.ofNat_toNat.symm⟩
    rw [toNat_and_15]
    exact Nat.mod_lt _ (by decide)
  obtain ⟨k, hk⟩ := hlow
  rw [hk]
  clear hk
  revert k
  cases ra <;> cases ad <;> cases cd <;> decide

theorem readQuestions_rootQuestion (qs : List Query) (h : ∀ q ∈ qs, q.name = rootName) :
    readQuestions qs.length (qs.flatMap rootQuestion) = some qs := by
  induction qs with
  | nil => rfl
  | cons q qs ih =>
    obtain ⟨name, type, dnsClass⟩ := q
    obtain rfl : name = rootName := h _ List.mem_cons_self
    have htail := ih fun q hq => h q (List.mem_cons_of_mem _ hq)
    simp only [List.length_cons, List.flatMap_cons, rootQuestion, u16Bytes, List.cons_append,
      List.nil_append, readQuestions, htail, Option.map_some, u16OfBytes_u16Bytes]

theorem rootCodec_read {m : Message} {b : Bytes} (h : rootCodec.toVec m = .ok b) :
    rootCodec.fromBytes b = .ok { m with
      responseCode := numberedCode (codeNumber m.responseCode &&& 15) } := by
  obtain ⟨id, type, op, aa, tc, rd, ra, ad, cd, code, queries, answers, ns, add, edns⟩ := m
  unfold rootCodec at h
  dsimp only at h
  split at h
  next hm =>
    obtain ⟨⟨rfl, rfl, rfl, rfl⟩, hroot, hlen⟩ := hm
    obtain rfl := Except.ok.inj h
    obtain ⟨hop, htype, haa, htc, hrd⟩ := read_flagsHigh type op aa tc rd
    obtain ⟨hra, had, hcd, hcode⟩ := read_flagsLow ra ad cd (codeNumber code)
    have hcount : queries.length.toUInt16.toNat = queries.length :=
      Nat.mod_eq_of_lt (by omega)
    have hzeros : (List.replicate 6 0 ++ queries.flatMap rootQuestion).take 6 =
        List.replicate 6 0 := List.take_left' rfl
    have hquestions : (List.replicate 6 0 ++ queries.flatMap rootQuestion).drop 6 =
        queries.flatMap rootQuestion := List.drop_left' rfl
    simp only [rootCodec, encodeRoot, u16Bytes, List.cons_append, List.nil_append, hzeros,
      hquestions, if_true, hop, u16OfBytes_u16Bytes, hcount, readHeader, htype, haa, htc, hrd, hra,
      had, hcd, hcode, readQuestions_rootQuestion queries hroot]
  next => cases h

theorem rootCodec_toVec {m : Message} (hm : QuestionsOnly m)
    (hroot : ∀ q ∈ m.queries, q.name = rootName) (hlen : 12 + 5 * m.queries.length ≤ 65535) :
    rootCodec.toVec m = .ok (encodeRoot m) := if_pos ⟨hm, hroot, hlen⟩

theorem length_encodeRoot (m : Message) : (encodeRoot m).length = 12 + 5 * m.queries.length := by
  have hquestions : (m.queries.flatMap rootQuestion).length = 5 * m.queries.length := by
    induction m.queries with
    | nil => rfl
    | cons q qs ih =>
      rw [List.flatMap_cons, List.length_append, ih]
      simp only [rootQuestion, u16Bytes, List.length_cons, List.length_append, List.length_nil]
      omega
  simp only [encodeRoot, u16Bytes, List.length_append, List.length_cons, List.length_nil,
    List.length_replicate, hquestions]
  omega

theorem rootCodec_onWire : HeaderOnWire rootCodec where
  read m b h _ := ⟨_, rootCodec_read h, rfl, rfl, rfl, rfl⟩
  size m m' b _ hm' hqueries h := by
    unfold rootCodec at h ⊢
    dsimp only at h ⊢
    split at h
    next hm =>
      obtain rfl := Except.ok.inj h
      obtain ⟨-, hroot, hlen⟩ := hm
      rw [hqueries] at hroot hlen
      refine ⟨encodeRoot m', rootCodec_toVec hm' hroot hlen, ?_⟩
      rw [length_encodeRoot, length_encodeRoot, hqueries]
    next => cases h
  code b m h := by
    unfold rootCodec at h
    dsimp only at h
    split at h
    next =>
      split at h
      next =>
        split at h
        next =>
          obtain rfl := Except.ok.inj h
          exact congrArg numberedCode (codeNumber_numberedCode _)
        next => cases h
      next => cases h
    next => cases h

def rootReply (n : Nat) : Message := { Message.new with
  id := 7
  messageType := .response
  queries := List.replicate n ⟨rootName, 1, IN⟩ }

theorem mem_rootReply {n : Nat} {q : Query} (h : q ∈ (rootReply n).queries) :
    q.name = rootName := by
  rw [List.eq_of_mem_replicate h]

theorem length_rootReply (n : Nat) : (rootReply n).queries.length = n := List.length_replicate

theorem read_rootReply {n : Nat} (h : 12 + 5 * n ≤ 65535) :
    rootCodec.fromBytes (encodeRoot (rootReply n)) = .ok (rootReply n) := by
  have hcode : numberedCode (codeNumber .noError &&& 15) = .noError := by decide
  have hwritten : rootCodec.toVec (rootReply n) = .ok (encodeRoot (rootReply n)) := by
    apply rootCodec_toVec ⟨rfl, rfl, rfl, rfl⟩
    · intro q hq
      exact mem_rootReply hq
    · rw [length_rootReply]
      exact h
  have hread := rootCodec_read hwritten
  change rootCodec.fromBytes _ = .ok { rootReply n with
    responseCode := numberedCode (codeNumber .noError &&& 15) } at hread
  rw [hcode] at hread
  exact hread

theorem rootReply_respects_iff :
    Respects rootCodec [] (encodeRoot (rootReply 1)) (rootReply 1) ↔
      (encodeRoot (rootReply 1)).length ≤ advertised rootCodec [] ∨
        (QuestionsFit rootCodec (rootReply 1).queries (advertised rootCodec []) ∧
          codeNumber (rootReply 1).responseCode < 16) :=
  truncateIfNeeded_respects_iff rootCodec_onWire (read_rootReply (by decide))

/-- The questions of this response are longer than the 512 bytes that the client accepts. -/
theorem many_questions_too_long : ¬∀ (codec : Codec) (query response : Bytes) (msg : Message),
    HeaderOnWire codec → codec.fromBytes response = .ok msg →
    Respects codec query response msg := by
  intro hall
  have hread : rootCodec.fromBytes (encodeRoot (rootReply 101)) = .ok (rootReply 101) :=
    read_rootReply (by decide)
  have hlimit : advertised rootCodec [] = 512 := rfl
  have hlong : ¬(encodeRoot (rootReply 101)).length ≤ advertised rootCodec [] := by
    rw [length_encodeRoot, length_rootReply, hlimit]
    decide
  obtain ⟨hle, -⟩ := hall rootCodec [] _ _ rootCodec_onWire hread
  have hwritten : rootCodec.toVec (truncatedMessage (rootReply 101)) =
      .ok (encodeRoot (truncatedMessage (rootReply 101))) := by
    apply rootCodec_toVec (questionsOnly_truncatedMessage _)
    · intro q hq
      exact mem_rootReply (n := 101) hq
    · change 12 + 5 * (rootReply 101).queries.length ≤ 65535
      rw [length_rootReply]
      decide
  have hlength : (encodeRoot (truncatedMessage (rootReply 101))).length = 517 := by
    rw [length_encodeRoot]
    exact congrArg (12 + 5 * ·) (length_rootReply 101)
  rw [truncateIfNeeded_long hread hlong, hwritten, hlimit] at hle
  dsimp only at hle
  rw [hlength] at hle
  exact absurd hle (by decide)

end Detour.Helper
