import Detour.Helper.Replies
import Detour.Helper.Serve

/-! What a client gets over UDP, and over TCP once its reply over UDP was truncated. -/

namespace Detour.Helper

open Atomic Detour.Core Detour.Rust Detour.Upstream

/-! ### The wire -/

def truncationBit : Bytes → Bool
  | _ :: _ :: flags :: _ => flags &&& 2 ≠ 0
  | _ => false

def Bare (m : Message) : Prop :=
  m.queries = [] ∧ m.answers = [] ∧ m.nameServers = [] ∧ m.additionals = [] ∧ m.edns = none

/-- How messages stand on the wire: after a header of 12 bytes, in 65535 bytes at most, and
truncated where that is too little. -/
structure OnWire (codec : Codec) : Prop where
  size : ∀ m b, codec.toVec m = .ok b → b.length ≤ 65535
  bare : ∀ m b, codec.toVec m = .ok b → Bare m →
    b.length = 12 ∧ truncationBit b = m.truncated
  truncated : ∀ m b, codec.toVec m = .ok b → m.truncated = true → truncationBit b = true
  whole : ∀ m b, codec.toVec m = .ok b → truncationBit b = false →
    ∃ m', codec.fromBytes b = .ok m' ∧ m'.answers = m.answers
  /-- What was read of a question can be asked. -/
  question : ∀ b m q, codec.fromBytes b = .ok m → q ∈ m.queries →
    ∃ b', codec.toVec (buildQuery q.name q.queryType) = .ok b'
  header : ∀ m, codec.fromBytes [] ≠ .ok m

variable {codec : Codec} {sides : Sides} {x : Proxy} {f : Forwarder} {query response : Bytes}
  {sent framed : Bytes} {s t : Exchange} {reply : Reply} {m : Message} {n : Nat}

theorem truncationBit_take (b : Bytes) :
    truncationBit (b.take MAX_UDP_RESPONSE) = truncationBit b := by
  cases b with
  | nil => rfl
  | cons _ b =>
    cases b with
    | nil => rfl
    | cons _ b => cases b <;> rfl

theorem le_advertised (hn : n ≤ MAX_UDP) (h : n ≤ maxPayload codec query) :
    n ≤ advertised codec query := by
  unfold advertised clamp
  split
  · omega
  · split <;> omega

theorem min_advertised (codec : Codec) (query : Bytes) : 512 ≤ advertised codec query := by
  unfold advertised clamp MAX_UDP
  split
  · omega
  · split <;> omega

/-! ### Truncation -/

variable (codec query) in
def Truncatable (response : Bytes) : Prop :=
  advertised codec query < response.length ∧ ∃ msg bytes,
    codec.fromBytes response = .ok msg ∧ codec.toVec (truncatedMessage msg) = .ok bytes

theorem truncateIfNeeded_short (h : response.length ≤ advertised codec query) :
    truncateIfNeeded codec response query = response := if_pos h

theorem truncateIfNeeded_cases (hw : OnWire codec) (query response : Bytes) :
    (Truncatable codec query response ∧
      truncationBit (truncateIfNeeded codec response query) = true) ∨
    (¬Truncatable codec query response ∧ truncateIfNeeded codec response query = response) := by
  by_cases hlong : response.length ≤ advertised codec query
  · exact .inr ⟨fun h => Nat.not_lt.mpr hlong h.1, truncateIfNeeded_short hlong⟩
  · unfold truncateIfNeeded Truncatable
    rw [if_neg hlong]
    cases hread : codec.fromBytes response with
    | error e => exact .inr ⟨by rintro ⟨-, msg, bytes, ⟨⟩, -⟩, rfl⟩
    | ok msg =>
      cases hwrite : codec.toVec (truncatedMessage msg) with
      | error e =>
        refine .inr ⟨?_, by simp only [hwrite]⟩
        rintro ⟨-, msg', bytes, hmsg, hbytes⟩
        cases hmsg
        rw [hwrite] at hbytes
        cases hbytes
      | ok bytes =>
        refine .inl ⟨⟨Nat.lt_of_not_le hlong, msg, bytes, rfl, hwrite⟩, ?_⟩
        simp only [hwrite]
        exact hw.truncated _ bytes hwrite rfl

/-! ### Failures -/

theorem servfail_bare (hw : OnWire codec) (id : UInt16) (code : ResponseCode) :
    (servfail codec id code).length ≤ 12 ∧ truncationBit (servfail codec id code) = false := by
  unfold servfail
  cases hb : codec.toVec (servfailMessage id code) with
  | error e => exact ⟨Nat.zero_le 12, rfl⟩
  | ok b =>
    obtain ⟨hlength, hbit⟩ := hw.bare _ b hb ⟨rfl, rfl, rfl, rfl, rfl⟩
    exact ⟨Nat.le_of_eq hlength, hbit⟩

theorem servfailFromRaw_eq (codec : Codec) (query : Bytes) :
    ∃ id, servfailFromRaw codec query = servfail codec id .formErr := by
  unfold servfailFromRaw
  split
  next => exact ⟨_, rfl⟩
  next => exact ⟨_, rfl⟩

theorem truncateIfNeeded_servfail (hw : OnWire codec) (id : UInt16) (code : ResponseCode) :
    truncateIfNeeded codec (servfail codec id code) query = servfail codec id code := by
  apply truncateIfNeeded_short
  have hlength := (servfail_bare hw id code).1
  have hmin := min_advertised codec query
  omega

/-! ### Over UDP -/

def Exchange.start : Exchange := ⟨fun _ => none, []⟩

variable (codec query) in
def Whole : Reply → Bytes → Prop
  | .message m, bytes => ∃ q, codec.fromBytes query = .ok q ∧
    codec.toVec { m with id := q.id } = .ok bytes
  | .datagram b, bytes => bytes = b ∧ b.take 2 = query.take 2

variable (codec query) in
/-- A message can be written; a datagram says itself that it is truncated, or is cut short by the
proxy, or has the id of the client and fits the buffer it is received in. -/
def Deliverable : Reply → Prop
  | .message m => ∃ q bytes, codec.fromBytes query = .ok q ∧
    codec.toVec { m with id := q.id } = .ok bytes
  | .datagram b => truncationBit b = true ∨
    Truncatable codec query (b.take MAX_UDP_RESPONSE) ∨
    (b.length ≤ MAX_UDP_RESPONSE ∧ b.take 2 = query.take 2)

theorem datagram_uncut_iff (hw : OnWire codec) (b : Bytes) :
    Whole codec query (.datagram b)
        (truncateIfNeeded codec (b.take MAX_UDP_RESPONSE) query) ∨
      truncationBit (truncateIfNeeded codec (b.take MAX_UDP_RESPONSE) query) = true ↔
    Deliverable codec query (.datagram b) := by
  cases truncateIfNeeded_cases hw query (b.take MAX_UDP_RESPONSE) with
  | inl hcut => exact iff_of_true (.inr hcut.2) (.inr (.inl hcut.1))
  | inr hsame =>
    obtain ⟨hno, heq⟩ := hsame
    rw [heq, truncationBit_take]
    have hfits : b.take MAX_UDP_RESPONSE = b ↔ b.length ≤ MAX_UDP_RESPONSE :=
      List.take_eq_self_iff b
    constructor
    · intro h
      cases h with
      | inl hwhole => exact .inr (.inr ⟨hfits.mp hwhole.1, hwhole.2⟩)
      | inr hbit => exact .inl hbit
    · intro h
      rcases h with hbit | hcut | ⟨hlength, hid⟩
      · exact .inr hbit
      · exact absurd hcut hno
      · exact .inl ⟨hfits.mpr hlength, hid⟩

theorem dohReply_written {id : UInt16} {bytes : Bytes}
    (hb : codec.toVec { m with id := id } = .ok bytes) : dohReply codec id (.ok m) = bytes := by
  simp only [dohReply, hb]

theorem dohReply_unwritten {id : UInt16} {e : ProtoError}
    (hb : codec.toVec { m with id := id } = .error e) :
    dohReply codec id (.ok m) = servfail codec id .servFail := by
  simp only [dohReply, hb]

theorem message_uncut_iff (hw : OnWire codec) {q : Message}
    (hquery : codec.fromBytes query = .ok q) (m : Message) :
    Whole codec query (.message m)
        (truncateIfNeeded codec (dohReply codec q.id (.ok m)) query) ∨
      truncationBit (truncateIfNeeded codec (dohReply codec q.id (.ok m)) query) = true ↔
    Deliverable codec query (.message m) := by
  cases hb : codec.toVec { m with id := q.id } with
  | ok bytes =>
    rw [dohReply_written hb]
    refine iff_of_true ?_ ⟨q, bytes, hquery, hb⟩
    cases truncateIfNeeded_cases hw query bytes with
    | inl hcut => exact .inr hcut.2
    | inr hsame =>
      refine .inl ⟨q, hquery, ?_⟩
      rw [hb, hsame.2]
  | error e =>
    rw [dohReply_unwritten hb, truncateIfNeeded_servfail hw, (servfail_bare hw q.id .servFail).2]
    have hnone (q' : Message) (bytes : Bytes) (hq' : codec.fromBytes query = .ok q') :
        codec.toVec { m with id := q'.id } ≠ .ok bytes := by
      rw [hquery] at hq'
      cases hq'
      rw [hb]
      nofun
    apply iff_of_false
    · rintro (⟨q', hq', hwhole⟩ | hbit)
      · exact hnone q' _ hq' hwhole
      · cases hbit
    · rintro ⟨q', bytes, hq', hwhole⟩
      exact hnone q' bytes hq' hwhole

theorem answerUdp_handled
    (hv : Prog.Visits (giving codec sides) (x.answerUdp codec f query) s (.done sent) t) :
    ∃ bytes, Handled codec sides x f query s.given bytes t.given ∧
      sent = truncateIfNeeded codec bytes query := by
  have hk : (x.answerUdp codec f query).Keeps (giving codec sides) (fun _ => True)
      (fun sent t => ∃ bytes, Handled codec sides x f query s.given bytes t.given ∧
        sent = truncateIfNeeded codec bytes query) s := by
    apply answer_keeps.bind
    intro bytes t _ h
    exact ⟨trivial, bytes, h, rfl⟩
  exact (Prog.keeps_iff.mp hk _ t hv).2 sent rfl

/-- A UDP client gets the complete reply or a truncated one exactly if the reply is deliverable. -/
theorem udp_uncut_iff (hw : OnWire codec)
    (hv : Prog.Visits (giving codec sides) (x.answerUdp codec f query) .start (.done sent) t)
    (hreply : reply ∈ t.given) :
    Whole codec query reply sent ∨ truncationBit sent = true ↔ Deliverable codec query reply := by
  obtain ⟨bytes, hhandled, rfl⟩ := answerUdp_handled hv
  generalize t.given = given at hhandled hreply
  cases hhandled with
  | malformed | empty | unresolved | unforwarded => cases hreply
  | resolved q question m hquery hhead hroute hdoh =>
    cases List.mem_singleton.mp hreply
    exact message_uncut_iff hw hquery m
  | forwarded q question b hquery hhead hroute hb =>
    cases List.mem_singleton.mp hreply
    exact datagram_uncut_iff hw b

theorem answer_visits_forwarded (sides : Sides) (b : Bytes) {server : SocketAddr}
    {question : Query}
    (hquery : codec.fromBytes query = .ok m) (hhead : m.queries.head? = some question)
    (hroute : x.policy.route question.name = .systemUpstream) (hb : sides.upstream query b) :
    ∃ t, Prog.Visits (giving codec sides) (x.answer codec ⟨[server]⟩ query) .start
      (.done (b.take MAX_UDP_RESPONSE)) t ∧ t.given = [.datagram b] := by
  unfold Proxy.answer Proxy.handle
  simp only [hquery, hhead, hroute]
  refine ⟨⟨Function.update (fun _ => none) 0 (some query), [.datagram b]⟩, ?_, rfl⟩
  refine .step (r := .ok 0) ⟨fun _ => ⟨0, rfl⟩, rfl⟩ ?_
  refine .step (r := .ok ()) ⟨fun _ => rfl, rfl⟩ ?_
  refine .step (r := .ok ()) ⟨fun _ => rfl, rfl⟩ ?_
  refine .step (r := some (.ok (b.take MAX_UDP_RESPONSE)))
    (.inl ⟨query, b, rfl, hb, rfl, rfl⟩) ?_
  exact .step (r := ()) rfl .refl

def nasName : Name := ⟨[ascii "nas", ascii "lan"], by decide⟩

def nasQuery : Message := { buildQuery nasName 16 with
  id := 7
  edns := some ⟨4096, 0, false, []⟩ }

def nasQueryBytes : Bytes :=
  [0, 7, 1, 0, 0, 1, 0, 0, 0, 0, 0, 1, 3] ++ ascii "nas" ++ [3] ++ ascii "lan" ++
    [0, 0, 16, 0, 1, 0, 0, 41, 16, 0, 0, 0, 0, 0, 0, 0]

def nasReplyBytes : Bytes :=
  [0, 7, 129, 128, 0, 1, 0, 1, 0, 0, 0, 0, 3] ++ ascii "nas" ++ [3] ++ ascii "lan" ++
    [0, 0, 16, 0, 1, 192, 12, 0, 16, 0, 1, 0, 0, 1, 44, 15, 220] ++ List.replicate 4060 0

def Sides.any : Sides := ⟨fun _ _ => True, fun _ => True, False⟩

theorem tableCodec_onWire {table : List (Message × Bytes)}
    (hread : ∀ y ∈ table, (tableCodec table).fromBytes y.2 = .ok y.1)
    (hsize : ∀ y ∈ table, y.2 ≠ [] ∧ y.2.length ≤ 65535)
    (hasked : ∀ y ∈ table, y.1.queries ≠ [])
    (htruncated : ∀ y ∈ table, y.1.truncated = true → truncationBit y.2 = true)
    (hquestion : ∀ y ∈ table, ∀ q ∈ y.1.queries,
      ((tableCodec table).toVec (buildQuery q.name q.queryType)).isOk) :
    OnWire (tableCodec table) where
  size m b h := (hsize (m, b) (mem_of_toVec h)).2
  bare m b h hm := absurd hm.1 (hasked (m, b) (mem_of_toVec h))
  truncated m b h := htruncated (m, b) (mem_of_toVec h)
  whole m b h _ := ⟨m, hread (m, b) (mem_of_toVec h), rfl⟩
  question b m q h hq := by
    have hok := hquestion (m, b) (mem_of_fromBytes h) q hq
    cases hb : (tableCodec table).toVec (buildQuery q.name q.queryType) with
    | ok b' => exact ⟨b', rfl⟩
    | error e =>
      rw [hb] at hok
      cases hok
  header m h := (hsize (m, []) (mem_of_fromBytes h)).1 rfl

def nasCodec : Codec := tableCodec [(nasQuery, nasQueryBytes),
  (buildQuery nasName 16, [0, 0, 1, 0, 0, 1, 0, 0, 0, 0, 0, 0, 3] ++ ascii "nas" ++ [3] ++
    ascii "lan" ++ [0, 0, 16, 0, 1])]

theorem nas_onWire : OnWire nasCodec :=
  tableCodec_onWire (by decide +kernel) (by decide +kernel) (by decide +kernel)
    (by decide +kernel) (by decide +kernel)

def gateway : SocketAddr := ⟨.v4 (Ipv4Addr.new 192 168 1 1), 53⟩

theorem nas_sent : truncateIfNeeded nasCodec (nasReplyBytes.take MAX_UDP_RESPONSE) nasQueryBytes =
    nasReplyBytes.take MAX_UDP_RESPONSE := by
  apply truncateIfNeeded_short
  have hadvertised : advertised nasCodec nasQueryBytes = 4096 := by decide +kernel
  rw [hadvertised]
  exact List.length_take_le 4096 nasReplyBytes

theorem nas_visits : ∃ t, Prog.Visits (giving nasCodec .any)
    (shoutedProxy.answerUdp nasCodec ⟨[gateway]⟩ nasQueryBytes) .start
    (.done (nasReplyBytes.take MAX_UDP_RESPONSE)) t ∧ t.given = [.datagram nasReplyBytes] := by
  have hquery : nasCodec.fromBytes nasQueryBytes = .ok nasQuery := by decide +kernel
  have hroute : shoutedProxy.policy.route nasName = .systemUpstream := by decide +kernel
  have hreply : Sides.any.upstream nasQueryBytes nasReplyBytes := trivial
  obtain ⟨t, hv, hgiven⟩ := answer_visits_forwarded .any nasReplyBytes (x := shoutedProxy) hquery
    rfl hroute hreply
  refine ⟨t, ?_, hgiven⟩
  rw [← nas_sent]
  exact hv.bind .refl

theorem nas_deliverable_iff : ∃ t, t.given = [.datagram nasReplyBytes] ∧
    Prog.Visits (giving nasCodec .any) (shoutedProxy.answerUdp nasCodec ⟨[gateway]⟩ nasQueryBytes)
      .start (.done (nasReplyBytes.take MAX_UDP_RESPONSE)) t ∧
    (Whole nasCodec nasQueryBytes (.datagram nasReplyBytes)
        (nasReplyBytes.take MAX_UDP_RESPONSE) ∨
      truncationBit (nasReplyBytes.take MAX_UDP_RESPONSE) = true ↔
        Deliverable nasCodec nasQueryBytes (.datagram nasReplyBytes)) := by
  obtain ⟨t, hv, hgiven⟩ := nas_visits
  refine ⟨t, hgiven, hv, ?_⟩
  exact udp_uncut_iff nas_onWire hv (by rw [hgiven]; exact List.mem_singleton_self _)

/-- The last byte of the reply is lost, and nothing says so. -/
theorem nas_cut : ∃ t, OnWire nasCodec ∧
    Prog.Visits (giving nasCodec .any) (shoutedProxy.answerUdp nasCodec ⟨[gateway]⟩ nasQueryBytes)
      .start (.done (nasReplyBytes.take MAX_UDP_RESPONSE)) t ∧
    .datagram nasReplyBytes ∈ t.given ∧
    ¬(Whole nasCodec nasQueryBytes (.datagram nasReplyBytes)
        (nasReplyBytes.take MAX_UDP_RESPONSE) ∨
      truncationBit (nasReplyBytes.take MAX_UDP_RESPONSE) = true) := by
  obtain ⟨t, hv, hgiven⟩ := nas_visits
  refine ⟨t, nas_onWire, hv, by rw [hgiven]; exact List.mem_singleton_self _, ?_⟩
  rintro (⟨hsame, -⟩ | hbit)
  · have hlength := congrArg List.length hsame
    revert hlength
    decide +kernel
  · rw [truncationBit_take] at hbit
    revert hbit
    decide +kernel

/-! ### Over TCP -/

def unframe : Bytes → Option Bytes
  | high :: low :: rest =>
    let length := high.toNat * 256 + low.toNat
    if length ≤ rest.length then some (rest.take length) else none
  | _ => none

theorem frame_eq (h : response.length ≤ 65535) : ∃ high low,
    frame response = high :: low :: response ∧
      high.toNat * 256 + low.toNat = response.length := by
  refine ⟨_, _, rfl, ?_⟩
  simp [Nat.shiftRight_eq_div_pow]
  omega

theorem unframe_frame (h : response.length ≤ 65535) :
    unframe (frame response) = some response := by
  obtain ⟨high, low, hframe, hlength⟩ := frame_eq h
  simp only [hframe, unframe, hlength]
  simp

variable {full : Bytes → Bytes} {q : Message} {records : List Record}
  {build : Client → Except ReqwestError Unit} {providers : List Provider} {capacity : Nat}
  {cache : Cache}

variable (codec full) in
/-- A resolver of the system replies in full where that fits the payload that the query advertises,
and otherwise says that its reply is truncated; a provider answers in full.  Both always answer. -/
def inFull : Sides where
  upstream query b := ((full query).length ≤ maxPayload codec query ∧ b = full query) ∨
    (maxPayload codec query < (full query).length ∧ truncationBit b = true)
  doh m := m.truncated = false
  reliable := True

variable (codec full query) in
def Reply.fullAnswers : Reply → List Record
  | .message m => m.answers
  | .datagram _ => match codec.fromBytes (full query) with
    | .ok m => m.answers
    | .error _ => []

variable (codec) in
def Delivers (records : List Record) (bytes : Bytes) : Prop :=
  truncationBit bytes = false ∧
    ∀ r ∈ records, ∃ m, codec.fromBytes bytes = .ok m ∧ r ∈ m.answers

variable (codec query) in
/-- The message can be written whole under the id of the client, or not at all and has no
answers. -/
def Writable (m : Message) : Prop :=
  ∃ q, codec.fromBytes query = .ok q ∧ match codec.toVec { m with id := q.id } with
    | .ok bytes => truncationBit bytes = false
    | .error _ => m.answers = []

variable (codec query) in
def GoesToDoh (policy : Policy) : Prop :=
  ∃ q question, codec.fromBytes query = .ok q ∧ q.queries.head? = some question ∧
    policy.route question.name = .doh

theorem delivers_servfail_iff (hw : OnWire codec) (id : UInt16) (code : ResponseCode) :
    Delivers codec records (servfail codec id code) ↔ records = [] := by
  constructor
  · intro h
    apply List.eq_nil_iff_forall_not_mem.mpr
    intro r hr
    obtain ⟨m, hm, hmem⟩ := h.2 r hr
    unfold servfail at hm
    cases hb : codec.toVec (servfailMessage id code) with
    | error e =>
      rw [hb] at hm
      exact hw.header m hm
    | ok b =>
      rw [hb] at hm
      have hbit : truncationBit b = false := (hw.bare _ b hb ⟨rfl, rfl, rfl, rfl, rfl⟩).2
      obtain ⟨m', hm', hanswers⟩ := hw.whole _ b hb hbit
      rw [hm] at hm'
      cases hm'
      rw [hanswers] at hmem
      cases hmem
  · rintro rfl
    exact ⟨(servfail_bare hw id code).2, nofun⟩

theorem delivers_message_iff (hw : OnWire codec) (hquery : codec.fromBytes query = .ok q)
    (m : Message) : Delivers codec m.answers (dohReply codec q.id (.ok m)) ↔
      Writable codec query m := by
  have hwritable : Writable codec query m ↔ match codec.toVec { m with id := q.id } with
      | .ok bytes => truncationBit bytes = false
      | .error _ => m.answers = [] := by
    constructor
    · rintro ⟨q', hq', h⟩
      rw [hquery] at hq'
      cases hq'
      exact h
    · intro h
      exact ⟨q, hquery, h⟩
  rw [hwritable]
  cases hb : codec.toVec { m with id := q.id } with
  | error e => rw [dohReply_unwritten hb, delivers_servfail_iff hw]
  | ok bytes =>
    rw [dohReply_written hb]
    constructor
    · exact fun h => h.1
    · intro hbit
      refine ⟨hbit, fun r hr => ?_⟩
      obtain ⟨m', hm', hanswers⟩ := hw.whole _ bytes hb hbit
      exact ⟨m', hm', hanswers ▸ hr⟩

theorem dohReply_length (hw : OnWire codec) (id : UInt16) (m : Message) :
    (dohReply codec id (.ok m)).length ≤ 65535 := by
  cases hb : codec.toVec { m with id := id } with
  | ok bytes =>
    rw [dohReply_written hb]
    exact hw.size _ bytes hb
  | error e =>
    rw [dohReply_unwritten hb]
    exact (servfail_bare hw id .servFail).1.trans (by decide)

/-- Where the reply of the system's resolver fits, the proxy does not truncate it. -/
theorem upstream_truncated {b : Bytes} (hfull : truncationBit (full query) = false)
    (hb : (inFull codec full).upstream query b)
    (hbit : truncationBit (truncateIfNeeded codec (b.take MAX_UDP_RESPONSE) query) = true) :
    maxPayload codec query < (full query).length := by
  cases hb with
  | inr hlong => exact hlong.1
  | inl hfits =>
    obtain ⟨hfits, rfl⟩ := hfits
    have hshort : ((full query).take MAX_UDP_RESPONSE).length ≤ advertised codec query := by
      apply le_advertised (List.length_take_le ..)
      exact (List.length_take_le' ..).trans hfits
    rw [truncateIfNeeded_short hshort, truncationBit_take, hfull] at hbit
    cases hbit

theorem answerTcp_handled
    (hv : Prog.Visits (giving codec sides) (x.answerTcp codec f query) s (.done framed) t) :
    ∃ bytes, Handled codec sides x f query s.given bytes t.given ∧ framed = frame bytes := by
  have hk : (x.answerTcp codec f query).Keeps (giving codec sides) (fun _ => True)
      (fun framed t => ∃ bytes, Handled codec sides x f query s.given bytes t.given ∧
        framed = frame bytes) s := by
    apply answer_keeps.bind
    intro bytes t _ h
    exact ⟨trivial, bytes, h, rfl⟩
  exact (Prog.keeps_iff.mp hk _ t hv).2 framed rfl

theorem answered_inFull {question : Query} {bytes : Bytes} (hw : OnWire codec)
    (hnew : DohResolver.withCapacity build providers capacity = .ok (x.resolver, cache))
    (hquery : codec.fromBytes bytes = .ok q) (hhead : q.queries.head? = some question) :
    ¬Unanswered codec (inFull codec full) x.resolver.upstreams
      (buildQuery question.name question.queryType) := by
  rintro (hreliable | hnil | ⟨e, he⟩)
  · exact hreliable trivial
  · have hproviders := (withCapacity_upstreams hnew).1
    rw [hnil] at hproviders
    subst hproviders
    cases hnew
  · obtain ⟨b, hb⟩ := hw.question bytes q question hquery (List.mem_of_head? hhead)
    rw [he] at hb
    cases hb

theorem truncated_given (hw : OnWire codec) (hfull : ∀ q, truncationBit (full q) = false)
    (hv : Prog.Visits (giving codec (inFull codec full)) (x.answerUdp codec f query) s
      (.done sent) t) (hbit : truncationBit sent = true) :
    ∃ q question, codec.fromBytes query = .ok q ∧ q.queries.head? = some question ∧
      (x.policy.route question.name = .doh ∨ x.policy.route question.name = .systemUpstream ∧
        maxPayload codec query < (full query).length) := by
  obtain ⟨bytes, hhandled, rfl⟩ := answerUdp_handled hv
  have hfailure (id : UInt16) (code : ResponseCode) :
      truncationBit (truncateIfNeeded codec (servfail codec id code) query) ≠ true := by
    rw [truncateIfNeeded_servfail hw, (servfail_bare hw id code).2]
    decide
  generalize t.given = given at hhandled
  cases hhandled with
  | malformed e hquery =>
    obtain ⟨id, hid⟩ := servfailFromRaw_eq codec query
    rw [hid] at hbit
    exact absurd hbit (hfailure _ _)
  | empty q hquery hhead => exact absurd hbit (hfailure _ _)
  | resolved q question m hquery hhead hroute hdoh =>
    exact ⟨q, question, hquery, hhead, .inl hroute⟩
  | unresolved q question e hquery hhead hroute hu =>
    exact ⟨q, question, hquery, hhead, .inl hroute⟩
  | forwarded q question b hquery hhead hroute hb =>
    exact ⟨q, question, hquery, hhead, .inr ⟨hroute, upstream_truncated (hfull query) hb hbit⟩⟩
  | unforwarded q question hquery hhead hroute hu => exact absurd hbit (hfailure _ _)

/-- After a truncated reply over UDP, TCP delivers exactly what DoH was asked for and the proxy can
write. -/
theorem tcp_delivers_iff (hw : OnWire codec)
    (hnew : DohResolver.withCapacity build providers capacity = .ok (x.resolver, cache))
    (hfull : ∀ q, truncationBit (full q) = false)
    (hudp : Prog.Visits (giving codec (inFull codec full)) (x.answerUdp codec f query) .start
      (.done sent) s) (hbit : truncationBit sent = true)
    (htcp : Prog.Visits (giving codec (inFull codec full)) (x.answerTcp codec f query) .start
      (.done framed) t) :
    (∃ given bytes, t.given = [given] ∧ unframe framed = some bytes ∧
      Delivers codec (given.fullAnswers codec query full) bytes) ↔
    GoesToDoh codec query x.policy ∧ ∀ m, .message m ∈ t.given → Writable codec query m := by
  obtain ⟨q, question, hquery, hhead, hwhere⟩ := truncated_given hw hfull hudp hbit
  obtain ⟨bytes, hhandled, rfl⟩ := answerTcp_handled htcp
  have hdoh : GoesToDoh codec query x.policy ↔ x.policy.route question.name = .doh := by
    constructor
    · rintro ⟨q', question', hquery', hhead', hroute⟩
      rw [hquery] at hquery'
      cases hquery'
      rw [hhead] at hhead'
      cases hhead'
      exact hroute
    · exact fun hroute => ⟨q, question, hquery, hhead, hroute⟩
  rw [hdoh]
  have hsame {q' : Message} {question' : Query} (hq' : codec.fromBytes query = .ok q')
      (hhead' : q'.queries.head? = some question') : q' = q ∧ question' = question := by
    rw [hquery] at hq'
    cases hq'
    rw [hhead] at hhead'
    cases hhead'
    exact ⟨rfl, rfl⟩
  generalize t.given = given at hhandled
  cases hhandled with
  | malformed e h =>
    rw [hquery] at h
    cases h
  | empty q' h h' =>
    rw [hquery] at h
    cases h
    rw [hhead] at h'
    cases h'
  | unresolved q' question' e h h' hroute hu => exact absurd hu (answered_inFull hw hnew h h')
  | unforwarded q' question' h h' hroute hu =>
    obtain ⟨rfl, rfl⟩ := hsame h h'
    rw [hroute]
    apply iff_of_false
    · rintro ⟨_, _, h, -⟩
      cases h
    · rintro ⟨h, -⟩
      cases h
  | resolved q' question' m h h' hroute hm =>
    obtain ⟨rfl, rfl⟩ := hsame h h'
    have hframe : unframe (frame (dohReply codec q'.id (.ok m))) =
        some (dohReply codec q'.id (.ok m)) := unframe_frame (dohReply_length hw _ m)
    rw [hframe]
    constructor
    · rintro ⟨_, _, hgiven, hbytes, hdelivers⟩
      cases hgiven
      cases hbytes
      refine ⟨hroute, fun m' hm' => ?_⟩
      cases List.mem_singleton.mp hm'
      exact (delivers_message_iff hw hquery m).mp hdelivers
    · rintro ⟨-, hall⟩
      exact ⟨.message m, _, rfl, rfl, (delivers_message_iff hw hquery m).mpr
        (hall m (List.mem_singleton_self _))⟩
  | forwarded q' question' b h h' hroute hb =>
    obtain ⟨rfl, rfl⟩ := hsame h h'
    rw [hroute] at hwhere
    obtain ⟨hdoh', -⟩ | ⟨-, hlong⟩ := hwhere
    obtain ⟨hshort, -⟩ | ⟨-, hb⟩ := hb
    · exact absurd hlong (Nat.not_lt.mpr hshort)
    have hlength : (b.take MAX_UDP_RESPONSE).length ≤ 65535 :=
      (List.length_take_le ..).trans (by decide)
    rw [hroute, unframe_frame hlength]
    apply iff_of_false
    · rintro ⟨_, _, hgiven, hbytes, hdelivers⟩
      cases hbytes
      have hno := hdelivers.1
      rw [truncationBit_take, hb] at hno
      cases hno
    · rintro ⟨h, -⟩
      cases h

def nasTruncatedBytes : Bytes :=
  [0, 7, 131, 128, 0, 1, 0, 0, 0, 0, 0, 0, 3] ++ ascii "nas" ++ [3] ++ ascii "lan" ++
    [0, 0, 16, 0, 1]

def nasFull (_ : Bytes) : Bytes := nasReplyBytes

theorem nas_full (query : Bytes) : truncationBit (nasFull query) = false := by
  have hbit : truncationBit nasReplyBytes = false := by decide +kernel
  exact hbit

theorem nas_truncated_visits : ∃ t : Exchange, t.given = [.datagram nasTruncatedBytes] ∧
    Prog.Visits (giving nasCodec (inFull nasCodec nasFull))
      (shoutedProxy.answerUdp nasCodec ⟨[gateway]⟩ nasQueryBytes) .start
      (.done nasTruncatedBytes) t ∧
    Prog.Visits (giving nasCodec (inFull nasCodec nasFull))
      (shoutedProxy.answerTcp nasCodec ⟨[gateway]⟩ nasQueryBytes) .start
      (.done (frame nasTruncatedBytes)) t := by
  have hquery : nasCodec.fromBytes nasQueryBytes = .ok nasQuery := by decide +kernel
  have hroute : shoutedProxy.policy.route nasName = .systemUpstream := by decide +kernel
  have hsent : truncateIfNeeded nasCodec nasTruncatedBytes nasQueryBytes = nasTruncatedBytes := by
    decide +kernel
  have hlong : maxPayload nasCodec nasQueryBytes < (nasFull nasQueryBytes).length := by
    decide +kernel
  have hreply : (inFull nasCodec nasFull).upstream nasQueryBytes nasTruncatedBytes :=
    .inr ⟨hlong, by decide +kernel⟩
  obtain ⟨t, hv, hgiven⟩ := answer_visits_forwarded (inFull nasCodec nasFull) nasTruncatedBytes
    (x := shoutedProxy) hquery rfl hroute hreply
  have htake : nasTruncatedBytes.take MAX_UDP_RESPONSE = nasTruncatedBytes := by decide +kernel
  rw [htake] at hv
  have hudp : Prog.Visits (giving nasCodec (inFull nasCodec nasFull))
      (shoutedProxy.answerUdp nasCodec ⟨[gateway]⟩ nasQueryBytes) .start
      (.done (truncateIfNeeded nasCodec nasTruncatedBytes nasQueryBytes)) t := hv.bind .refl
  rw [hsent] at hudp
  exact ⟨t, hgiven, hudp, hv.bind .refl⟩

theorem nas_retry_iff : ∃ t : Exchange, t.given = [.datagram nasTruncatedBytes] ∧
    ((∃ given bytes, t.given = [given] ∧ unframe (frame nasTruncatedBytes) = some bytes ∧
      Delivers nasCodec (given.fullAnswers nasCodec nasQueryBytes nasFull) bytes) ↔
    GoesToDoh nasCodec nasQueryBytes shoutedProxy.policy ∧
      ∀ m, .message m ∈ t.given → Writable nasCodec nasQueryBytes m) := by
  obtain ⟨t, hgiven, hudp, htcp⟩ := nas_truncated_visits
  have hnew : DohResolver.withCapacity (fun _ => .ok ()) [plainProvider] 1 =
      .ok (shoutedProxy.resolver, Cache.new 1) := rfl
  exact ⟨t, hgiven, tcp_delivers_iff nas_onWire hnew nas_full hudp (by decide +kernel) htcp⟩

/-- The retry is forwarded over UDP again, and comes back truncated again. -/
theorem nas_retry_truncated : ∃ sent framed s t, OnWire nasCodec ∧
    DohResolver.withCapacity (fun _ => .ok ()) [plainProvider] 1 =
      .ok (shoutedProxy.resolver, Cache.new 1) ∧
    (∀ q, truncationBit (nasFull q) = false) ∧
    Prog.Visits (giving nasCodec (inFull nasCodec nasFull))
      (shoutedProxy.answerUdp nasCodec ⟨[gateway]⟩ nasQueryBytes) .start (.done sent) s ∧
    truncationBit sent = true ∧
    Prog.Visits (giving nasCodec (inFull nasCodec nasFull))
      (shoutedProxy.answerTcp nasCodec ⟨[gateway]⟩ nasQueryBytes) .start (.done framed) t ∧
    ∀ given bytes, t.given = [given] → unframe framed = some bytes →
      ¬Delivers nasCodec (given.fullAnswers nasCodec nasQueryBytes nasFull) bytes := by
  obtain ⟨t, -, hudp, htcp⟩ := nas_truncated_visits
  have hframe : unframe (frame nasTruncatedBytes) = some nasTruncatedBytes :=
    unframe_frame (by decide +kernel)
  have hbit : truncationBit nasTruncatedBytes = true := by decide +kernel
  refine ⟨nasTruncatedBytes, frame nasTruncatedBytes, t, t, nas_onWire, rfl, nas_full, hudp, hbit,
    htcp, ?_⟩
  rintro given bytes - hbytes ⟨hno, -⟩
  rw [hframe] at hbytes
  cases hbytes
  rw [hbit] at hno
  cases hno

end Detour.Helper
