import Detour.Dpi.SniOffset

/-! `DpiProxy::splice`: what becomes of the bytes of one connection, however they arrive. -/

namespace Detour.Dpi

open Detour.Rust Tls

/-! ### Sockets -/

/-- What is still to be read from a socket, cut as it arrives. -/
abbrev Incoming := List (List UInt8)

/-- One read into a buffer of `cap` bytes; at the end it gives nothing. -/
def read (cap : Nat) : Incoming → List UInt8 × Incoming
  | [] => ([], [])
  | chunk :: chunks =>
    (chunk.take cap, if chunk.length ≤ cap then chunks else chunk.drop cap :: chunks)

theorem read_flatten (cap : Nat) (s : Incoming) :
    (read cap s).1 ++ (read cap s).2.flatten = s.flatten := by
  cases s with
  | nil => rfl
  | cons chunk chunks =>
    simp only [read]
    split
    next hle => rw [List.take_of_length_le hle, List.flatten_cons]
    next => rw [List.flatten_cons, List.flatten_cons, ← List.append_assoc, List.take_append_drop]

def Incoming.Live (s : Incoming) : Prop := ∀ chunk ∈ s, chunk ≠ []

theorem Incoming.Live.read {s : Incoming} (h : s.Live) (cap : Nat) : (read cap s).2.Live := by
  cases s with
  | nil => exact h
  | cons chunk chunks =>
    intro c hc
    simp only [Dpi.read] at hc
    split at hc
    next => exact h c (List.mem_cons_of_mem _ hc)
    next hlt =>
      rcases List.mem_cons.mp hc with rfl | hc
      · apply List.ne_nil_of_length_pos
        rw [List.length_drop]
        omega
      · exact h c (List.mem_cons_of_mem _ hc)

theorem Incoming.Live.read_ne_nil {s : Incoming} (h : s.Live) {cap : Nat} (hcap : 0 < cap)
    (hs : s ≠ []) : (Dpi.read cap s).1 ≠ [] := by
  cases s with
  | nil => exact absurd rfl hs
  | cons chunk chunks =>
    have hpos := List.length_pos_of_ne_nil (h chunk List.mem_cons_self)
    apply List.ne_nil_of_length_pos
    simp only [Dpi.read, List.length_take]
    omega

def copy (s : Incoming) : List UInt8 :=
  if (read 8192 s).1 = [] then [] else (read 8192 s).1 ++ copy (read 8192 s).2
termination_by s.flatten.length
decreasing_by
  next hne =>
  have hlen := congrArg List.length (read_flatten 8192 s)
  have hpos := List.length_pos_of_ne_nil hne
  rw [List.length_append] at hlen
  omega

theorem copy_eq {s : Incoming} (h : s.Live) : copy s = s.flatten := by
  induction hn : s.flatten.length using Nat.strongRecOn generalizing s with
  | ind n ih =>
    have hflat := read_flatten 8192 s
    rw [copy]
    split
    next hnil =>
      cases s with
      | nil => rfl
      | cons chunk chunks => exact absurd hnil (h.read_ne_nil (by decide) (List.cons_ne_nil _ _))
    next hne =>
      have hlen := congrArg List.length hflat
      have hpos := List.length_pos_of_ne_nil hne
      rw [List.length_append] at hlen
      rw [ih _ (by omega) (h.read 8192) rfl, hflat]

/-! ### The code -/

structure Spliced where
  upstream : List UInt8
  downstream : List UInt8
  fragmented : Nat

def splice (client server : Incoming) : Checked Spliced :=
  match read (16 * 1024) client with
  | (first, client) =>
    if first.length = 0 then .ok ⟨[], [], 0⟩
    else do
      let framed ← fragmentClientHello first
      return ⟨framed ++ copy client, copy server, if framed.length ≠ first.length then 1 else 0⟩

theorem splice_eq (client server : Incoming) : splice client server =
    if (read (16 * 1024) client).1.length = 0 then .ok ⟨[], [], 0⟩
    else do
      let framed ← fragmentClientHello (read (16 * 1024) client).1
      return ⟨framed ++ copy (read (16 * 1024) client).2, copy server,
        if framed.length ≠ (read (16 * 1024) client).1.length then 1 else 0⟩ := rfl

/-! ### Records in a stream -/

theorem encode_unique {r r' : Record} {x y : List UInt8} (h : r.encode ++ x = r'.encode ++ y) :
    r.encode = r'.encode := by
  have hrec := congrArg records h
  rw [records_encode_append, records_encode_append] at hrec
  have hpayload : r.payload = r'.payload := congrArg Prod.snd (List.cons.inj hrec).1
  exact (List.append_inj h (by simp [hpayload])).1

theorem whole_encode (r : Record) (bs : List UInt8) {o n : Nat} (h : o + n ≤ r.payload.length) :
    Whole (r.encode ++ bs) o n :=
  ⟨[], (r.contentType, r.payload), records bs, records_encode_append r bs, Nat.zero_le o,
    by simpa using h⟩

theorem not_whole_split (r : Record) (bs : List UInt8) {o n cut : Nat} (h1 : o < cut)
    (h2 : cut < o + n) (h3 : o + n ≤ r.payload.length) :
    ¬Whole ((r.take cut).encode ++ (r.drop cut).encode ++ bs) o n := by
  rintro ⟨before, rec, after, hrec, hstart, hend⟩
  rw [List.append_assoc, records_encode_append, records_encode_append] at hrec
  match before with
  | [] =>
    obtain ⟨rfl, -⟩ := List.cons.inj hrec
    simp only [List.flatMap_nil, List.length_nil, Record.take, List.length_take] at hend
    omega
  | [a] =>
    obtain ⟨rfl, -⟩ := List.cons.inj hrec
    simp only [List.flatMap_cons, List.flatMap_nil, List.append_nil, Record.take,
      List.length_take] at hstart
    omega
  | a :: b :: before =>
    obtain ⟨rfl, htail⟩ := List.cons.inj hrec
    obtain ⟨rfl, -⟩ := List.cons.inj htail
    simp only [List.flatMap_cons, Record.take, Record.drop, List.length_append,
      List.length_take, List.length_drop] at hstart
    omega

/-! ### The host name -/

def helloRecord (c : ClientHello) (version : UInt8 × UInt8) (fits : c.encode.length < 65536) :
    Record := ⟨CONTENT_HANDSHAKE, version, c.encode, fits⟩

variable {c : ClientHello} {version : UInt8 × UInt8} {fits : c.encode.length < 65536}

theorem cutOffset_hostName (h : HostName c) (hlong : 2 ≤ h.name.length) :
    cutOffset c.encode = some (h.offset + h.name.length / 2) := by
  have hle := h.name_le
  have hin : (0 < h.offset + h.name.length / 2 &&
      h.offset + h.name.length / 2 < c.encode.length) = true := by
    simp only [Bool.and_eq_true, decide_eq_true_eq]
    omega
  rw [cutOffset, sniSplitOffset_hostName h hlong, Option.filter_some, if_pos hin]

theorem strip_hello (h : HostName c) (more : List UInt8) :
    ((stripHeaders ((helloRecord c version fits).encode ++ more)).drop h.offset).take
      h.name.length = h.name := by
  rw [stripHeaders, records_encode_append, List.flatMap_cons]
  change ((c.encode ++ _).drop h.offset).take _ = _
  have hle := h.name_le
  rw [List.drop_append_of_le_length (by omega), h.drop_name, List.append_assoc, List.take_left]

theorem splice_other {r : Record} {more : List UInt8} {client : Incoming} (server : Incoming)
    (hlive : client.Live) (hstream : client.flatten = r.encode ++ more)
    (hother : (read (16 * 1024) client).1 ≠ r.encode) :
    ∃ out, splice client server = .ok out ∧ out.upstream = r.encode ++ more := by
  have hflat := (read_flatten (16 * 1024) client).trans hstream
  have hcopy := copy_eq (hlive.read (16 * 1024))
  have hkeep : fragmentClientHello (read (16 * 1024) client).1 =
      .ok (read (16 * 1024) client).1 := by
    apply fragmentClientHello_other
    rintro r' - he
    apply hother
    rw [← he] at hflat ⊢
    exact encode_unique hflat
  have hfirst : (read (16 * 1024) client).1.length ≠ 0 := by
    intro h0
    apply hlive.read_ne_nil (by decide) _ (List.eq_nil_of_length_eq_zero h0)
    rintro rfl
    cases hstream
  refine ⟨⟨(read (16 * 1024) client).1 ++ copy (read (16 * 1024) client).2, copy server, 0⟩,
    ?_, ?_⟩
  · rw [splice_eq, if_neg hfirst, hkeep]
    simp only [bind, Except.bind, ne_eq, not_true_eq_false, if_false]
    rfl
  · change _ ++ copy _ = _
    rw [hcopy, hflat]

theorem splice_hello (h : HostName c) (hlong : 2 ≤ h.name.length) {more : List UInt8}
    {client : Incoming} (server : Incoming) (hlive : client.Live)
    (hstream : client.flatten = (helloRecord c version fits).encode ++ more)
    (hread : (read (16 * 1024) client).1 = (helloRecord c version fits).encode) :
    ∃ out, splice client server = .ok out ∧ out.upstream =
      ((helloRecord c version fits).take (h.offset + h.name.length / 2)).encode ++
        ((helloRecord c version fits).drop (h.offset + h.name.length / 2)).encode ++ more := by
  have hflat := (read_flatten (16 * 1024) client).trans hstream
  have hcut : cutOffset (helloRecord c version fits).payload =
      some (h.offset + h.name.length / 2) := cutOffset_hostName h hlong
  have hfirst : (helloRecord c version fits).encode.length ≠ 0 := by
    rw [Record.length_encode]
    omega
  rw [hread] at hflat
  obtain rfl := List.append_cancel_left hflat
  rw [← copy_eq (hlive.read (16 * 1024)), splice_eq, hread, if_neg hfirst,
    fragmentClientHello_encode _ rfl, hcut]
  exact ⟨_, rfl, rfl⟩

/-- Of a stream that starts with the record of a ClientHello, the host name goes out cut in two
exactly when the first read gives that record and nothing else. -/
theorem splice_severs_iff (h : HostName c) (hlong : 2 ≤ h.name.length) (more : List UInt8)
    {client : Incoming} (server : Incoming) (hlive : client.Live)
    (hstream : client.flatten = (helloRecord c version fits).encode ++ more) :
    ∃ out, splice client server = .ok out ∧
      ((stripHeaders out.upstream).drop h.offset).take h.name.length = h.name ∧
      (¬Whole out.upstream h.offset h.name.length ↔
        (read (16 * 1024) client).1 = (helloRecord c version fits).encode) := by
  have hle : h.offset + h.name.length ≤ c.encode.length := h.name_le
  by_cases hread : (read (16 * 1024) client).1 = (helloRecord c version fits).encode
  · obtain ⟨out, hout, hup⟩ := splice_hello h hlong server hlive hstream hread
    refine ⟨out, hout, ?_, ?_⟩
    · rw [hup, strip_split]
      exact strip_hello h more
    · rw [hup]
      apply iff_of_true _ hread
      apply not_whole_split _ _ _ _ hle
      · omega
      · omega
  · obtain ⟨out, hout, hup⟩ := splice_other server hlive hstream hread
    refine ⟨out, hout, ?_, ?_⟩
    · rw [hup]
      exact strip_hello h more
    · rw [hup]
      apply iff_of_false _ hread
      intro hn
      exact hn (whole_encode _ _ hle)

theorem serverName_fits : 0 < 65536 := by decide

def shortHello : ClientHello where
  version := (3, 3)
  random := List.replicate 32 7
  sessionId := []
  cipherSuites := [0x13, 0x01]
  compressions := [0]
  extensions := [⟨0, [0, 7, 0, 0, 4, 0x74, 0x2e, 0x63, 0x6f], serverName_fits, by decide⟩]
  random_length := by decide
  sessionId_fits := by decide
  cipherSuites_fits := by decide
  compressions_fits := by decide
  extensions_fits := by decide

def shortName : HostName shortHello where
  before := []
  extension := ⟨0, [0, 7, 0, 0, 4, 0x74, 0x2e, 0x63, 0x6f], serverName_fits, by decide⟩
  after := []
  name := [0x74, 0x2e, 0x63, 0x6f]
  more := []
  extensions := rfl
  first := by simp
  type := rfl
  data := by decide

def shortRecord : Record := helloRecord shortHello (3, 1) (by decide)

theorem alone_severed : ∃ out, splice [shortRecord.encode] [[1]] = .ok out ∧
    ((stripHeaders out.upstream).drop shortName.offset).take shortName.name.length =
      shortName.name ∧
    (¬Whole out.upstream shortName.offset shortName.name.length ↔
      (read (16 * 1024) [shortRecord.encode]).1 = shortRecord.encode) :=
  splice_severs_iff shortName (by decide) [] [[1]] (by unfold Incoming.Live; decide) (by decide)

/-- The record in two segments: its header first. -/
theorem two_segments_whole : ¬∀ (c : ClientHello) (h : HostName c) (version : UInt8 × UInt8)
    (fits : c.encode.length < 65536) (more : List UInt8) (client server : Incoming),
    2 ≤ h.name.length → client.Live →
    client.flatten = (helloRecord c version fits).encode ++ more →
    ∃ out, splice client server = .ok out ∧ ¬Whole out.upstream h.offset h.name.length := by
  intro hall
  have hlive : Incoming.Live [shortRecord.encode.take 5, shortRecord.encode.drop 5] := by
    unfold Incoming.Live
    decide
  have hstream : [shortRecord.encode.take 5, shortRecord.encode.drop 5].flatten =
      shortRecord.encode ++ [] := by decide
  obtain ⟨out, hout, hcut⟩ := hall shortHello shortName (3, 1) (by decide) [] _ [] (by decide)
    hlive hstream
  obtain ⟨out', hout', hup⟩ := splice_other (r := shortRecord) [] hlive hstream (by decide)
  obtain rfl := Except.ok.inj (hout.symm.trans hout')
  rw [hup] at hcut
  exact hcut (whole_encode shortRecord [] shortName.name_le)

end Detour.Dpi
