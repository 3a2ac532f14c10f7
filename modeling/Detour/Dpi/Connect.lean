import Detour.Dpi.Splice
import Detour.Rust.Utf8
import Detour.Tunnel.Parse
import Mathlib.Data.List.Rotate

/-! `DpiProxy::handle`: the head of a CONNECT request, and what is tunnelled after it. -/

namespace Detour.Dpi

open Detour.Rust Detour.Tunnel Tls

/-! ### The code -/

def parseConnectTarget (head : Text) : Option Text := do
  let line ← (lines head).head?
  let (method, rest) ← nextWord line
  if toAsciiLowercase method ≠ "connect".toList then none
  else do
    let (authority, _) ← nextWord rest
    -- Must contain a port and a non-empty host.
    let (host, port) ← rsplitOnce ':' authority
    if host = [] ∨ parseUnsigned 65535 port = none then none else some authority

def BLANK_LINE : Bytes := [13, 10, 13, 10]

/-- Read the request line + headers (up to the blank line), byte by byte; the client may hang up
before. -/
def readHead (buf : Bytes) (client : Incoming) : Option (Bytes × Incoming) :=
  if (read 1 client).1 = [] then none
  else
    let buf' := buf ++ (read 1 client).1
    if BLANK_LINE.isSuffixOf buf' ∨ buf'.length > 8192 then some (buf', (read 1 client).2)
    else readHead buf' (read 1 client).2
termination_by client.flatten.length
decreasing_by
  next hne _ =>
  have hlen := congrArg List.length (read_flatten 1 client)
  have hpos := List.length_pos_of_ne_nil hne
  rw [List.length_append] at hlen
  omega

inductive Handled
  | closed
  | answered (response : Bytes)
  | tunnelled (target : Text) (response : Bytes) (out : Spliced)

def Handled.upstream : Handled → Bytes
  | .tunnelled _ _ out => out.upstream
  | _ => []

def handle (connect : Text → Option Incoming) (client : Incoming) : Checked Handled :=
  match readHead [] client with
  | none => .ok .closed
  | some (buf, client) =>
    match parseConnectTarget (fromUtf8Lossy buf) with
    | none => .ok (.answered (ascii "HTTP/1.1 405 Method Not Allowed\r\n\r\n"))
    | some target =>
      match connect target with
      | none => .ok (.answered (ascii "HTTP/1.1 502 Bad Gateway\r\n\r\n"))
      | some upstream => do
        let out ← splice client upstream
        return .tunnelled target (ascii "HTTP/1.1 200 Connection established\r\n\r\n") out

/-! ### What is asked of it -/

def afterHead : Bytes → Option Bytes
  | [] => none
  | b :: bs => if BLANK_LINE.isPrefixOf (b :: bs) then some (bs.drop 3) else afterHead bs

def firstLine (bs : Bytes) : Bytes := bs.takeWhile (· ≠ 10)

/-- The same bytes, but for the record they may start with, which may go out in two. -/
def Reframed (data sent : Bytes) : Prop :=
  sent = data ∨ ∃ (r a b : Record) (more : Bytes), data = r.encode ++ more ∧
    sent = a.encode ++ b.encode ++ more ∧
    a.contentType = r.contentType ∧ a.version = r.version ∧
    b.contentType = r.contentType ∧ b.version = r.version ∧
    a.payload ++ b.payload = r.payload

/-! ### The blank line -/

variable {buf rest : Bytes} {b : UInt8}

theorem afterHead_cons_neg (h : ¬BLANK_LINE <+: b :: buf) :
    afterHead (b :: buf) = afterHead buf := by
  have hno : ¬BLANK_LINE.isPrefixOf (b :: buf) = true := by
    rwa [List.isPrefixOf_iff_prefix]
  rw [afterHead, if_neg hno]

theorem afterHead_eq_none (h : ¬BLANK_LINE <:+: buf) : afterHead buf = none := by
  induction buf with
  | nil => rfl
  | cons b buf ih =>
    rw [List.infix_cons_iff, not_or] at h
    rw [afterHead_cons_neg h.1, ih h.2]

theorem afterHead_complete (hno : ¬BLANK_LINE <:+: buf) (h : BLANK_LINE <:+ buf ++ [b])
    (rest : Bytes) : afterHead (buf ++ b :: rest) = some rest := by
  induction buf with
  | nil =>
    have hlen : 4 ≤ 1 := h.length_le
    omega
  | cons c buf ih =>
    rw [List.infix_cons_iff, not_or] at hno
    rw [List.cons_append, List.suffix_cons_iff] at h
    rcases h with h | h
    · obtain ⟨rfl, htail⟩ := List.cons.inj h
      have hrest : buf ++ b :: rest = [10, 13, 10] ++ rest := by
        rw [htail, List.append_assoc]
        rfl
      rw [List.cons_append, hrest]
      rfl
    · have hfirst : ¬BLANK_LINE <+: c :: (buf ++ b :: rest) := by
        intro hp
        apply hno.1
        apply List.prefix_of_prefix_length_le hp (List.prefix_append (c :: buf) (b :: rest))
        have hlen := h.length_le
        rw [List.length_append] at hlen
        exact hlen
      rw [List.cons_append, afterHead_cons_neg hfirst, ih hno.2 h]

/-! ### Reading the head -/

def headOf (buf : Bytes) : Bytes → Option (Bytes × Bytes)
  | [] => none
  | b :: bs =>
    if BLANK_LINE.isSuffixOf (buf ++ [b]) ∨ (buf ++ [b]).length > 8192 then some (buf ++ [b], bs)
    else headOf (buf ++ [b]) bs

theorem read_one {s : Incoming} (hlive : s.Live) {bs : Bytes} (h : s.flatten = b :: bs) :
    (read 1 s).1 = [b] ∧ (read 1 s).2.flatten = bs := by
  have hflat := read_flatten 1 s
  cases s with
  | nil => cases h
  | cons chunk chunks =>
    cases chunk with
    | nil => exact absurd rfl (hlive [] List.mem_cons_self)
    | cons c chunk =>
      obtain ⟨rfl, -⟩ := List.cons.inj h
      rw [h] at hflat
      exact ⟨rfl, (List.cons.inj hflat).2⟩

theorem readHead_eq {s : Incoming} (hlive : s.Live) (buf : Bytes) :
    (headOf buf s.flatten = none ∧ readHead buf s = none) ∨
      ∃ head s', readHead buf s = some (head, s') ∧ s'.Live ∧
        headOf buf s.flatten = some (head, s'.flatten) := by
  induction hs : s.flatten generalizing s buf with
  | nil =>
    left
    have hread : (read 1 s).1 = [] :=
      (List.append_eq_nil_iff.mp ((read_flatten 1 s).trans hs)).1
    rw [readHead, if_pos hread]
    exact ⟨rfl, rfl⟩
  | cons b bs ih =>
    obtain ⟨hbyte, hrest⟩ := read_one hlive hs
    rw [readHead, headOf, hbyte, if_neg (List.cons_ne_nil b [])]
    dsimp only
    split
    next => exact .inr ⟨_, _, rfl, hlive.read 1, by rw [hrest]⟩
    next => exact ih (hlive.read 1) (buf ++ [b]) hrest

theorem headOf_cases (hno : ¬BLANK_LINE <:+: buf) (hshort : buf.length ≤ 8192) (bs : Bytes) :
    (∃ head rest, headOf buf bs = some (head, rest) ∧ head ++ rest = buf ++ bs ∧
      head.length ≤ 8193 ∧ BLANK_LINE <:+ head ∧ ∀ more, afterHead (head ++ more) = some more) ∨
    (∃ head rest, headOf buf bs = some (head, rest) ∧ head ++ rest = buf ++ bs ∧
      head.length = 8193 ∧ ¬BLANK_LINE <:+: head) ∨
    (headOf buf bs = none ∧ (buf ++ bs).length ≤ 8192 ∧ ¬BLANK_LINE <:+: buf ++ bs) := by
  induction bs generalizing buf with
  | nil =>
    rw [List.append_nil]
    exact .inr (.inr ⟨rfl, hshort, hno⟩)
  | cons b bs ih =>
    have hlen : (buf ++ [b]).length = buf.length + 1 := List.length_append
    have happ : buf ++ b :: bs = buf ++ [b] ++ bs := by rw [List.append_assoc]; rfl
    rw [headOf, happ]
    by_cases hend : BLANK_LINE <:+ buf ++ [b]
    · left
      rw [if_pos (.inl (List.isSuffixOf_iff_suffix.mpr hend))]
      refine ⟨_, _, rfl, rfl, by omega, hend, fun more => ?_⟩
      rw [List.append_assoc]
      exact afterHead_complete hno hend more
    · have hno' : ¬BLANK_LINE <:+: buf ++ [b] := by
        rw [List.infix_concat_iff]
        exact not_or.mpr ⟨hend, hno⟩
      by_cases hfull : (buf ++ [b]).length > 8192
      · rw [if_pos (.inr hfull)]
        exact .inr (.inl ⟨_, _, rfl, rfl, by omega, hno'⟩)
      · have hgo : ¬(BLANK_LINE.isSuffixOf (buf ++ [b]) = true ∨ (buf ++ [b]).length > 8192) := by
          rw [List.isSuffixOf_iff_suffix]
          exact not_or.mpr ⟨hend, hfull⟩
        rw [if_neg hgo]
        exact ih hno' (Nat.le_of_not_lt hfull)

theorem afterHead_eq_some (h : afterHead buf = some rest) : ∃ p, buf = p ++ BLANK_LINE ++ rest := by
  induction buf with
  | nil => cases h
  | cons b buf ih =>
    by_cases hp : BLANK_LINE <+: b :: buf
    · obtain ⟨more, hmore⟩ := hp
      obtain ⟨rfl, rfl⟩ := List.cons.inj hmore
      obtain rfl := Option.some.inj h
      exact ⟨[], rfl⟩
    · rw [afterHead_cons_neg hp] at h
      obtain ⟨p, rfl⟩ := ih h
      exact ⟨b :: p, rfl⟩

theorem readHead_cut {client : Incoming} (hlive : client.Live)
    (hno : ¬BLANK_LINE <:+: client.flatten.take 8193) (hlong : 8193 ≤ client.flatten.length) :
    ∃ s, readHead [] client = some (client.flatten.take 8193, s) ∧ s.Live ∧
      s.flatten = client.flatten.drop 8193 := by
  have hcases := @headOf_cases [] (by decide) (by decide) client.flatten
  rw [List.nil_append] at hcases
  rcases hcases with ⟨head, rest, -, happ, hfits, hend, -⟩ |
    ⟨head, rest, hhead, happ, hlen, -⟩ | ⟨-, hshort, -⟩
  · rw [← happ, List.take_append, List.take_of_length_le hfits] at hno
    exact absurd (hend.isInfix.trans (List.infix_append' [] head _)) hno
  · rcases readHead_eq hlive [] with ⟨hnone, -⟩ | ⟨head', s, hread, hs, hhead'⟩
    · rw [hnone] at hhead
      cases hhead
    · obtain ⟨rfl, hrest⟩ := Prod.mk.inj (Option.some.inj (hhead'.symm.trans hhead))
      rw [← happ, ← hlen, List.take_left, List.drop_left]
      exact ⟨s, hread, hs, hrest⟩
  · omega

/-! ### The target -/

theorem parseConnectTarget_return {s t line : Text} (hs : (lines s).head? = some (line ++ ['\r']))
    (ht : (lines t).head? = some line) : parseConnectTarget s = parseConnectTarget t := by
  have hspace : isWhitespace '\r' = true := by decide
  simp only [parseConnectTarget, hs, ht, Option.bind_eq_bind, Option.bind_some,
    nextWord_concat hspace]
  cases nextWord line with
  | none => rfl
  | some x =>
    simp only [Option.map_some, Option.bind_some, nextWord_concat hspace]
    cases nextWord x.2 with
    | none => rfl
    | some y => rfl

theorem parseConnectTarget_append (s t : List Char) :
    parseConnectTarget (s ++ '\n' :: t) = parseConnectTarget s := by
  by_cases hs : s = []
  · subst hs
    have hlines : lines ([] ++ '\n' :: t) = [] :: lines t := lines_append [] t
    unfold parseConnectTarget
    rw [hlines]
    rfl
  · obtain ⟨line, hfirst, hline⟩ := lines_head hs t
    have hsame : (lines s).head? = some (stripCr line) →
        parseConnectTarget (s ++ '\n' :: t) = parseConnectTarget s := by
      intro h
      unfold parseConnectTarget
      rw [hfirst, h]
    rcases hline with hline | hline
    · rcases stripCr_cases line with hcr | hcr
      · exact hsame (hcr.symm ▸ hline)
      · rw [hcr] at hline
        exact (parseConnectTarget_return hline hfirst).symm
    · exact hsame hline

theorem firstLine_append (h : 10 ∉ buf) (more : Bytes) :
    firstLine (buf ++ 10 :: more) = buf := by
  have hall : ∀ b ∈ buf, (decide (b ≠ 10)) = true := by
    intro b hb
    rw [decide_eq_true_eq]
    rintro rfl
    exact h hb
  rw [firstLine, List.takeWhile_append_of_pos hall]
  exact List.append_nil buf

theorem target_of_firstLine (h : 10 ∈ buf) (more : Bytes) :
    parseConnectTarget (fromUtf8Lossy buf) =
      parseConnectTarget (fromUtf8Lossy (firstLine (buf ++ more))) := by
  obtain ⟨line, rest, rfl, hline⟩ := List.eq_append_cons_of_mem h
  rw [fromUtf8Lossy_append, parseConnectTarget_append, List.append_assoc, List.cons_append,
    firstLine_append hline]

theorem newline_mem (h : BLANK_LINE <:+ buf) : 10 ∈ buf :=
  h.subset (by decide)

/-! ### What is spliced -/

theorem fragment_reframes (first : Bytes) :
    ∃ framed, fragmentClientHello first = .ok framed ∧ Reframed first framed := by
  by_cases h : ∃ r : Record, r.contentType = CONTENT_HANDSHAKE ∧ r.encode = first
  · obtain ⟨r, hr, rfl⟩ := h
    refine ⟨_, fragmentClientHello_encode r hr, ?_⟩
    cases cutOffset r.payload with
    | none => exact .inl rfl
    | some cut =>
      exact .inr ⟨r, r.take cut, r.drop cut, [], (List.append_nil _).symm,
        (List.append_nil _).symm, rfl, rfl, rfl, rfl, List.take_append_drop cut r.payload⟩
  · exact ⟨first, fragmentClientHello_other fun r hr he => h ⟨r, hr, he⟩, .inl rfl⟩

theorem Reframed.append {data sent : Bytes} (h : Reframed data sent) (more : Bytes) :
    Reframed (data ++ more) (sent ++ more) := by
  rcases h with rfl | ⟨r, a, b, rest, rfl, rfl, hall⟩
  · exact .inl rfl
  · exact .inr ⟨r, a, b, rest ++ more, List.append_assoc .., List.append_assoc .., hall⟩

theorem splice_reframes {client : Incoming} (hlive : client.Live) (server : Incoming) :
    ∃ out, splice client server = .ok out ∧ Reframed client.flatten out.upstream := by
  have hflat := read_flatten (16 * 1024) client
  rw [splice_eq]
  split
  next hnil =>
    have hclient : client = [] := by
      by_contra hne
      exact hlive.read_ne_nil (by decide) hne (List.eq_nil_of_length_eq_zero hnil)
    subst hclient
    exact ⟨_, rfl, .inl rfl⟩
  next =>
    obtain ⟨framed, hframed, hreframed⟩ := fragment_reframes (read (16 * 1024) client).1
    rw [hframed]
    refine ⟨_, rfl, ?_⟩
    change Reframed _ (framed ++ copy _)
    rw [copy_eq (hlive.read _), ← hflat]
    exact hreframed.append _

theorem Reframed.length {data sent : Bytes} (h : Reframed data sent) :
    sent = data ∨ sent.length = data.length + 5 := by
  rcases h with h | ⟨r, a, b, more, rfl, rfl, -, -, -, -, hpayload⟩
  · exact .inl h
  · right
    simp only [List.length_append, Record.length_encode, ← hpayload]
    omega

theorem rotate_of_append {x h k : List α} (heq : x ++ k = h ++ x) : k = h.rotate x.length := by
  induction hn : x.length using Nat.strongRecOn generalizing x with
  | ind n ih =>
    by_cases hle : h.length ≤ x.length
    · obtain ⟨y, rfl⟩ : h <+: x :=
        List.prefix_of_prefix_length_le ⟨x, heq.symm⟩ (List.prefix_append x k) hle
      rw [List.append_assoc] at heq
      have hy : y ++ k = h ++ y := List.append_cancel_left heq
      by_cases hh : h = []
      · subst hh
        exact List.append_cancel_left (hy.trans (List.append_nil y).symm)
      · have hpos := List.length_pos_of_ne_nil hh
        rw [List.length_append] at hn
        rw [ih y.length (by omega) hy rfl, ← hn, ← List.rotate_rotate, List.rotate_length]
    · have hx : x <+: h := List.prefix_of_prefix_length_le ⟨k, heq⟩
        (List.prefix_append h x) (by omega)
      obtain ⟨y, rfl⟩ := hx
      rw [List.append_assoc] at heq
      rw [← hn, List.rotate_append_length_eq]
      exact List.append_cancel_left heq

theorem Reframed.nil_left {sent : Bytes} (h : Reframed [] sent) : sent = [] := by
  rcases h with h | ⟨r, a, b, more, h, -⟩
  · exact h
  · cases h

theorem Reframed.nil_right {data : Bytes} (h : Reframed data []) : data = [] := by
  rcases h.length with h | h
  · exact h.symm
  · cases h

theorem blank_line_no_header {h : Bytes} {r a b : Record} (hlen : h.length = 5)
    (hblank : BLANK_LINE <:+ h) (hva : a.version = r.version)
    (htb : b.contentType = r.contentType) (hvb : b.version = r.version)
    (hpayload : a.payload ++ b.payload = r.payload) :
    h ++ r.encode ≠ a.encode ++ b.encode := by
  intro heq
  obtain ⟨pre, rfl⟩ := hblank
  obtain ⟨x, rfl⟩ : ∃ x, pre = [x] := by
    rw [← List.length_eq_one_iff]
    rw [List.length_append] at hlen
    have hfour : BLANK_LINE.length = 4 := rfl
    omega
  have hsplit (q : Record) : q.encode = [q.contentType, q.version.1, q.version.2,
      UInt8.ofNat (q.payload.length / 256), UInt8.ofNat q.payload.length] ++ q.payload := rfl
  rw [hsplit a] at heq
  simp only [BLANK_LINE, List.cons_append, List.nil_append, List.cons.injEq] at heq
  obtain ⟨hx, hv1, hv2, hhi, hlo, hrest⟩ := heq
  -- the header of the first record is the end of the head
  have halen : a.payload.length = 3338 := by
    rw [← ofBe16_be16 a.fits, ← hhi, ← hlo]
    rfl
  rw [hsplit r, hsplit b, ← hpayload, ← List.append_assoc, ← List.append_assoc] at hrest
  have hturned := rotate_of_append (List.append_cancel_right hrest).symm
  rw [halen, ← List.rotate_mod] at hturned
  simp only [List.length_cons, List.length_nil, Nat.reduceAdd, Nat.reduceMod] at hturned
  obtain ⟨hbt, hturned⟩ := List.cons.inj hturned
  obtain ⟨hbv1, hturned⟩ := List.cons.inj hturned
  obtain ⟨hbv2, -⟩ := List.cons.inj hturned
  -- so its type is a line feed, and the length of the record is too short for it
  have hrhi : UInt8.ofNat (r.payload.length / 256) = 10 := by
    rw [← hpayload, ← hbt, htb, ← hbv2, hvb, ← hva, ← hv2]
  have hrlo : UInt8.ofNat r.payload.length = 13 := by
    rw [← hpayload, ← hbv1, hvb, ← hva, ← hv1]
  have hrlen : r.payload.length = 2573 := by
    rw [← ofBe16_be16 r.fits, hrhi, hrlo]
    rfl
  have hle := congrArg List.length hpayload
  rw [List.length_append] at hle
  omega

theorem not_reframed {h e sent : Bytes} (hne : h ≠ []) (hblank : h.length = 5 → BLANK_LINE <:+ h)
    (hsent : Reframed (h ++ e) sent) : ¬Reframed e sent := by
  intro he
  have hpos := List.length_pos_of_ne_nil hne
  have hlen : (h ++ e).length = h.length + e.length := List.length_append
  rcases he with rfl | ⟨r, a, b, more, rfl, rfl, -, hva, htb, hvb, hpayload⟩
  · rcases hsent.length with heq | heq
    · have := congrArg List.length heq
      omega
    · omega
  · have hlong : (a.encode ++ b.encode ++ more).length = (r.encode ++ more).length + 5 := by
      simp only [List.length_append, Record.length_encode, ← hpayload]
      omega
    rcases hsent.length with heq | heq
    · have hfive := congrArg List.length heq
      rw [← List.append_assoc] at heq
      have hsame := List.append_cancel_right heq
      exact blank_line_no_header (by omega) (hblank (by omega)) hva htb hvb hpayload hsame.symm
    · omega

/-- A head that is cut off is not followed by what follows the head. -/
theorem cut_head_leaks {head sent : Bytes} (hno : ¬BLANK_LINE <:+: head) (hrest : rest ≠ [])
    (hsent : Reframed rest sent) : ¬Reframed ((afterHead (head ++ rest)).getD []) sent := by
  intro hafter
  cases hs : afterHead (head ++ rest) with
  | none =>
    rw [hs] at hafter
    obtain rfl := Reframed.nil_left hafter
    exact hrest hsent.nil_right
  | some e =>
    rw [hs] at hafter
    obtain ⟨p, hp⟩ := afterHead_eq_some hs
    have hlonger : ¬p ++ BLANK_LINE <+: head := by
      rintro ⟨more, hmore⟩
      exact hno ⟨p, more, hmore⟩
    have hprefix : head <+: p ++ BLANK_LINE := by
      rcases Nat.le_total head.length (p ++ BLANK_LINE).length with hle | hle
      · exact List.prefix_of_prefix_length_le ⟨rest, hp⟩ (List.prefix_append _ _) hle
      · exact absurd (List.prefix_of_prefix_length_le ⟨e, hp.symm⟩ (List.prefix_append _ _) hle)
          hlonger
    obtain ⟨h, hh⟩ := hprefix
    rw [← hh, List.append_assoc] at hp
    obtain rfl := List.append_cancel_left hp
    apply not_reframed _ _ hsent hafter
    · rintro rfl
      rw [List.append_nil] at hh
      exact hlonger (hh ▸ List.prefix_refl _)
    · intro hfive
      have hend : BLANK_LINE <:+ head ++ h := hh ▸ List.suffix_append p BLANK_LINE
      exact List.suffix_of_suffix_length_le hend (List.suffix_append head h)
        (by rw [hfive]; decide)

/-! ### The connection -/

variable {connect : Text → Option Incoming} {client : Incoming} {head : Bytes} {s : Incoming}

theorem handle_unreached (hread : readHead [] client = some (head, s))
    (hconnect : (parseConnectTarget (fromUtf8Lossy head)).bind connect = none) :
    ∃ out, handle connect client = .ok out ∧ out.upstream = [] := by
  rw [handle, hread]
  dsimp only
  cases htarget : parseConnectTarget (fromUtf8Lossy head) with
  | none => exact ⟨_, rfl, rfl⟩
  | some target =>
    rw [htarget] at hconnect
    have hnone : connect target = none := hconnect
    dsimp only
    rw [hnone]
    exact ⟨_, rfl, rfl⟩

theorem handle_reached {server : Incoming} (hread : readHead [] client = some (head, s))
    (hlive : s.Live)
    (hconnect : (parseConnectTarget (fromUtf8Lossy head)).bind connect = some server) :
    ∃ out, handle connect client = .ok out ∧ Reframed s.flatten out.upstream := by
  obtain ⟨target, htarget, hserver⟩ := Option.bind_eq_some_iff.mp hconnect
  obtain ⟨out, hout, hreframed⟩ := splice_reframes hlive server
  rw [handle, hread]
  dsimp only
  rw [htarget]
  dsimp only
  rw [hserver]
  dsimp only
  rw [hout]
  exact ⟨_, rfl, hreframed⟩

/-- After a head that is cut off, the rest of it is tunnelled, unless there is none or no server
is reached. -/
theorem cut_off_iff (hread : readHead [] client = some (head, s)) (hlive : s.Live)
    (hno : ¬BLANK_LINE <:+: head) :
    ∃ out, handle connect client = .ok out ∧
      (Reframed ((afterHead (head ++ s.flatten)).getD []) out.upstream ↔
        s.flatten = [] ∨ ((parseConnectTarget (fromUtf8Lossy head)).bind connect = none ∧
          (afterHead (head ++ s.flatten)).getD [] = [])) := by
  have hnothing (hs : s.flatten = []) : (afterHead (head ++ s.flatten)).getD [] = [] := by
    rw [hs, List.append_nil, afterHead_eq_none hno]
    rfl
  cases hconnect : (parseConnectTarget (fromUtf8Lossy head)).bind connect with
  | none =>
    obtain ⟨out, hout, hup⟩ := handle_unreached hread hconnect
    refine ⟨out, hout, fun h => ?_, fun h => ?_⟩
    · rw [hup] at h
      exact .inr ⟨rfl, h.nil_right⟩
    · rw [hup]
      rcases h with hs | ⟨-, hs⟩
      · rw [hnothing hs]
        exact .inl rfl
      · rw [hs]
        exact .inl rfl
  | some server =>
    obtain ⟨out, hout, hreframed⟩ := handle_reached hread hlive hconnect
    refine ⟨out, hout, ?_⟩
    by_cases hs : s.flatten = []
    · apply iff_of_true _ (.inl hs)
      rw [hnothing hs, ← hs]
      exact hreframed
    · apply iff_of_false (cut_head_leaks hno hs hreframed)
      rintro (h | ⟨h, -⟩)
      · exact hs h
      · cases h

/-- What is tunnelled of a connection whose first line is a CONNECT request is what follows the
head, exactly when the head, or all there is, fits into 8193 bytes, or else nothing follows the
head and what fits names no server that can be reached. -/
theorem handle_tunnels_iff {target : Text} {server : Incoming} (hlive : client.Live)
    (hline : parseConnectTarget (fromUtf8Lossy (firstLine client.flatten)) = some target)
    (hconnect : connect target = some server) :
    ∃ out, handle connect client = .ok out ∧
      (Reframed ((afterHead client.flatten).getD []) out.upstream ↔
        client.flatten.length ≤ 8193 ∨ (afterHead (client.flatten.take 8193)).isSome ∨
          ((parseConnectTarget (fromUtf8Lossy (client.flatten.take 8193))).bind connect = none ∧
            (afterHead client.flatten).getD [] = [])) := by
  have hcases := @headOf_cases [] (by decide) (by decide) client.flatten
  rw [List.nil_append] at hcases
  rcases readHead_eq hlive [] with ⟨hnone, hread⟩ | ⟨head, s, hread, hs, hhead⟩
  · -- the client hangs up
    rcases hcases with ⟨_, _, hsome, -⟩ | ⟨_, _, hsome, -⟩ | ⟨-, hshort, hno⟩
    · rw [hnone] at hsome
      cases hsome
    · rw [hnone] at hsome
      cases hsome
    · refine ⟨.closed, by rw [handle, hread], iff_of_true ?_ (.inl (by omega))⟩
      rw [afterHead_eq_none hno]
      exact .inl rfl
  · rcases hcases with ⟨_, rest, hsome, happ, hfits, hend, hafter⟩ |
      ⟨_, rest, hsome, happ, hlen, hno⟩ | ⟨hnone, -⟩
    · -- the head is complete
      obtain ⟨rfl, hrest⟩ := Prod.mk.inj (Option.some.inj (hhead.symm.trans hsome))
      have hnewline := newline_mem hend
      have htarget : parseConnectTarget (fromUtf8Lossy head) = some target := by
        rw [target_of_firstLine hnewline rest, happ, hline]
      obtain ⟨out, hout, hreframed⟩ := handle_reached hread hs (by rw [htarget]; exact hconnect)
      refine ⟨out, hout, iff_of_true ?_ (.inr (.inl ?_))⟩
      · rw [← happ, hafter, ← hrest]
        exact hreframed
      · rw [← happ, List.take_append, List.take_of_length_le hfits, hafter]
        rfl
    · -- the reading is cut off
      obtain ⟨rfl, hrest⟩ := Prod.mk.inj (Option.some.inj (hhead.symm.trans hsome))
      have htake : client.flatten.take 8193 = head := by
        rw [← happ, ← hlen, List.take_left]
      have hshort : client.flatten.length ≤ 8193 ↔ s.flatten = [] := by
        rw [hrest, ← happ, List.length_append, hlen, ← List.length_eq_zero_iff]
        omega
      obtain ⟨out, hout, hiff⟩ := @cut_off_iff connect _ _ _ hread hs hno
      refine ⟨out, hout, ?_⟩
      rw [hrest, happ] at hiff
      rw [hiff, htake, afterHead_eq_none hno, hshort, hrest]
      simp only [Option.isSome_none, Bool.false_eq_true, false_or]
    · rw [hhead] at hnone
      cases hnone

def plainServer (_ : Text) : Option Incoming := some [[1]]

def plainConnect : Bytes := ascii "CONNECT t.co:443 HTTP/1.1\r\nHost: t.co\r\n\r\nhi"

theorem plain_tunnelled : ∃ out, handle plainServer [plainConnect] = .ok out ∧
    (Reframed ((afterHead [plainConnect].flatten).getD []) out.upstream ↔
      [plainConnect].flatten.length ≤ 8193 ∨
        (afterHead ([plainConnect].flatten.take 8193)).isSome ∨
        ((parseConnectTarget (fromUtf8Lossy ([plainConnect].flatten.take 8193))).bind plainServer =
          none ∧ (afterHead [plainConnect].flatten).getD [] = [])) :=
  @handle_tunnels_iff plainServer [plainConnect] "t.co:443".toList [[1]]
    (by unfold Incoming.Live; decide +kernel) (by decide +kernel) rfl

def longLine : Bytes := ascii "CONNECT t.co:443 HTTP/1.1\r"

def longConnect : Bytes :=
  longLine ++ 10 :: (List.replicate 9000 120 ++ (BLANK_LINE ++ ascii "hi"))

theorem longConnect_take :
    longConnect.take 8193 = longLine ++ 10 :: List.replicate 8166 120 := by
  have hlen : longLine.length = 26 := by decide +kernel
  have hrest : 8193 - 26 = 8166 + 1 := rfl
  rw [longConnect, List.take_append, List.take_of_length_le (by omega), hlen, hrest,
    List.take_succ_cons, List.take_append_of_le_length (by rw [List.length_replicate]; omega),
    List.take_replicate]
  rfl

/-- The part of a head that does not fit is sent to the server. -/
theorem long_head_leaks : ¬∀ (connect : Text → Option Incoming) (client server : Incoming)
    (target : Text), client.Live →
    parseConnectTarget (fromUtf8Lossy (firstLine client.flatten)) = some target →
    connect target = some server →
    ∃ out, handle connect client = .ok out ∧
      Reframed ((afterHead client.flatten).getD []) out.upstream := by
  intro hall
  have hflat : [longConnect].flatten = longConnect := List.flatten_singleton
  have hlive : Incoming.Live [longConnect] := by
    intro chunk hchunk
    obtain rfl := List.mem_singleton.mp hchunk
    exact List.append_ne_nil_of_right_ne_nil _ (List.cons_ne_nil _ _)
  have hlong : 8193 < longConnect.length := by
    rw [longConnect, List.length_append, List.length_cons, List.length_append,
      List.length_replicate]
    omega
  have hline (rest : Bytes) :
      parseConnectTarget (fromUtf8Lossy (firstLine (longLine ++ 10 :: rest))) =
        some "t.co:443".toList := by
    rw [firstLine_append (by decide +kernel)]
    decide +kernel
  have hno : ¬BLANK_LINE <:+: longConnect.take 8193 := by
    intro hinfix
    have hcount := hinfix.sublist.count_le 13
    rw [longConnect_take, List.count_append, List.count_cons, List.count_replicate] at hcount
    exact absurd hcount (by decide +kernel)
  rw [← hflat] at hno hlong
  obtain ⟨s, hread, hs, hrest⟩ := readHead_cut hlive hno hlong.le
  obtain ⟨out, hout, hreframed⟩ := hall plainServer [longConnect] [[1]] "t.co:443".toList hlive
    (by rw [hflat]; exact hline _) rfl
  obtain ⟨out', hout', hiff⟩ := @cut_off_iff plainServer _ _ _ hread hs hno
  obtain rfl := Except.ok.inj (hout.symm.trans hout')
  rw [hrest, List.take_append_drop] at hiff
  rcases hiff.mp hreframed with hnil | ⟨hunreached, -⟩
  · have hle := List.drop_eq_nil_iff.mp hnil
    omega
  · have hmem : 10 ∈ longLine ++ 10 :: List.replicate 8166 120 :=
      List.mem_append_right _ List.mem_cons_self
    rw [hflat, longConnect_take, target_of_firstLine hmem [], List.append_nil, hline] at hunreached
    cases hunreached

end Detour.Dpi
