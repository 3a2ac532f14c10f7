import Detour.Attach.Sockets
import Detour.Lib.Delimited
import Detour.Rust.AddrLetters

/-! The lines that `ss -tunpH` prints, and what is read of them. -/

namespace Detour.Attach

open Detour.Rust Detour.Tunnel Delimited

/-! ### The lines -/

structure Endpoint where
  ip : IpAddr
  addr : Text
  port : UInt16
  iface : Option Text
  parse_addr : IpAddr.parse addr = some ip
  iface_plain : ∀ i, iface = some i → ∀ c ∈ i, isWhitespace c = false

def Endpoint.socketAddr (e : Endpoint) : SocketAddr := ⟨e.ip, e.port⟩

def zone : Option Text → Text
  | none => []
  | some i => '%' :: i

def Endpoint.host (e : Endpoint) : Text :=
  match e.ip with
  | .v4 _ => e.addr ++ zone e.iface
  | .v6 _ => '[' :: (e.addr ++ ']' :: zone e.iface)

def Endpoint.text (e : Endpoint) : Text := e.host ++ ':' :: Nat.toDigits 10 e.port.toNat

/-- A process that has the socket open; its name may be anything. -/
structure Owner where
  comm : Text
  pid : UInt32
  fd : Nat

def Owner.pidField (o : Owner) : Text := "pid=".toList ++ Nat.toDigits 10 o.pid.toNat

def Owner.fdField (o : Owner) : Text := "fd=".toList ++ Nat.toDigits 10 o.fd

def Owner.text (o : Owner) : Text :=
  '(' :: '\"' :: (o.comm ++ '\"' :: ',' :: (o.pidField ++ ',' :: (o.fdField ++ [')'])))

def usersText (owners : List Owner) : Text :=
  "users".toList ++ ':' :: '(' :: ([','].intercalate (owners.map Owner.text) ++ [')'])

structure SsLine where
  proto : Text
  state : Text
  recvQ : Nat
  sendQ : Nat
  localAddr : Endpoint
  peer : Endpoint
  owners : List Owner
  /-- how many more spaces than one stand after each column -/
  pad : Nat → Nat
  proto_known : proto = "tcp".toList ∨ proto = "udp".toList
  state_word : state ≠ [] ∧ ∀ c ∈ state, isWhitespace c = false
  owners_ne_nil : owners ≠ []

def SsLine.then (l : SsLine) (column : Nat) (rest : Text) : Text :=
  ' ' :: (List.replicate (l.pad column) ' ' ++ rest)

def SsLine.text (l : SsLine) : Text :=
  l.proto ++ l.then 0 (l.state ++ l.then 1 (Nat.toDigits 10 l.recvQ ++ l.then 2
    (Nat.toDigits 10 l.sendQ ++ l.then 3 (l.localAddr.text ++ l.then 4
      (l.peer.text ++ l.then 5 (usersText l.owners))))))

def SsLine.entry (l : SsLine) : SocketEntry :=
  ⟨l.proto, l.localAddr.socketAddr, l.peer.socketAddr, l.owners.map Owner.pid⟩

/-! ### Columns -/

variable {s t w : Text} {c : Char}

theorem splitWhitespace_space (hc : isWhitespace c = true) (s t : Text) :
    splitWhitespace (s ++ c :: t) = splitWhitespace s ++ splitWhitespace t := by
  rw [splitWhitespace, List.splitOnP_append_cons s t hc, List.filter_append]
  rfl

theorem splitWhitespace_word (hw : w ≠ []) (h : ∀ c ∈ w, isWhitespace c = false) :
    splitWhitespace w = [w] := by
  rw [splitWhitespace, List.splitOnP_eq_singleton h, List.filter_cons_of_pos (by simpa using hw)]
  rfl

theorem splitWhitespace_ne_nil (hc : isWhitespace c = false) (s : Text) :
    splitWhitespace (c :: s) ≠ [] := by
  obtain ⟨word, words, hwords⟩ := List.exists_cons_of_ne_nil (List.splitOnP_ne_nil isWhitespace s)
  rw [splitWhitespace, List.splitOnP_cons_eq_if_modifyHead, hwords, if_neg (by simp [hc]),
    List.modifyHead_cons, List.filter_cons_of_pos (by simp)]
  exact List.cons_ne_nil _ _

theorem splitWhitespace_spaces (n : Nat) (t : Text) :
    splitWhitespace (List.replicate n ' ' ++ t) = splitWhitespace t := by
  induction n with
  | zero => rfl
  | succ n ih =>
    have hspace := splitWhitespace_space (c := ' ') rfl [] (List.replicate n ' ' ++ t)
    rw [List.replicate_succ, List.cons_append, ← ih]
    exact hspace

theorem SsLine.column (l : SsLine) (k : Nat) (hw : w ≠ []) (h : ∀ c ∈ w, isWhitespace c = false) :
    splitWhitespace (w ++ l.then k t) = w :: splitWhitespace t := by
  rw [SsLine.then, splitWhitespace_space rfl, splitWhitespace_word hw h, splitWhitespace_spaces]
  rfl

theorem digit_plain {n : Nat} : ∀ c ∈ Nat.toDigits 10 n, isWhitespace c = false :=
  fun _ hc => (addrChar_of_mem_toDigits (.inl rfl) hc).plain.1

theorem toDigits_ne_nil (n : Nat) : Nat.toDigits 10 n ≠ [] := by
  obtain ⟨ds, htext, -, hne, -⟩ := exists_toDigits (show 1 < 10 by decide) n
  rw [htext]
  exact mt List.map_eq_nil_iff.mp hne

theorem Endpoint.plain (e : Endpoint) : ∀ c ∈ e.text, isWhitespace c = false := by
  have haddr : ∀ c ∈ e.addr, isWhitespace c = false :=
    fun c hc => AddrLetter.plain (IpAddr.addrLetter_of_parse e.parse_addr c hc) |>.1
  have hzone : ∀ c ∈ zone e.iface, isWhitespace c = false := by
    cases hi : e.iface with
    | none => exact List.forall_mem_nil _
    | some i => exact List.forall_mem_cons.mpr ⟨rfl, e.iface_plain i hi⟩
  rw [Endpoint.text, Endpoint.host]
  cases e.ip with
  | v4 a =>
    simp only [List.forall_mem_append, List.forall_mem_cons]
    exact ⟨⟨haddr, hzone⟩, rfl, digit_plain⟩
  | v6 a =>
    simp only [List.forall_mem_append, List.forall_mem_cons]
    exact ⟨⟨rfl, haddr, rfl, hzone⟩, rfl, digit_plain⟩

theorem SsLine.columns (l : SsLine) : splitWhitespace l.text =
    l.proto :: l.state :: Nat.toDigits 10 l.recvQ :: Nat.toDigits 10 l.sendQ :: l.localAddr.text ::
      l.peer.text :: splitWhitespace (usersText l.owners) := by
  have hproto : l.proto ≠ [] ∧ ∀ c ∈ l.proto, isWhitespace c = false := by
    rcases l.proto_known with h | h
    all_goals
      rw [h]
      exact ⟨by decide, List.all_iff_forall_prop.mp (by decide)⟩
  have haddr (e : Endpoint) : e.text ≠ [] := by simp [Endpoint.text]
  rw [SsLine.text, l.column 0 hproto.1 hproto.2, l.column 1 l.state_word.1 l.state_word.2,
    l.column 2 (toDigits_ne_nil _) digit_plain, l.column 3 (toDigits_ne_nil _) digit_plain,
    l.column 4 (haddr _) l.localAddr.plain, l.column 5 (haddr _) l.peer.plain]

/-! ### Addresses -/

theorem rsplitOnce_append {sep : Char} (h : sep ∉ t) :
    rsplitOnce sep (s ++ sep :: t) = some (s, t) := by
  have hrev : sep ∉ t.reverse := fun hmem => h (List.mem_reverse.mp hmem)
  have hsplit : splitOnce sep (t.reverse ++ sep :: s.reverse) = some (t.reverse, s.reverse) := by
    generalize t.reverse = u at hrev
    induction u with
    | nil => exact if_pos rfl
    | cons c u ih =>
      rw [List.mem_cons, not_or] at hrev
      rw [List.cons_append, splitOnce, if_neg (Ne.symm hrev.1), ih hrev.2]
      rfl
  rw [rsplitOnce, List.reverse_append, List.reverse_cons, List.append_assoc,
    List.singleton_append, hsplit]
  simp

def hostAddr (host : Text) : Option Text :=
  (split '%' (((host.dropWhile (· = '[')).reverse.dropWhile (· = ']')).reverse)).head?

theorem parseSockaddr_text (e : Endpoint) : parseSockaddr e.text =
    ((hostAddr e.host).bind IpAddr.parse).map fun ip => ⟨ip, e.port⟩ := by
  have hcolon : ':' ∉ Nat.toDigits 10 e.port.toNat := by
    intro hmem
    have hdigit := Nat.isDigit_of_mem_toDigits (by decide) (by decide) hmem
    exact absurd hdigit (by decide)
  rw [parseSockaddr, Endpoint.text, rsplitOnce_append hcolon]
  simp only [Option.bind_eq_bind, Option.bind_some, parseU16_toDigits, Option.pure_def]
  rw [← Option.bind_assoc]
  exact (Option.map_eq_bind ..).symm

theorem rdropWhile_append_cons {p : Char → Bool} (hc : p c = false) (s t : Text) :
    (s ++ c :: t).rdropWhile p = s ++ c :: t.rdropWhile p := by
  induction t using List.reverseRecOn with
  | nil =>
    rw [List.rdropWhile_concat_neg p s c (by simp [hc])]
    rfl
  | append_singleton t d ih =>
    rw [← List.cons_append, ← List.append_assoc]
    by_cases hd : p d = true
    · rw [List.rdropWhile_concat_pos p _ d hd, List.rdropWhile_concat_pos p t d hd, ih]
    · rw [List.rdropWhile_concat_neg p _ d hd, List.rdropWhile_concat_neg p t d hd]
      simp

theorem dropOpen (h : ∀ c ∈ s, c ≠ '[') (hs : s ≠ []) (t : Text) :
    (s ++ t).dropWhile (· = '[') = s ++ t := by
  cases s with
  | nil => exact absurd rfl hs
  | cons c s =>
    rw [List.cons_append, List.dropWhile_cons_of_neg]
    simpa using h c List.mem_cons_self

theorem split_head (h : '%' ∉ s) (t : Text) : (split '%' (s ++ '%' :: t)).head? = some s := by
  rw [split_append, split_of_notMem h]
  rfl

theorem rdropWhile_close (h : ']' ∉ s) : s.rdropWhile (· = ']') = s := by
  rw [List.rdropWhile_eq_self_iff]
  intro hs hlast
  exact h (of_decide_eq_true hlast ▸ List.getLast_mem hs)

variable {a : Text} {ip : IpAddr}

theorem ne_nil_of_parse (h : IpAddr.parse a = some ip) : a ≠ [] := by
  rintro rfl
  cases h

theorem hostAddr_bare (h : IpAddr.parse a = some ip) (i : Option Text) :
    hostAddr (a ++ zone i) = some a := by
  have hplain (c : Char) (hc : c ∈ a) := (IpAddr.addrLetter_of_parse h c hc).plain
  have hzone : '%' ∉ a := fun hc => (hplain _ hc).2.1 rfl
  have hclose : ']' ∉ a := fun hc => (hplain _ hc).2.2.2 rfl
  rw [hostAddr, dropOpen (fun c hc => (hplain c hc).2.2.1) (ne_nil_of_parse h)]
  change (split '%' ((a ++ zone i).rdropWhile (· = ']'))).head? = some a
  cases i with
  | none => rw [zone, List.append_nil, rdropWhile_close hclose, split_of_notMem hzone]; rfl
  | some i => rw [zone, rdropWhile_append_cons (by decide), split_head hzone]

theorem hostAddr_bracketed (h : IpAddr.parse a = some ip) (i : Option Text) :
    hostAddr ('[' :: (a ++ ']' :: zone i)) = some (if i = none then a else a ++ [']']) := by
  have hplain (c : Char) (hc : c ∈ a) := (IpAddr.addrLetter_of_parse h c hc).plain
  have hzone : '%' ∉ a := fun hc => (hplain _ hc).2.1 rfl
  have hclose : ']' ∉ a := fun hc => (hplain _ hc).2.2.2 rfl
  rw [hostAddr, List.dropWhile_cons_of_pos (by decide),
    dropOpen (fun c hc => (hplain c hc).2.2.1) (ne_nil_of_parse h)]
  change (split '%' ((a ++ ']' :: zone i).rdropWhile (· = ']'))).head? = _
  cases i with
  | none =>
    rw [zone, List.rdropWhile_concat_pos _ _ _ (by decide), rdropWhile_close hclose,
      split_of_notMem hzone]
    rfl
  | some i =>
    have hzone' : '%' ∉ a ++ [']'] := by simp [hzone]
    rw [zone, List.append_cons, rdropWhile_append_cons (by decide), split_head hzone']
    rfl

def Endpoint.Zoned (e : Endpoint) : Prop := (∃ a, e.ip = .v6 a) ∧ e.iface ≠ none

theorem parseSockaddr_iff (e : Endpoint) :
    (¬e.Zoned → parseSockaddr e.text = some e.socketAddr) ∧
      (e.Zoned → parseSockaddr e.text = none) := by
  rw [parseSockaddr_text, Endpoint.host]
  cases hip : e.ip with
  | v4 v =>
    have hread := hostAddr_bare e.parse_addr e.iface
    refine ⟨fun _ => ?_, fun ⟨⟨w, hw⟩, _⟩ => ?_⟩
    · simp only [hread, Option.bind_some, e.parse_addr, Option.map_some, Endpoint.socketAddr]
    · rw [hip] at hw
      cases hw
  | v6 v =>
    have hread := hostAddr_bracketed e.parse_addr e.iface
    refine ⟨fun hnot => ?_, fun ⟨_, hiface⟩ => ?_⟩
    · have hnone : e.iface = none := by
        by_contra hiface
        exact hnot ⟨⟨v, hip⟩, hiface⟩
      rw [if_pos hnone] at hread
      simp only [hread, Option.bind_some, e.parse_addr, Option.map_some, Endpoint.socketAddr]
    · rw [if_neg hiface] at hread
      have hnone : IpAddr.parse (e.addr ++ [']']) = none := by
        cases hp : IpAddr.parse (e.addr ++ [']']) with
        | none => rfl
        | some ip =>
          have hletter := IpAddr.addrLetter_of_parse hp ']' (by simp)
          exact absurd rfl hletter.plain.2.2.2
      simp only [hread, Option.bind_some, hnone, Option.map_none]

/-! ### Owners -/

def pidsIn : Text → List UInt32
  | 'p' :: 'i' :: 'd' :: '=' :: s => (parseU32 (s.takeWhile Char.isDigit)).toList ++ pidsIn s
  | _ :: s => pidsIn s
  | [] => []

theorem mark_eq : "pid=".toList = ['p', 'i', 'd', '='] := by decide

theorem pidsIn_mark (s : Text) : pidsIn ('p' :: 'i' :: 'd' :: '=' :: s) =
    (parseU32 (s.takeWhile Char.isDigit)).toList ++ pidsIn s := by
  rw [pidsIn]

theorem pidsIn_cons (h : ¬"pid=".toList <+: c :: s) : pidsIn (c :: s) = pidsIn s := by
  rw [pidsIn]
  rintro t rfl rfl
  rw [mark_eq] at h
  exact h ⟨t, rfl⟩

theorem pidsIn_cons_of_ne (hc : c ≠ 'p') : pidsIn (c :: s) = pidsIn s := by
  refine pidsIn_cons fun h => hc ?_
  rw [mark_eq, List.cons_prefix_cons] at h
  exact h.1.symm

theorem splitStrFrom_pids (s : Text) (skip : Nat) : ∃ piece rest,
    splitStrFrom "pid=".toList skip s = piece :: rest ∧
      piece.takeWhile Char.isDigit = (s.drop skip).takeWhile Char.isDigit ∧
      rest.filterMap (fun p => parseU32 (p.takeWhile Char.isDigit)) = pidsIn (s.drop skip) := by
  induction s generalizing skip with
  | nil => exact ⟨[], [], by simp [splitStrFrom, pidsIn]⟩
  | cons c cs ih =>
    cases skip with
    | succ skip => exact ih skip
    | zero =>
      rw [splitStrFrom, List.drop_zero]
      by_cases hmark : "pid=".toList <+: c :: cs
      · rw [if_pos (List.isPrefixOf_iff_prefix.mpr hmark)]
        rw [mark_eq] at hmark
        obtain ⟨t, ht⟩ := hmark
        obtain ⟨rfl, rfl⟩ := List.cons_eq_cons.mp ht
        obtain ⟨piece, rest, hsplit, hdigits, hrest⟩ := ih 3
        refine ⟨[], piece :: rest, congrArg _ hsplit, rfl, ?_⟩
        change _ = pidsIn ('p' :: 'i' :: 'd' :: '=' :: t)
        change piece.takeWhile Char.isDigit = t.takeWhile Char.isDigit at hdigits
        rw [pidsIn_mark, List.filterMap_cons, hdigits, hrest]
        cases parseU32 (t.takeWhile Char.isDigit) <;> rfl
      · obtain ⟨piece, rest, hsplit, hdigits, hrest⟩ := ih 0
        rw [List.drop_zero] at hdigits hrest
        refine ⟨c :: piece, rest, ?_, ?_, ?_⟩
        · rw [if_neg (mt List.isPrefixOf_iff_prefix.mp hmark), hsplit]
        · rw [List.takeWhile_cons, List.takeWhile_cons, hdigits]
        · rw [hrest, pidsIn_cons hmark]

theorem splitStr_pids (s : Text) : ((splitStr "pid=".toList s).drop 1).filterMap
    (fun p => parseU32 (p.takeWhile Char.isDigit)) = pidsIn s := by
  obtain ⟨piece, rest, hsplit, -, hrest⟩ := splitStrFrom_pids s 0
  rw [splitStr, hsplit]
  exact hrest

def Apart (c : Char) : Prop := c ∉ "pid=".toList ∧ c.isDigit = false

theorem takeWhile_append_cons {p : Char → Bool} (hc : p c = false) (s t : Text) :
    (s ++ c :: t).takeWhile p = s.takeWhile p := by
  rw [List.takeWhile_append]
  split
  next hall =>
    rw [List.takeWhile_cons_of_neg (by simp [hc]), List.append_nil]
    exact ((List.takeWhile_prefix p).eq_of_length hall).symm
  next => rfl

theorem pidsIn_piecewise : Piecewise Apart pidsIn where
  nil := rfl
  append a c b hc := by
    have hne : c ≠ 'p' := by
      rintro rfl
      exact hc.1 (by decide)
    induction a using pidsIn.induct with
    | case1 t ih =>
      rw [pidsIn_mark, List.append_assoc, ← ih, ← takeWhile_append_cons hc.2 t b]
      exact pidsIn_mark (t ++ c :: b)
    | case2 x t hmark ih =>
      have hcons : ¬"pid=".toList <+: x :: t := by
        rw [mark_eq]
        rintro ⟨u, hu⟩
        obtain ⟨rfl, rfl⟩ := List.cons_eq_cons.mp hu
        exact hmark u rfl rfl
      have hmore : ¬"pid=".toList <+: (x :: t) ++ c :: b := mt (prefix_append_cons hc.1).mp hcons
      rw [pidsIn_cons hcons, ← ih]
      exact pidsIn_cons hmore
    | case3 => exact pidsIn_cons_of_ne hne

theorem pidsIn_of_notMem (h : 'p' ∉ s) : pidsIn s = [] := by
  induction s with
  | nil => rfl
  | cons c s ih =>
    rw [List.mem_cons, not_or] at h
    rw [pidsIn_cons_of_ne (Ne.symm h.1), ih h.2]

theorem space_apart (hc : isWhitespace c = true) : Apart c := by
  have hletter : ∀ d ∈ ['p', 'i', 'd', '='], isWhitespace d = false :=
    List.all_iff_forall_prop.mp (by decide)
  refine ⟨fun hmem => ?_, ?_⟩
  · rw [mark_eq] at hmem
    rw [hletter c hmem] at hc
    cases hc
  · rw [Bool.eq_false_iff, ne_eq, Char.isDigit_iff_toNat]
    simp only [isWhitespace, Bool.or_eq_true, Bool.and_eq_true, decide_eq_true_eq,
      beq_iff_eq] at hc
    have hzero : '0'.toNat = 48 := rfl
    have hnine : '9'.toNat = 57 := rfl
    omega

theorem pidsIn_words (s : Text) : pidsIn ([' '].intercalate (splitWhitespace s)) = pidsIn s := by
  have hempty (words : List Text) :
      (words.filter (· ≠ [])).flatMap pidsIn = words.flatMap pidsIn := by
    induction words with
    | nil => rfl
    | cons w words ih =>
      by_cases hw : w = []
      · rw [List.filter_cons_of_neg (by simp [hw]), ih, hw]
        rfl
      · rw [List.filter_cons_of_pos (by simp [hw]), List.flatMap_cons, List.flatMap_cons, ih]
  rw [pidsIn_piecewise.intercalate (space_apart rfl), splitWhitespace, hempty,
    pidsIn_piecewise.splitOnP fun _ => space_apart]

theorem Owner.pidsIn_text (o : Owner) : pidsIn o.text = pidsIn o.comm ++ [o.pid] := by
  have hdigit {n : Nat} : ∀ d ∈ Nat.toDigits 10 n, d.isDigit = true :=
    fun d => Nat.isDigit_of_mem_toDigits (by decide) (by decide)
  have hnumber (n : Nat) : 'p' ∉ Nat.toDigits 10 n := by
    intro hmem
    exact absurd (hdigit _ hmem) (by decide)
  have hpid : pidsIn o.pidField = [o.pid] := by
    rw [pidField, mark_eq]
    change pidsIn ('p' :: 'i' :: 'd' :: '=' :: Nat.toDigits 10 o.pid.toNat) = [o.pid]
    rw [pidsIn_mark, pidsIn_of_notMem (hnumber _), List.takeWhile_eq_self_iff.mpr hdigit,
      parseU32_toDigits]
    rfl
  have hfd : pidsIn (o.fdField ++ [')']) = [] := by
    refine pidsIn_of_notMem ?_
    simp [fdField, hnumber]
  have hquote : Apart '\"' := ⟨by decide, rfl⟩
  have hcomma : Apart ',' := ⟨by decide, rfl⟩
  rw [Owner.text, pidsIn_cons_of_ne (by decide), pidsIn_cons_of_ne (by decide),
    pidsIn_piecewise.append _ _ _ hquote, pidsIn_cons_of_ne (by decide),
    pidsIn_piecewise.append _ _ _ hcomma, hpid, hfd, List.append_nil]

theorem pidsIn_usersText (owners : List Owner) :
    pidsIn (usersText owners) = owners.flatMap fun o => pidsIn o.comm ++ [o.pid] := by
  have hcolon : Apart ':' := ⟨by decide, rfl⟩
  have hclose : Apart ')' := ⟨by decide, rfl⟩
  have hcomma : Apart ',' := ⟨by decide, rfl⟩
  have husers : pidsIn "users".toList = [] := pidsIn_of_notMem (by decide)
  rw [usersText, pidsIn_piecewise.append _ _ _ hcolon, husers, pidsIn_cons_of_ne (by decide),
    pidsIn_piecewise.concat hclose, pidsIn_piecewise.intercalate hcomma, List.flatMap_map]
  simp only [Owner.pidsIn_text, List.nil_append]

/-! ### Names with numbers of their own -/

theorem pidsIn_subset_cons (c : Char) (s : Text) : pidsIn s ⊆ pidsIn (c :: s) := by
  by_cases hmark : "pid=".toList <+: c :: s
  · rw [mark_eq] at hmark
    obtain ⟨t, ht⟩ := hmark
    obtain ⟨rfl, rfl⟩ := List.cons_eq_cons.mp ht
    change pidsIn ('i' :: 'd' :: '=' :: t) ⊆ pidsIn ('p' :: 'i' :: 'd' :: '=' :: t)
    rw [pidsIn_mark, pidsIn_cons_of_ne (by decide), pidsIn_cons_of_ne (by decide),
      pidsIn_cons_of_ne (by decide)]
    exact List.subset_append_right _ _
  · rw [pidsIn_cons hmark]
    exact List.Subset.refl _

theorem mem_pidsIn {n : UInt32} : n ∈ pidsIn s ↔ ∃ before after,
    s = before ++ "pid=".toList ++ after ∧ parseU32 (after.takeWhile Char.isDigit) = some n := by
  constructor
  · intro hn
    induction s using pidsIn.induct with
    | case1 t ih =>
      rw [pidsIn_mark, List.mem_append, Option.mem_toList] at hn
      rcases hn with hn | hn
      · exact ⟨[], t, by rw [mark_eq]; rfl, hn⟩
      · obtain ⟨before, after, rfl, hread⟩ := ih hn
        exact ⟨"pid=".toList ++ before, after, by rw [mark_eq]; simp, hread⟩
    | case2 c t hmark ih =>
      rw [pidsIn] at hn
      · obtain ⟨before, after, rfl, hread⟩ := ih hn
        exact ⟨c :: before, after, rfl, hread⟩
      · exact hmark
    | case3 => cases hn
  · rintro ⟨before, after, rfl, hread⟩
    induction before with
    | nil =>
      rw [List.nil_append, mark_eq]
      change n ∈ pidsIn ('p' :: 'i' :: 'd' :: '=' :: after)
      rw [pidsIn_mark, hread]
      exact List.mem_cons_self
    | cons c before ih => exact pidsIn_subset_cons c _ ih

/-- A process name with a number behind a mark. -/
def Owner.Misleading (o : Owner) : Prop := ∃ before after n,
  o.comm = before ++ "pid=".toList ++ after ∧ parseU32 (after.takeWhile Char.isDigit) = some n

theorem Owner.pidsIn_comm (o : Owner) : pidsIn o.comm = [] ↔ ¬o.Misleading := by
  rw [List.eq_nil_iff_forall_not_mem, Misleading]
  constructor
  · rintro h ⟨before, after, n, hcomm, hread⟩
    exact h n (mem_pidsIn.mpr ⟨before, after, hcomm, hread⟩)
  · intro h n hn
    obtain ⟨before, after, hcomm, hread⟩ := mem_pidsIn.mp hn
    exact h ⟨before, after, n, hcomm, hread⟩

theorem ownPids_iff (owners : List Owner) :
    (owners.flatMap fun o => pidsIn o.comm ++ [o.pid]) = owners.map Owner.pid ↔
      ∀ o ∈ owners, ¬o.Misleading := by
  have hlen (os : List Owner) :
      os.length ≤ (os.flatMap fun o => pidsIn o.comm ++ [o.pid]).length := by
    induction os with
    | nil => exact Nat.le_refl 0
    | cons o os ih =>
      simp only [List.flatMap_cons, List.length_append, List.length_cons, List.length_nil]
      omega
  induction owners with
  | nil => simp
  | cons o os ih =>
    rw [List.flatMap_cons, List.map_cons, List.forall_mem_cons]
    refine Iff.trans ?_ (and_congr o.pidsIn_comm ih)
    constructor
    · intro heq
      have hcomm : pidsIn o.comm = [] := by
        have hlens := congrArg List.length heq
        have hrest := hlen os
        simp only [List.length_append, List.length_cons, List.length_nil, List.length_map] at hlens
        exact List.eq_nil_of_length_eq_zero (by omega)
      rw [hcomm] at heq
      exact ⟨hcomm, (List.cons_eq_cons.mp heq).2⟩
    · rintro ⟨hcomm, hrest⟩
      rw [hcomm, hrest]
      rfl

/-! ### Whole lines -/

theorem parseSsLine_text (l : SsLine) : parseSsLine l.text =
    (parseSockaddr l.localAddr.text).bind fun localAddr =>
      (parseSockaddr l.peer.text).map fun peer =>
        ⟨l.proto, localAddr, peer, l.owners.flatMap fun o => pidsIn o.comm ++ [o.pid]⟩ := by
  have hproto : ¬(l.proto ≠ "tcp".toList ∧ l.proto ≠ "udp".toList) := by
    rintro ⟨htcp, hudp⟩
    exact l.proto_known.elim htcp hudp
  have hwords : splitWhitespace (usersText l.owners) ≠ [] :=
    splitWhitespace_ne_nil (show isWhitespace 'u' = false by decide) _
  obtain ⟨users, more, husers⟩ := List.exists_cons_of_ne_nil hwords
  have hpids := pidsIn_words (usersText l.owners)
  rw [husers, pidsIn_usersText] at hpids
  rw [parseSsLine, l.columns, husers]
  simp only [if_neg hproto, splitStr_pids, hpids, Option.map_eq_bind]
  rfl

/-- A line is read back exactly when neither address is an IPv6 one with an interface and no
process name holds a number behind a mark. -/
theorem parseSsLine_exact_iff (l : SsLine) : parseSsLine l.text = some l.entry ↔
    ¬l.localAddr.Zoned ∧ ¬l.peer.Zoned ∧ ∀ o ∈ l.owners, ¬o.Misleading := by
  rw [parseSsLine_text]
  by_cases hlocal : l.localAddr.Zoned
  · rw [(parseSockaddr_iff l.localAddr).2 hlocal]
    exact ⟨nofun, fun h => absurd hlocal h.1⟩
  by_cases hpeer : l.peer.Zoned
  · rw [(parseSockaddr_iff l.localAddr).1 hlocal, (parseSockaddr_iff l.peer).2 hpeer]
    exact ⟨nofun, fun h => absurd hpeer h.2.1⟩
  rw [(parseSockaddr_iff l.localAddr).1 hlocal, (parseSockaddr_iff l.peer).1 hpeer, ← ownPids_iff]
  simp only [Option.bind_some, Option.map_some, Option.some.injEq, SsLine.entry,
    SocketEntry.mk.injEq, true_and]
  exact ⟨fun h => ⟨hlocal, hpeer, h⟩, fun h => h.2.2⟩

def renewal : SsLine where
  proto := "udp".toList
  state := "ESTAB".toList
  recvQ := 0
  sendQ := 0
  localAddr := ⟨.v6 ⟨#v[0xfe80, 0, 0, 0, 0, 0, 0, 1]⟩, "fe80::1".toList, 546, some "eth0".toList,
    by decide +kernel, by simp; decide⟩
  peer := ⟨.v6 ⟨#v[0xfe80, 0, 0, 0, 0, 0, 0, 2]⟩, "fe80::2".toList, 547, none,
    by decide +kernel, nofun⟩
  owners := [⟨"dhclient".toList, 7, 3⟩]
  pad := fun _ => 0
  proto_known := .inr rfl
  state_word := ⟨by decide, List.all_iff_forall_prop.mp (by decide)⟩
  owners_ne_nil := List.cons_ne_nil _ _

def impostor : SsLine where
  proto := "tcp".toList
  state := "ESTAB".toList
  recvQ := 0
  sendQ := 0
  localAddr := ⟨.v4 ⟨#v[10, 0, 0, 2]⟩, "10.0.0.2".toList, 43210, none, by decide +kernel, nofun⟩
  peer := ⟨.v4 ⟨#v[9, 9, 9, 9]⟩, "9.9.9.9".toList, 443, none, by decide +kernel, nofun⟩
  owners := [⟨"x pid=1".toList, 7, 3⟩]
  pad := fun _ => 0
  proto_known := .inl rfl
  state_word := ⟨by decide, List.all_iff_forall_prop.mp (by decide)⟩
  owners_ne_nil := List.cons_ne_nil _ _

theorem lines_misread :
    renewal.text =
      "udp ESTAB 0 0 [fe80::1]%eth0:546 [fe80::2]:547 users:((\"dhclient\",pid=7,fd=3))".toList ∧
    parseSsLine renewal.text ≠ some renewal.entry ∧
    impostor.text =
      "tcp ESTAB 0 0 10.0.0.2:43210 9.9.9.9:443 users:((\"x pid=1\",pid=7,fd=3))".toList ∧
    parseSsLine impostor.text ≠ some impostor.entry := by
  refine ⟨?_, ?_, ?_, ?_⟩
  all_goals decide +kernel

end Detour.Attach
