import Detour.Tunnel.Parse

/-! The format that `WgConfig::parse` accepts, said without a loop, and that it accepts just
that. -/

namespace Detour.Tunnel

open Detour.Rust Sections

/-! ### The format -/

structure Entry where
  key : Text
  value : Text
  deriving DecidableEq

def entryOf (line : Text) : Option Entry :=
  (splitOnce '=' line).map fun (key, value) => ⟨toAsciiLowercase (trim key), trim value⟩

def contentLines (text : Text) : List Text := ((lines text).map content).filter (· ≠ [])

def sections (text : Text) : List Text × List (Block Text) := blocks isHeader (contentLines text)

def entries (b : Block Text) : List Entry := b.lines.filterMap entryOf

def entriesIn (sect : Section) (b : Block Text) : List Entry :=
  if sectionOf b.header = some sect then entries b else []

def Section.keys : Section → List Text
  | .outside => []
  | .interface => INTERFACE_KEYS
  | .peer => PEER_KEYS

structure WellFormed (preamble : List Text) (bs : List (Block Text)) : Prop where
  /-- No key precedes the first header. -/
  preamble : preamble = []
  headers : ∀ b ∈ bs, sectionOf b.header ≠ none
  entries : ∀ b ∈ bs, ∀ l ∈ b.lines, '=' ∈ l
  mtu : ∀ b ∈ bs, ∀ e ∈ entriesIn .interface b, e.key = "mtu".toList → parseU32 e.value ≠ none
  privateKey : ∃ b ∈ bs, ∃ e ∈ entriesIn .interface b, e.key = "privatekey".toList
  peer : ∃ b ∈ bs, sectionOf b.header = some .peer
  publicKeys : ∀ b ∈ bs, sectionOf b.header = some .peer →
    ∃ e ∈ entriesIn .peer b, e.key = "publickey".toList
  address : ∃ b ∈ bs, ∃ e ∈ entriesIn .interface b, e.key = "address".toList ∧
    ∃ item ∈ split ',' e.value, isIpv4Cidr (trim item) = true

/-! ### What is passed on -/

def allowed (b : Block Text) : List Text := ((sectionOf b.header).map Section.keys).getD []

/-- The header of a section, and a line for each of its entries that is passed on. -/
def passedOn (b : Block Text) : Text := b.header ++ ['\n'] ++
  ((entries b).filter fun e => e.key ∈ allowed b).flatMap fun e => entryLine e.key e.value

def setconfOf (bs : List (Block Text)) : Text := bs.flatMap passedOn

def addressesOf (bs : List (Block Text)) : List Text := bs.flatMap fun b =>
  ((entriesIn .interface b).filter fun e => e.key = "address".toList).flatMap
    fun e => ipv4Items e.value

def valueOf (key : Text) (e : Entry) : Option Text := if e.key = key then some e.value else none

def mtuOf (bs : List (Block Text)) : Option UInt32 := bs.reverse.findSome? fun b =>
  (entriesIn .interface b).reverse.findSome? fun e => (valueOf "mtu".toList e).bind parseU32

def endpointOf (bs : List (Block Text)) : Option Text :=
  bs.findSome? fun b => (entriesIn .peer b).findSome? (valueOf "endpoint".toList)

def configOf (bs : List (Block Text)) : WgConfig :=
  ⟨addressesOf bs, mtuOf bs, setconfOf bs, endpointOf bs⟩

/-! ### One line -/

variable {st t : Parser} {sect : Section} {key value line : Text} {e : Entry}

def Parser.readContent (st : Parser) (line : Text) : Except TunnelError Parser :=
  if isHeader line then st.readHeader line else st.readEntry line

theorem foldlM_content (ls : List Text) (st : Parser) :
    ls.foldlM Parser.readLine st =
      ((ls.map content).filter (· ≠ [])).foldlM Parser.readContent st := by
  induction ls generalizing st with
  | nil => rfl
  | cons l ls ih =>
    rw [List.foldlM_cons, List.map_cons]
    by_cases h : content l = []
    · rw [List.filter_cons_of_neg (by simpa using h), Parser.readLine, if_pos h]
      exact ih st
    · rw [List.filter_cons_of_pos (by simpa using h), List.foldlM_cons, Parser.readLine, if_neg h]
      congr 1
      funext u
      exact ih u

def Parser.addEntry (sect : Section) (st : Parser) (e : Entry) : Parser :=
  match sect with
  | .outside => st
  | .interface => { st with
      addressesV4 := st.addressesV4 ++
        if e.key = "address".toList then ipv4Items e.value else []
      mtu := ((valueOf "mtu".toList e).bind parseU32).or st.mtu
      hasPrivateKey := st.hasPrivateKey || e.key == "privatekey".toList
      setconf := st.setconf ++ if e.key ∈ INTERFACE_KEYS then entryLine e.key e.value else [] }
  | .peer => st.readPeer e.key e.value

theorem readInterface_ok_iff : st.readInterface key value = .ok t ↔
    (key = "mtu".toList → parseU32 value ≠ none) ∧ t = st.addEntry .interface ⟨key, value⟩ := by
  have haddressKey : "address".toList ∉ INTERFACE_KEYS := by decide
  have hmtuKey : "mtu".toList ∉ INTERFACE_KEYS := by decide
  have hprivateKey : "privatekey".toList ∈ INTERFACE_KEYS := by decide
  have hmtuAddress : "address".toList ≠ "mtu".toList := by decide
  unfold Parser.readInterface Parser.addEntry valueOf
  by_cases hkey : key ∈ INTERFACE_KEYS
  · have haddress : key ≠ "address".toList := fun h => haddressKey (h ▸ hkey)
    have hmtu : key ≠ "mtu".toList := fun h => hmtuKey (h ▸ hkey)
    rw [if_neg haddress, if_neg hmtu, if_pos hkey]
    simp only [if_neg haddress, if_neg hmtu, if_pos hkey, List.append_nil, Option.bind_none,
      Option.none_or, Except.ok.injEq]
    exact ⟨fun h => ⟨fun h => absurd h hmtu, h.symm⟩, fun h => h.2.symm⟩
  · have hprivate : (key == "privatekey".toList) = false :=
      beq_eq_false_iff_ne.mpr fun h => hkey (h ▸ hprivateKey)
    simp only [if_neg hkey, hprivate, Bool.or_false, List.append_nil]
    by_cases haddress : key = "address".toList
    · have hmtu : key ≠ "mtu".toList := fun h => hmtuAddress (haddress.symm.trans h)
      simp only [if_pos haddress, if_neg hmtu, Option.bind_none, Option.none_or, Except.ok.injEq]
      exact ⟨fun h => ⟨fun h => absurd h hmtu, h.symm⟩, fun h => h.2.symm⟩
    · simp only [if_neg haddress, List.append_nil]
      by_cases hmtu : key = "mtu".toList
      · simp only [if_pos hmtu, Option.bind_some]
        cases parseU32 value with
        | none => exact ⟨nofun, fun h => absurd rfl (h.1 hmtu)⟩
        | some n => exact ⟨fun h => ⟨fun _ => nofun, (Except.ok.inj h).symm⟩,
            fun h => congrArg Except.ok h.2.symm⟩
      · simp only [if_neg hmtu, Option.bind_none, Option.none_or, Except.ok.injEq]
        exact ⟨fun h => ⟨fun h => absurd h hmtu, h.symm⟩, fun h => h.2.symm⟩

def AcceptsEntry (sect : Section) (line : Text) : Prop :=
  ∃ e, entryOf line = some e ∧
    (sect = .interface → e.key = "mtu".toList → parseU32 e.value ≠ none)

def Parser.addLine (sect : Section) (st : Parser) (line : Text) : Parser :=
  match entryOf line with
  | some e => st.addEntry sect e
  | none => st

theorem addEntry_sect : (st.addEntry sect e).sect = st.sect := by
  cases sect with
  | outside | interface => rfl
  | peer =>
    change (st.readPeer e.key e.value).sect = st.sect
    unfold Parser.readPeer
    split <;> rfl

theorem readEntry_round (hsect : sect ≠ .outside) :
    Round Parser.readContent (fun l => isHeader l = false) (fun st => st.sect = sect)
      (AcceptsEntry sect) (Parser.addLine sect) where
  keeps st l h := by
    unfold Parser.addLine
    split
    · rw [addEntry_sect, h]
    · exact h
  ok_iff st l t hl h := by
    rw [Parser.readContent, hl]
    simp only [Bool.false_eq_true, if_false, Parser.readEntry, AcceptsEntry, Parser.addLine,
      entryOf, h]
    cases splitOnce '=' l with
    | none => exact ⟨nofun, fun ⟨⟨_, h, _⟩, _⟩ => nomatch h⟩
    | some kv =>
      obtain ⟨key, value⟩ := kv
      simp only [Option.map_some, Option.some.injEq, exists_eq_left']
      cases sect with
      | outside => exact absurd rfl hsect
      | interface =>
        simp only [readInterface_ok_iff, true_implies]
      | peer =>
        simp only [Except.ok.injEq, reduceCtorEq, false_implies, true_and]
        exact eq_comm

/-! ### One section -/

def Parser.enter (st : Parser) (b : Block Text) : Parser := { st with
  sect := (sectionOf b.header).getD .outside
  peers := if sectionOf b.header = some .peer then st.peers + 1 else st.peers
  peerHasKey := st.peerHasKey ++ if sectionOf b.header = some .peer then [false] else []
  setconf := st.setconf ++ (b.header ++ ['\n']) }

theorem readHeader_ok_iff {b : Block Text} : st.readHeader b.header = .ok t ↔
    sectionOf b.header ≠ none ∧ t = st.enter b := by
  unfold Parser.readHeader Parser.enter
  split
  · rename_i h
    simp only [h, Option.getD_some, if_true, List.append_assoc, ne_eq, reduceCtorEq,
      not_false_eq_true, true_and, Except.ok.injEq]
    exact eq_comm
  · rename_i sect hpeer h
    have hne : sect ≠ .peer := fun heq => hpeer heq
    simp [h, hne, eq_comm]
  · rename_i h
    simp [h]

def AcceptsBlock (b : Block Text) : Prop :=
  ∃ sect, sectionOf b.header = some sect ∧ ∀ l ∈ b.lines, AcceptsEntry sect l

def Parser.addBlock (st : Parser) (b : Block Text) : Parser :=
  b.lines.foldl (Parser.addLine ((sectionOf b.header).getD .outside)) (st.enter b)

theorem sectionOf_ne_outside (line : Text) : sectionOf line ≠ some .outside := by
  unfold sectionOf
  split
  · nofun
  · split <;> nofun

theorem readBlock_round : Round (fun st (b : Block Text) => b.toList.foldlM Parser.readContent st)
    (fun b => isHeader b.header = true ∧ ∀ l ∈ b.lines, isHeader l = false) (fun _ => True)
    AcceptsBlock Parser.addBlock where
  keeps _ _ _ := trivial
  ok_iff st b t hb _ := by
    rw [Block.toList, List.foldlM_cons, Parser.readContent, if_pos hb.1]
    cases hsect : sectionOf b.header with
    | none =>
      cases hhead : st.readHeader b.header with
      | error e =>
        constructor
        · intro h
          cases h
        · rintro ⟨⟨_, h, _⟩, _⟩
          cases hsect.symm.trans h
      | ok u => exact absurd hsect (readHeader_ok_iff.mp hhead).1
    | some sect =>
      have hne : sect ≠ .outside := fun h => sectionOf_ne_outside b.header (h ▸ hsect)
      have hhead : st.readHeader b.header = .ok (st.enter b) :=
        readHeader_ok_iff.mpr ⟨hsect ▸ Option.some_ne_none sect, rfl⟩
      have henter : (st.enter b).sect = sect := by rw [Parser.enter, hsect, Option.getD_some]
      have hlines := (readEntry_round hne).foldlM_ok_iff henter hb.2 (t := t)
      rw [hhead]
      refine hlines.trans ?_
      simp only [AcceptsBlock, hsect, Option.some.injEq, exists_eq_left', Parser.addBlock,
        Option.getD_some]

/-! ### All sections -/

theorem preamble_ok_iff {pre : List Text} (hpre : ∀ l ∈ pre, isHeader l = false) :
    pre.foldlM Parser.readContent .start = .ok t ↔ pre = [] ∧ t = .start := by
  cases pre with
  | nil => exact ⟨fun h => ⟨rfl, (Except.ok.inj h).symm⟩, fun h => congrArg Except.ok h.2.symm⟩
  | cons l ls =>
    refine ⟨fun h => ?_, fun h => nomatch h.1⟩
    rw [List.foldlM_cons, Parser.readContent, hpre l List.mem_cons_self] at h
    simp only [Bool.false_eq_true, if_false, Parser.readEntry, Parser.start] at h
    cases hsplit : splitOnce '=' l with
    | none =>
      rw [hsplit] at h
      cases h
    | some kv =>
      rw [hsplit] at h
      cases h

def Parser.over (bs : List (Block Text)) : Parser := bs.foldl Parser.addBlock .start

theorem foldlM_ok_iff {text : Text} : (lines text).foldlM Parser.readLine .start = .ok t ↔
    (sections text).1 = [] ∧ (∀ b ∈ (sections text).2, AcceptsBlock b) ∧
      t = .over (sections text).2 := by
  obtain ⟨hpre, hbs⟩ := blocks_isHeader isHeader (contentLines text)
  rw [foldlM_content]
  change (contentLines text).foldlM Parser.readContent .start = .ok t ↔ _
  rw [← blocks_append isHeader (contentLines text), foldlM_append_ok]
  simp only [preamble_ok_iff hpre, foldlM_flatMap]
  constructor
  · rintro ⟨_, ⟨hnil, rfl⟩, h⟩
    exact ⟨hnil, (readBlock_round.foldlM_ok_iff trivial hbs).mp h⟩
  · rintro ⟨hnil, h⟩
    exact ⟨_, ⟨hnil, rfl⟩, (readBlock_round.foldlM_ok_iff trivial hbs).mpr h⟩

/-! ### What a section adds -/

variable {b : Block Text}

theorem addBlock_eq (h : sectionOf b.header = some sect) :
    st.addBlock b = (entries b).foldl (Parser.addEntry sect) (st.enter b) := by
  rw [Parser.addBlock, entries, List.foldl_filterMap, h]
  congr 1
  funext st l
  unfold Parser.addLine
  cases entryOf l <;> rfl

theorem addBlock_none (h : sectionOf b.header = none) : st.addBlock b = st.enter b := by
  have hline : ∀ (st : Parser) (l : Text), st.addLine .outside l = st := by
    intro st l
    unfold Parser.addLine
    split <;> rfl
  rw [Parser.addBlock, h]
  exact foldl_same id hline b.lines (st.enter b)

theorem addBlock_field {γ : Type} (field : Parser → γ)
    (hother : ∀ kind st e, kind ≠ sect → field (Parser.addEntry kind st e) = field st) :
    field (st.addBlock b) =
      field ((entriesIn sect b).foldl (Parser.addEntry sect) (st.enter b)) := by
  cases h : sectionOf b.header with
  | none => simp [addBlock_none h, entriesIn, h]
  | some kind =>
    rw [addBlock_eq h]
    by_cases hkind : kind = sect
    · subst hkind
      rw [entriesIn, if_pos h]
    · have hne : sectionOf b.header ≠ some sect := fun heq =>
        hkind (Option.some.inj (h.symm.trans heq))
      rw [entriesIn, if_neg hne]
      exact foldl_same field (fun st e => hother kind st e hkind) (entries b) (st.enter b)

theorem addEntry_setconf (st : Parser) (sect : Section) (e : Entry) : (st.addEntry sect e).setconf =
    st.setconf ++ if e.key ∈ sect.keys then entryLine e.key e.value else [] := by
  cases sect with
  | outside => simp [Parser.addEntry, Section.keys]
  | interface => rfl
  | peer =>
    by_cases hkey : e.key ∈ PEER_KEYS
    · simp only [Parser.addEntry, Parser.readPeer, Section.keys, hkey, if_true]
    · simp only [Parser.addEntry, Parser.readPeer, Section.keys, hkey, if_false, List.append_nil]

theorem addBlock_setconf (st : Parser) (b : Block Text) :
    (st.addBlock b).setconf = st.setconf ++ passedOn b := by
  cases h : sectionOf b.header with
  | none => simp [addBlock_none h, Parser.enter, passedOn, allowed, h]
  | some sect =>
    have hfield := foldl_append Parser.setconf _ (fun st e => addEntry_setconf st sect e)
      (entries b) (st.enter b)
    have hfilter := flatMap_filter (fun e => decide (e.key ∈ sect.keys))
      (fun e => entryLine e.key e.value) (entries b)
    simp only [decide_eq_true_eq] at hfilter
    rw [addBlock_eq h, hfield, hfilter]
    simp [Parser.enter, passedOn, allowed, h]

theorem readPeer_interface (st : Parser) (key value : Text) :
    (st.readPeer key value).addressesV4 = st.addressesV4 ∧
      (st.readPeer key value).mtu = st.mtu ∧
      (st.readPeer key value).hasPrivateKey = st.hasPrivateKey := by
  unfold Parser.readPeer
  split <;> exact ⟨rfl, rfl, rfl⟩

theorem addBlock_interface {γ : Type} (field : Parser → γ)
    (hpeer : ∀ st key value, field (Parser.readPeer st key value) = field st) :
    field (st.addBlock b) =
      field ((entriesIn .interface b).foldl (Parser.addEntry .interface) (st.enter b)) := by
  apply addBlock_field field
  intro kind st e hkind
  cases kind with
  | outside => rfl
  | interface => exact absurd rfl hkind
  | peer => exact hpeer st e.key e.value

theorem addBlock_addressesV4 (st : Parser) (b : Block Text) :
    (st.addBlock b).addressesV4 = st.addressesV4 ++
      ((entriesIn .interface b).filter fun e => e.key = "address".toList).flatMap
        fun e => ipv4Items e.value := by
  have hfield := foldl_append Parser.addressesV4 _ (g := Parser.addEntry .interface)
    (fun st e => rfl) (entriesIn .interface b) (st.enter b)
  have hfilter := flatMap_filter (fun e => decide (e.key = "address".toList))
    (fun e => ipv4Items e.value) (entriesIn .interface b)
  simp only [decide_eq_true_eq] at hfilter
  rw [addBlock_interface Parser.addressesV4 fun st key value => (readPeer_interface st key value).1,
    hfield, hfilter]
  rfl

theorem addBlock_mtu (st : Parser) (b : Block Text) :
    (st.addBlock b).mtu = ((entriesIn .interface b).reverse.findSome?
    fun e => (valueOf "mtu".toList e).bind parseU32).or st.mtu := by
  rw [addBlock_interface Parser.mtu fun st key value => (readPeer_interface st key value).2.1]
  exact foldl_last Parser.mtu _ (fun st e => rfl) _ _

theorem addBlock_hasPrivateKey (st : Parser) (b : Block Text) : (st.addBlock b).hasPrivateKey =
    (st.hasPrivateKey || (entriesIn .interface b).any fun e => e.key == "privatekey".toList) := by
  rw [addBlock_interface Parser.hasPrivateKey fun st key value =>
    (readPeer_interface st key value).2.2]
  exact foldl_any Parser.hasPrivateKey _ (fun st e => rfl) _ _

theorem addBlock_peer {γ : Type} (field : Parser → γ)
    (hinterface : ∀ st e, field (Parser.addEntry .interface st e) = field st) :
    field (st.addBlock b) =
      field ((entriesIn .peer b).foldl (Parser.addEntry .peer) (st.enter b)) := by
  apply addBlock_field field
  intro kind st e hkind
  cases kind with
  | outside => rfl
  | interface => exact hinterface st e
  | peer => exact absurd rfl hkind

theorem readPeer_endpoint (st : Parser) (e : Entry) : (st.addEntry .peer e).endpoint =
    st.endpoint.or (valueOf "endpoint".toList e) := by
  have hmem : "endpoint".toList ∈ PEER_KEYS := by decide
  unfold Parser.addEntry Parser.readPeer valueOf
  by_cases hkey : e.key = "endpoint".toList
  · simp only [hkey, hmem, if_true]
  · simp only [hkey, if_false, Option.or_none]
    split <;> rfl

theorem addBlock_endpoint (st : Parser) (b : Block Text) : (st.addBlock b).endpoint =
    st.endpoint.or ((entriesIn .peer b).findSome? (valueOf "endpoint".toList)) := by
  rw [addBlock_peer Parser.endpoint fun st e => rfl]
  exact foldl_first Parser.endpoint _ readPeer_endpoint _ _

theorem setLast_concat (bs : List Bool) (x : Bool) : setLast (bs ++ [x]) = bs ++ [true] := by
  induction bs with
  | nil => rfl
  | cons c bs ih =>
    cases bs with
    | nil => rfl
    | cons d bs => exact congrArg (c :: ·) ih

theorem readPeers_peerHasKey {bs : List Bool} {x : Bool} (es : List Entry)
    (h : st.peerHasKey = bs ++ [x]) : (es.foldl (Parser.addEntry .peer) st).peerHasKey =
      bs ++ [x || es.any fun e => e.key == "publickey".toList] := by
  have hmem : "publickey".toList ∈ PEER_KEYS := by decide
  induction es generalizing st x with
  | nil => rw [List.foldl_nil, List.any_nil, Bool.or_false, h]
  | cons e es ih =>
    have hone : (st.addEntry .peer e).peerHasKey =
        bs ++ [x || e.key == "publickey".toList] := by
      unfold Parser.addEntry Parser.readPeer
      by_cases hkey : e.key = "publickey".toList
      · simp only [hkey, hmem, if_true, h, setLast_concat, beq_self_eq_true, Bool.or_true]
      · have hne : (e.key == "publickey".toList) = false := beq_eq_false_iff_ne.mpr hkey
        simp only [hkey, if_false, hne, Bool.or_false]
        split <;> exact h
    rw [List.foldl_cons, ih hone, List.any_cons, Bool.or_assoc]

theorem addBlock_peerHasKey (st : Parser) (b : Block Text) :
    (st.addBlock b).peerHasKey = st.peerHasKey ++ if sectionOf b.header = some .peer then
      [(entriesIn .peer b).any fun e => e.key == "publickey".toList] else [] := by
  rw [addBlock_peer Parser.peerHasKey fun st e => rfl]
  by_cases hpeer : sectionOf b.header = some .peer
  · have henter : (st.enter b).peerHasKey = st.peerHasKey ++ [false] := by
      simp only [Parser.enter, hpeer, if_true]
    rw [if_pos hpeer, readPeers_peerHasKey _ henter, Bool.false_or]
  · simp only [entriesIn, hpeer, if_false, List.foldl_nil, Parser.enter]

theorem addEntry_peers (st : Parser) (sect : Section) (e : Entry) :
    (st.addEntry sect e).peers = st.peers := by
  cases sect with
  | outside | interface => rfl
  | peer =>
    change (st.readPeer e.key e.value).peers = st.peers
    unfold Parser.readPeer
    split <;> rfl

theorem addBlock_peers (h : st.peers = st.peerHasKey.length) :
    (st.addBlock b).peers = (st.addBlock b).peerHasKey.length := by
  have hpeers : (st.addBlock b).peers = (st.enter b).peers := by
    cases hsect : sectionOf b.header with
    | none => rw [addBlock_none hsect]
    | some sect =>
      rw [addBlock_eq hsect]
      exact foldl_same Parser.peers (fun st e => addEntry_peers st sect e) _ _
  rw [hpeers, addBlock_peerHasKey, List.length_append, ← h]
  simp only [Parser.enter]
  split <;> rfl

/-! ### What the loop collects -/

variable (bs : List (Block Text))

theorem over_setconf : (Parser.over bs).setconf = setconfOf bs :=
  foldl_append Parser.setconf passedOn addBlock_setconf bs .start

theorem over_addressesV4 : (Parser.over bs).addressesV4 = addressesOf bs :=
  foldl_append Parser.addressesV4 _ addBlock_addressesV4 bs .start

theorem over_mtu : (Parser.over bs).mtu = mtuOf bs :=
  (foldl_last Parser.mtu _ addBlock_mtu bs .start).trans Option.or_none

theorem over_endpoint : (Parser.over bs).endpoint = endpointOf bs :=
  foldl_first Parser.endpoint _ addBlock_endpoint bs .start

theorem over_hasPrivateKey : (Parser.over bs).hasPrivateKey = true ↔
    ∃ b ∈ bs, ∃ e ∈ entriesIn .interface b, e.key = "privatekey".toList := by
  rw [Parser.over, foldl_any Parser.hasPrivateKey _ addBlock_hasPrivateKey]
  simp only [Parser.start, Bool.false_or, List.any_eq_true, beq_iff_eq]

theorem over_peerHasKey : (Parser.over bs).peerHasKey = bs.flatMap fun b =>
    if sectionOf b.header = some .peer then
      [(entriesIn .peer b).any fun e => e.key == "publickey".toList] else [] :=
  foldl_append Parser.peerHasKey _ addBlock_peerHasKey bs .start

theorem over_peers : (Parser.over bs).peers = (Parser.over bs).peerHasKey.length :=
  List.foldlRecOn bs Parser.addBlock (b := .start)
    (motive := fun st => st.peers = st.peerHasKey.length) rfl fun _ h _ _ => addBlock_peers h

variable {bs}

theorem over_peers_ne : (Parser.over bs).peers ≠ 0 ↔
    ∃ b ∈ bs, sectionOf b.header = some .peer := by
  rw [over_peers, over_peerHasKey, ne_eq, List.length_eq_zero_iff, List.flatMap_eq_nil_iff]
  push Not
  refine exists_congr fun b => and_congr_right fun _ => ?_
  split
  · rename_i h
    exact ⟨fun _ => h, fun _ => nofun⟩
  · rename_i h
    exact ⟨fun hne => absurd rfl hne, fun hpeer => absurd hpeer h⟩

theorem over_publicKeys : (∀ k ∈ (Parser.over bs).peerHasKey, k = true) ↔
    ∀ b ∈ bs, sectionOf b.header = some .peer →
      ∃ e ∈ entriesIn .peer b, e.key = "publickey".toList := by
  rw [over_peerHasKey, List.forall_mem_flatMap]
  refine forall₂_congr fun b _ => ?_
  split
  · rename_i h
    simp only [h, true_implies, List.forall_mem_singleton, List.any_eq_true, beq_iff_eq]
  · rename_i h
    exact ⟨fun _ hpeer => absurd hpeer h, fun _ => nofun⟩

theorem addressesOf_ne : addressesOf bs ≠ [] ↔
    ∃ b ∈ bs, ∃ e ∈ entriesIn .interface b, e.key = "address".toList ∧
      ∃ item ∈ split ',' e.value, isIpv4Cidr (trim item) = true := by
  simp only [addressesOf, ipv4Items, ne_eq, List.flatMap_eq_nil_iff, List.filter_eq_nil_iff,
    List.mem_filter, List.mem_map, decide_eq_true_eq, and_imp, forall_exists_index,
    forall_apply_eq_imp_iff₂, not_forall, not_not, exists_prop]

/-! ### `WgConfig::parse` -/

theorem finish_ok_iff {c : WgConfig} : st.finish = .ok c ↔ st.hasPrivateKey = true ∧
    st.peers ≠ 0 ∧ (∀ k ∈ st.peerHasKey, k = true) ∧ st.addressesV4 ≠ [] ∧
      c = ⟨st.addressesV4, st.mtu, st.setconf, st.endpoint⟩ := by
  have hany : st.peerHasKey.any not = true ↔ ¬ ∀ k ∈ st.peerHasKey, k = true := by
    simp only [List.any_eq_true, Bool.not_eq_true', not_forall, exists_prop, Bool.not_eq_true]
  unfold Parser.finish
  split
  · rename_i h
    exact ⟨nofun, fun hok => nomatch h.symm.trans hok.1⟩
  · rename_i hkey
    rw [Bool.not_eq_false] at hkey
    split
    · rename_i h
      exact ⟨nofun, fun hok => absurd h hok.2.1⟩
    · rename_i hpeers
      split
      · rename_i h
        exact ⟨nofun, fun hok => absurd hok.2.2.1 (hany.mp h)⟩
      · rename_i hkeys
        split
        · rename_i h
          exact ⟨nofun, fun hok => absurd h hok.2.2.2.1⟩
        · rename_i haddress
          have hall := not_not.mp (mt hany.mpr hkeys)
          exact ⟨fun h => ⟨hkey, hpeers, hall, haddress, (Except.ok.inj h).symm⟩,
            fun h => congrArg Except.ok h.2.2.2.2.symm⟩

theorem entryOf_isSome {line : Text} : (∃ e, entryOf line = some e) ↔ '=' ∈ line := by
  rw [← Option.isSome_iff_exists, entryOf, Option.isSome_map, ← Option.ne_none_iff_isSome, ne_eq,
    splitOnce_eq_none_iff, not_not]

theorem acceptsBlock_iff : AcceptsBlock b ↔ sectionOf b.header ≠ none ∧
    (∀ l ∈ b.lines, '=' ∈ l) ∧
      ∀ e ∈ entriesIn .interface b, e.key = "mtu".toList → parseU32 e.value ≠ none := by
  unfold AcceptsBlock
  cases hsect : sectionOf b.header with
  | none => exact ⟨fun ⟨_, h, _⟩ => (nomatch h), fun h => absurd rfl h.1⟩
  | some sect =>
    have hmem : ∀ e, e ∈ entriesIn .interface b ↔
        sect = .interface ∧ ∃ l ∈ b.lines, entryOf l = some e := by
      intro e
      unfold entriesIn
      by_cases hkind : sect = .interface
      · subst hkind
        rw [if_pos hsect, entries, List.mem_filterMap]
        exact (and_iff_right rfl).symm
      · rw [if_neg fun h => hkind (Option.some.inj (hsect.symm.trans h))]
        exact ⟨nofun, fun h => absurd h.1 hkind⟩
    constructor
    · rintro ⟨_, hkind, hlines⟩
      obtain rfl := Option.some.inj hkind
      refine ⟨nofun, fun l hl => ?_, fun e he hkey => ?_⟩
      · obtain ⟨e, he, _⟩ := hlines l hl
        exact entryOf_isSome.mp ⟨e, he⟩
      · obtain ⟨hinterface, l, hl, hentry⟩ := (hmem e).mp he
        obtain ⟨e', he', hmtu⟩ := hlines l hl
        obtain rfl := Option.some.inj (hentry.symm.trans he')
        exact hmtu hinterface hkey
    · rintro ⟨_, heq, hmtu⟩
      refine ⟨sect, rfl, fun l hl => ?_⟩
      obtain ⟨e, he⟩ := entryOf_isSome.mpr (heq l hl)
      exact ⟨e, he, fun hinterface => hmtu e ((hmem e).mpr ⟨hinterface, l, hl, he⟩)⟩

theorem parse_eq_ok {text : Text} {c : WgConfig} : WgConfig.parse text = .ok c ↔
    (sections text).1 = [] ∧ (∀ b ∈ (sections text).2, AcceptsBlock b) ∧
      (Parser.over (sections text).2).finish = .ok c := by
  have hbind : WgConfig.parse text = .ok c ↔
      ∃ st, (lines text).foldlM Parser.readLine .start = .ok st ∧ st.finish = .ok c := by
    unfold WgConfig.parse
    cases (lines text).foldlM Parser.readLine .start with
    | error e => exact ⟨nofun, fun ⟨_, h, _⟩ => nomatch h⟩
    | ok st => exact ⟨fun h => ⟨st, rfl, h⟩, fun ⟨_, h, hst⟩ => Except.ok.inj h ▸ hst⟩
  simp only [hbind, foldlM_ok_iff]
  exact ⟨fun ⟨_, ⟨hpre, hblocks, hst⟩, h⟩ => ⟨hpre, hblocks, hst ▸ h⟩,
    fun ⟨hpre, hblocks, h⟩ => ⟨_, ⟨hpre, hblocks, rfl⟩, h⟩⟩

theorem over_eq : (⟨(Parser.over bs).addressesV4, (Parser.over bs).mtu, (Parser.over bs).setconf,
    (Parser.over bs).endpoint⟩ : WgConfig) = configOf bs := by
  rw [over_addressesV4, over_mtu, over_setconf, over_endpoint, configOf]

/-- The parser accepts just the format, and passes on just what is to be passed on. -/
theorem parse_ok_iff (text : Text) (c : WgConfig) : WgConfig.parse text = .ok c ↔
    WellFormed (sections text).1 (sections text).2 ∧ c = configOf (sections text).2 := by
  rw [parse_eq_ok, finish_ok_iff, over_eq, over_addressesV4]
  constructor
  · rintro ⟨hpre, hblocks, hkey, hpeers, hkeys, haddress, hc⟩
    exact ⟨⟨hpre, fun b hb => (acceptsBlock_iff.mp (hblocks b hb)).1,
      fun b hb => (acceptsBlock_iff.mp (hblocks b hb)).2.1,
      fun b hb => (acceptsBlock_iff.mp (hblocks b hb)).2.2, (over_hasPrivateKey _).mp hkey,
      over_peers_ne.mp hpeers, over_publicKeys.mp hkeys, addressesOf_ne.mp haddress⟩, hc⟩
  · rintro ⟨h, hc⟩
    exact ⟨h.preamble, fun b hb =>
      acceptsBlock_iff.mpr ⟨h.headers b hb, h.entries b hb, h.mtu b hb⟩,
      (over_hasPrivateKey _).mpr h.privateKey, over_peers_ne.mpr h.peer,
      over_publicKeys.mpr h.publicKeys, addressesOf_ne.mpr h.address, hc⟩

end Detour.Tunnel
