import Mathlib.Data.List.Forall2
import Detour.Tunnel.Format
import Detour.Tunnel.BringUp
import Detour.Tunnel.Rollback
import Detour.Rust.AddrText

/-! The endpoints of the peers in the body that `up` writes for `wg setconf`. -/

namespace Detour.Tunnel

open Atomic Detour.Rust Sections

variable {names : Text → Option (List SocketAddr)} {bs : List (Block Text)} {b : Block Text}
  {text setconf body l v a : Text} {c config : WgConfig} {uid : UInt32} {workDir : Path}
  {w t : World}

/-! ### Each peer's own endpoint -/

def endpointsOf (bs : List (Block Text)) : List Text :=
  bs.flatMap fun b => (entriesIn .peer b).filterMap (valueOf "endpoint".toList)

def resolvedV4 (names : Text → Option (List SocketAddr)) (ep : Text) : Option Text :=
  if (parseSocketAddrV4 ep).isSome then some ep
  else ((names ep).bind (·.find? fun a => match a.ip with
    | .v4 _ => true
    | .v6 _ => false)).map fun a => a.display.toList

def endpointLine (value : Text) : Text := "endpoint = ".toList ++ value

/-- The line of an endpoint holds the address of that endpoint; any other line is as it was. -/
def OwnEndpoint (names : Text → Option (List SocketAddr)) (l l' : Text) : Prop :=
  (∃ v a, l = endpointLine v ∧ resolvedV4 names v = some a ∧ l' = endpointLine a) ∨
    ((∀ v, l ≠ endpointLine v) ∧ l' = l)

def OwnEndpoints (names : Text → Option (List SocketAddr)) (setconf body : Text) : Prop :=
  ∃ ls, List.Forall₂ (OwnEndpoint names) (lines setconf) ls ∧ body = unlines ls

/-! ### The body that is written -/

def resolving (names : Text → Option (List SocketAddr)) : Env Op Op.Ret World := fun o w r w' =>
  o.answers w r w' ∧ match o, r with
    | .toSocketAddrs ep, r => r = names ep
    | _, _ => True

def Writes (names : Text → Option (List SocketAddr)) (config : WgConfig) (uid : UInt32)
    (workDir : Path) (body : Text) : Prop :=
  ∃ w t k, Prog.Visits (resolving names) (ExceptT.run (up config uid workDir)) w
    (.op (.writeAll (setconfPath workDir) (.data body)) k) t

def pinned (names : Text → Option (List SocketAddr)) (config : WgConfig) : Option Text :=
  match config.endpoint with
  | none => some config.setconf
  | some ep => (resolvedV4 names ep).map (withEndpoint config.setconf)

theorem resolveEndpointV4_keeps (ep : Text) (w : World) :
    (ExceptT.run (resolveEndpointV4 ep)).Keeps (resolving names) (fun t => t = w)
      (fun r _ => r = .ok (resolvedV4 names ep)) w := by
  unfold resolveEndpointV4 resolvedV4
  split
  · exact ⟨rfl, rfl⟩
  · refine ⟨rfl, ?_⟩
    rintro r t ⟨rfl, rfl⟩
    exact ⟨rfl, rfl⟩

theorem pinnedSetconf_keeps (config : WgConfig) (w : World) :
    (ExceptT.run (pinnedSetconf config)).Keeps (resolving names) (fun t => t = w)
      (fun r _ => r.toOption = pinned names config) w := by
  unfold pinnedSetconf pinned
  cases config.endpoint with
  | none => exact ⟨rfl, rfl⟩
  | some ep =>
    dsimp only
    apply Fallible.keeps_bind (S := fun r _ => r = resolvedV4 names ep)
    · refine (resolveEndpointV4_keeps ep w).mono (fun _ h => h) fun r _ h => ?_
      subst h
      rfl
    · rintro r t rfl rfl
      cases resolvedV4 names ep with
      | none => exact ⟨rfl, rfl⟩
      | some a => exact ⟨rfl, rfl⟩

def Op.quiet (o : Op) : Prop := ∀ path body, o ≠ .writeAll path (.data body)

theorem all_quiet_run (s : Step) : (ExceptT.run (run s)).All Op.quiet := by
  unfold run
  exact Fallible.all_bind (Fallible.all_sys nofun) fun _ => trivial

theorem all_quiet_down : down.All Op.quiet := by
  apply Prog.all_forEach
  intro s
  exact Prog.all_bind (all_quiet_run s) fun _ => trivial

theorem prepare_writes {E : Env Op Op.Ret World} {path : Path}
    (h : ∃ k, Prog.Visits E (ExceptT.run (prepare config uid workDir)) w
      (.op (.writeAll path (.data body)) k) t) :
    ∃ u v, Prog.Visits E (ExceptT.run (pinnedSetconf config)) u (.done (.ok body)) v := by
  unfold prepare at h
  rcases Fallible.visits_bind_iff.mp h with ⟨_, h⟩ | ⟨_, _, -, h⟩
  · exact absurd rfl (h.all (Fallible.all_sys (P := Op.quiet) nofun) _ _)
  rcases Fallible.visits_bind_iff.mp h with ⟨_, h⟩ | ⟨_, _, -, h⟩
  · exact absurd rfl (h.all (all_orRead (P := Op.quiet) _ _) _ _)
  rcases Fallible.visits_bind_iff.mp h with ⟨_, h⟩ | ⟨setconf, _, hpin, h⟩
  · exact absurd rfl (h.all (all_pinnedSetconf (P := Op.quiet) (fun _ => nofun) config) _ _)
  rcases Fallible.visits_bind_iff.mp h with ⟨_, h⟩ | ⟨_, _, -, _, h⟩
  · have hwrite := h.all (all_writePrivate
      (P := fun o => ∀ path body, o = .writeAll path (.data body) → body = setconf) nofun ?_)
    · exact ⟨_, _, hwrite _ _ rfl ▸ hpin⟩
    · intro path body heq
      cases heq
      rfl
  · exact absurd rfl (h.all (all_writePrivate (P := Op.quiet) nofun nofun) _ _)

theorem Writes.pinned (h : Writes names config uid workDir body) :
    pinned names config = some body := by
  obtain ⟨w, t, h⟩ := h
  unfold up at h
  rcases Fallible.visits_bind_iff.mp h with ⟨_, h⟩ | ⟨_, _, -, h⟩
  · exact absurd rfl (h.all (Fallible.all_lift all_quiet_down) _ _)
  rcases Fallible.visits_bind_iff.mp h with h | ⟨_, _, -, h⟩
  · obtain ⟨u, v, hpin⟩ := prepare_writes h
    exact ((Prog.keeps_iff.mp (pinnedSetconf_keeps config u) _ _ hpin).2 _ rfl).symm
  rcases Fallible.visits_bind_iff.mp h with ⟨_, h⟩ | ⟨result, _, -, h⟩
  · exact absurd rfl (h.all (Fallible.all_lift (Fallible.all_tryForEach all_quiet_run _)) _ _)
  rcases Fallible.visits_bind_iff.mp h with ⟨_, h⟩ | ⟨_, _, -, _, h⟩
  · exact absurd rfl (h.all (Fallible.all_sys (P := Op.quiet) nofun) _ _)
  · refine absurd rfl (h.all (P := Op.quiet) ?_ _ _)
    cases result with
    | ok _ => trivial
    | error _ => exact Fallible.all_bind (Fallible.all_lift all_quiet_down) fun _ => trivial

def obligingWith (names : Text → Option (List SocketAddr)) : Handler Op Op.Ret World
  | .toSocketAddrs endpoint, w => (names endpoint, w)
  | o, w => obliging o w

theorem obligingWith_resolving (names : Text → Option (List SocketAddr)) (o : Op) (w : World) :
    resolving names o w (obligingWith names o w).1 (obligingWith names o w).2 := by
  cases o with
  | toSocketAddrs endpoint => exact ⟨rfl, rfl⟩
  | _ => exact ⟨(obliging_dependable _ w).1, trivial⟩

theorem visits_pinnedSetconf (h : pinned names config = some body) (w : World) :
    Prog.Visits (resolving names) (ExceptT.run (pinnedSetconf config)) w (.done (.ok body)) w := by
  have hrun : (ExceptT.run (pinnedSetconf config)).run (obligingWith names) w = (.ok body, w) := by
    unfold pinned at h
    unfold pinnedSetconf
    cases hep : config.endpoint with
    | none =>
      rw [hep] at h
      cases h
      rfl
    | some ep =>
      rw [hep] at h
      obtain ⟨a, ha, rfl⟩ := Option.map_eq_some_iff.mp h
      have hres : (ExceptT.run (resolveEndpointV4 ep)).run (obligingWith names) w =
          (.ok (some a), w) := by
        rw [← ha]
        unfold resolveEndpointV4 resolvedV4
        split <;> rfl
      simp only [Fallible.run_bind, hres]
      rfl
  have hvisit := Prog.visits_run (obligingWith_resolving names)
    (ExceptT.run (pinnedSetconf config)) w
  rw [hrun] at hvisit
  exact hvisit

theorem visits_ask {E : Env Op Op.Ret World} {o : Op} {r : o.Ret} (h : E o w r t) :
    Prog.Visits E (ExceptT.run (ask o)) w (.done (.ok r)) t := .step h .refl

theorem visits_prepare (h : pinned names config = some body) (uid : UInt32) (workDir : Path)
    (w : World) :
    ∃ t k, Prog.Visits (resolving names) (ExceptT.run (prepare config uid workDir)) w
      (.op (.writeAll (setconfPath workDir) (.data body)) k) t := by
  refine ⟨{ w with files := Function.update w.files (setconfPath workDir) (some (.data [])) }, ?_⟩
  unfold prepare
  have hdir : resolving names (.createDirAll workDir) w (.ok ()) w := ⟨rfl, trivial⟩
  refine Fallible.visits_bind_iff.mpr (.inr ⟨.ok (), w, visits_ask hdir, ?_⟩)
  refine Fallible.visits_bind_iff.mpr (.inr ⟨(), w, .refl, ?_⟩)
  refine Fallible.visits_bind_iff.mpr (.inr ⟨body, w, visits_pinnedSetconf h w, ?_⟩)
  exact Fallible.visits_bind_iff.mpr
    (.inl ⟨_, .step (r := .ok ()) ⟨.inr ⟨rfl, rfl⟩, trivial⟩ .refl⟩)

theorem writes_of_pinned (h : pinned names config = some body) :
    Writes names config uid workDir body := by
  have hdown := Prog.visits_run (obligingWith_resolving names) down freshWorld
  obtain ⟨t, hprepare⟩ := visits_prepare h uid workDir
    (down.run (obligingWith names) freshWorld).2
  exact ⟨freshWorld, t, Fallible.visits_bind_iff.mpr
    (.inr ⟨(), _, Fallible.visits_lift hdown, Fallible.visits_bind_iff.mpr (.inl hprepare)⟩)⟩

theorem writes_iff : Writes names config uid workDir body ↔ pinned names config = some body :=
  ⟨Writes.pinned, writes_of_pinned⟩

/-! ### The lines of the body -/

def entryText (e : Entry) : Text := e.key ++ " = ".toList ++ e.value

def linesOf (b : Block Text) : List Text :=
  b.header :: ((entries b).filter fun e => e.key ∈ allowed b).map entryText

def isEndpoint (l : Text) : Bool := "endpoint".toList.isPrefixOf (toAsciiLowercase l)

theorem setconfOf_eq (bs : List (Block Text)) : setconfOf bs = unlines (bs.flatMap linesOf) := by
  rw [setconfOf, unlines, List.flatMap_assoc]
  congr 1
  funext b
  rw [linesOf, List.flatMap_cons, List.flatMap_map, passedOn]
  rfl

theorem toLower_key : ∀ k ∈ INTERFACE_KEYS ++ PEER_KEYS, toAsciiLowercase k = k := by decide

theorem newline_notMem_key : ∀ k ∈ INTERFACE_KEYS ++ PEER_KEYS, '\n' ∉ k := by decide

theorem head_key : ∀ k ∈ INTERFACE_KEYS ++ PEER_KEYS, k ≠ [] ∧
    (k.head? = some 'e' → k = "endpoint".toList) := by decide

theorem allowed_keys {key : Text} (h : key ∈ allowed b) : key ∈ INTERFACE_KEYS ++ PEER_KEYS := by
  unfold allowed at h
  cases hsect : sectionOf b.header with
  | none =>
    rw [hsect] at h
    cases h
  | some sect =>
    rw [hsect] at h
    cases sect with
    | outside => cases h
    | interface => exact List.mem_append_left _ h
    | peer => exact List.mem_append_right _ h

theorem endpoint_allowed {e : Entry} (h : e.key = "endpoint".toList) :
    e.key ∈ allowed b ↔ sectionOf b.header = some .peer := by
  have hpeer : "endpoint".toList ∈ PEER_KEYS := by decide
  have hinterface : "endpoint".toList ∉ INTERFACE_KEYS := by decide
  unfold allowed
  rw [h]
  cases sectionOf b.header with
  | none => exact ⟨nofun, nofun⟩
  | some sect =>
    cases sect with
    | outside => exact ⟨nofun, nofun⟩
    | interface => exact ⟨fun hmem => absurd hmem hinterface, nofun⟩
    | peer => exact ⟨fun _ => rfl, fun _ => hpeer⟩

theorem isEndpoint_endpointLine (v : Text) : isEndpoint (endpointLine v) = true := by
  have hstart : "endpoint".toList <+: toAsciiLowercase "endpoint = ".toList := by decide
  have happend : toAsciiLowercase (endpointLine v) =
      toAsciiLowercase "endpoint = ".toList ++ toAsciiLowercase v := List.map_append
  rw [isEndpoint, happend]
  exact List.isPrefixOf_iff_prefix.mpr (hstart.trans (List.prefix_append _ _))

theorem isEndpoint_entryText {e : Entry} (h : e.key ∈ INTERFACE_KEYS ++ PEER_KEYS) :
    isEndpoint (entryText e) = true ↔ e.key = "endpoint".toList := by
  have hlower := toLower_key e.key h
  obtain ⟨hne, hhead⟩ := head_key e.key h
  constructor
  · intro hstart
    rw [isEndpoint, entryText, toAsciiLowercase, List.append_assoc, List.map_append,
      List.isPrefixOf_iff_prefix] at hstart
    apply hhead
    rw [toAsciiLowercase] at hlower
    rw [hlower] at hstart
    cases hkey : e.key with
    | nil => exact absurd hkey hne
    | cons c cs =>
      rw [hkey] at hstart
      exact congrArg some (List.cons_prefix_cons.mp hstart).1.symm
  · intro hkey
    rw [entryText, hkey]
    exact isEndpoint_endpointLine e.value

theorem header_cases (h : sectionOf b.header ≠ none) :
    toAsciiLowercase b.header = "[interface]".toList ∨
      toAsciiLowercase b.header = "[peer]".toList := by
  unfold sectionOf at h
  split at h
  · exact .inl ‹_›
  · split at h
    · exact .inr ‹_›
    · exact absurd rfl h

theorem isEndpoint_header (h : sectionOf b.header ≠ none) : isEndpoint b.header = false := by
  rw [isEndpoint]
  rcases header_cases h with heq | heq <;> rw [heq] <;> decide

theorem mem_header {c : Char} (h : sectionOf b.header ≠ none) (hc : c.toLower = c)
    (hmem : c ∈ b.header) : c ∈ "[interface]".toList ++ "[peer]".toList := by
  have hlower : c ∈ toAsciiLowercase b.header := List.mem_map.mpr ⟨c, hmem, hc⟩
  rcases header_cases h with heq | heq
  · exact List.mem_append_left _ (heq ▸ hlower)
  · exact List.mem_append_right _ (heq ▸ hlower)

/-! ### What the lines are made of -/

theorem newline_notMem_content (h : l ∈ contentLines text) : '\n' ∉ l := by
  obtain ⟨raw, hraw, rfl⟩ := List.mem_map.mp (List.mem_filter.mp h).1
  intro hmem
  have hcut := mem_of_mem_trim hmem
  cases hsplit : split '#' raw with
  | nil => exact split_ne_nil raw hsplit
  | cons piece rest =>
    rw [hsplit, List.headD_cons] at hcut
    have hpiece : piece ∈ split '#' raw := hsplit ▸ List.mem_cons_self
    exact notMem_of_mem_lines hraw (mem_of_mem_split hpiece hcut)

theorem content_of_mem (hb : b ∈ (sections text).2) (hl : l ∈ b.lines) : l ∈ contentLines text := by
  rw [← blocks_append isHeader (contentLines text), List.mem_append, List.mem_flatMap]
  exact .inr ⟨b, hb, List.mem_cons_of_mem _ hl⟩

theorem newline_notMem_value {e : Entry} (hb : b ∈ (sections text).2) (he : e ∈ entries b) :
    '\n' ∉ e.value := by
  obtain ⟨l, hl, hentry⟩ := List.mem_filterMap.mp he
  obtain ⟨⟨key, value⟩, hsplit, rfl⟩ := Option.map_eq_some_iff.mp hentry
  intro hmem
  apply newline_notMem_content (content_of_mem hb hl)
  rw [splitOnce_eq_some hsplit]
  exact List.mem_append_right _ (List.mem_cons_of_mem _ (mem_of_mem_trim hmem))

theorem value_last {e : Entry} (he : e ∈ entries b) : e.value.getLast? ≠ some '\r' := by
  obtain ⟨l, hl, hentry⟩ := List.mem_filterMap.mp he
  obtain ⟨⟨key, value⟩, hsplit, rfl⟩ := Option.map_eq_some_iff.mp hentry
  intro hlast
  have hspace := trim_last hlast
  exact absurd hspace (by decide)

theorem mem_linesOf (hl : l ∈ linesOf b) : l = b.header ∨
    ∃ e ∈ entries b, e.key ∈ allowed b ∧ l = entryText e := by
  rcases List.mem_cons.mp hl with rfl | hl
  · exact .inl rfl
  · obtain ⟨e, he, rfl⟩ := List.mem_map.mp hl
    rw [List.mem_filter, decide_eq_true_eq] at he
    exact .inr ⟨e, he.1, he.2, rfl⟩

theorem linesOf_plain (hb : b ∈ (sections text).2) (hsect : sectionOf b.header ≠ none)
    (hl : l ∈ linesOf b) : '\n' ∉ l ∧ stripCr l = l := by
  rcases mem_linesOf hl with rfl | ⟨e, he, hkey, rfl⟩
  · have hnewline : '\n' ∉ "[interface]".toList ++ "[peer]".toList := by decide
    have hreturn : '\r' ∉ "[interface]".toList ++ "[peer]".toList := by decide
    refine ⟨fun h => hnewline (mem_header hsect rfl h), if_neg fun h => ?_⟩
    exact hreturn (mem_header hsect rfl (List.mem_of_getLast? h))
  · have hnewline : '\n' ∉ " = ".toList := by decide
    have hequals : (" = ".toList.getLast?.or e.key.getLast?) ≠ some '\r' := by
      rw [show " = ".toList.getLast? = some ' ' by decide, Option.some_or]
      decide
    have hkeys := newline_notMem_key e.key (allowed_keys hkey)
    constructor
    · rw [entryText, List.mem_append, List.mem_append]
      exact not_or.mpr ⟨not_or.mpr ⟨hkeys, hnewline⟩, newline_notMem_value hb he⟩
    · refine if_neg fun h => ?_
      rw [entryText, List.getLast?_append] at h
      cases hlast : e.value.getLast? with
      | some d =>
        rw [hlast, Option.some_or] at h
        exact value_last he (hlast.trans h)
      | none =>
        rw [hlast, Option.none_or, List.getLast?_append] at h
        exact absurd h hequals

theorem lines_setconfOf (hbs : ∀ b ∈ (sections text).2, sectionOf b.header ≠ none) :
    lines (setconfOf (sections text).2) = (sections text).2.flatMap linesOf := by
  have hplain : ∀ l ∈ (sections text).2.flatMap linesOf, '\n' ∉ l ∧ stripCr l = l := by
    intro l hl
    obtain ⟨b, hb, hl⟩ := List.mem_flatMap.mp hl
    exact linesOf_plain hb (hbs b hb) hl
  rw [setconfOf_eq, lines_unlines fun l hl => (hplain l hl).1]
  exact (List.map_congr_left fun l hl => (hplain l hl).2).trans (List.map_id _)

theorem mem_endpointsOf : v ∈ endpointsOf bs ↔
    ∃ b ∈ bs, ∃ e ∈ entriesIn .peer b, e.key = "endpoint".toList ∧ e.value = v := by
  simp only [endpointsOf, List.mem_flatMap, List.mem_filterMap, valueOf,
    Option.ite_none_right_eq_some, Option.some.injEq]

theorem endpointLine_mem (h : v ∈ endpointsOf bs) : endpointLine v ∈ bs.flatMap linesOf := by
  obtain ⟨b, hb, e, he, hkey, rfl⟩ := mem_endpointsOf.mp h
  have hpeer : sectionOf b.header = some .peer := by
    unfold entriesIn at he
    split at he
    · assumption
    · cases he
  rw [entriesIn, if_pos hpeer] at he
  refine List.mem_flatMap.mpr ⟨b, hb, List.mem_cons_of_mem _ (List.mem_map.mpr ⟨e, ?_, ?_⟩)⟩
  · exact List.mem_filter.mpr ⟨he, decide_eq_true ((endpoint_allowed hkey).mpr hpeer)⟩
  · rw [entryText, hkey]
    rfl

theorem line_cases (hbs : ∀ b ∈ bs, sectionOf b.header ≠ none) (hl : l ∈ bs.flatMap linesOf) :
    (∃ v ∈ endpointsOf bs, l = endpointLine v) ∨ isEndpoint l = false := by
  obtain ⟨b, hb, hl⟩ := List.mem_flatMap.mp hl
  rcases mem_linesOf hl with rfl | ⟨e, he, hallowed, rfl⟩
  · exact .inr (isEndpoint_header (hbs b hb))
  · cases hend : isEndpoint (entryText e) with
    | false => exact .inr rfl
    | true =>
      have hkey := (isEndpoint_entryText (allowed_keys hallowed)).mp hend
      have hpeer := (endpoint_allowed hkey).mp hallowed
      refine .inl ⟨e.value, mem_endpointsOf.mpr ⟨b, hb, e, ?_, hkey, rfl⟩, ?_⟩
      · rw [entriesIn, if_pos hpeer]
        exact he
      · rw [entryText, hkey]
        rfl

/-! ### The body against the config -/

theorem newline_notMem_addr (hv : '\n' ∉ v) (h : resolvedV4 names v = some a) : '\n' ∉ a := by
  unfold resolvedV4 at h
  split at h
  · cases h
    exact hv
  · obtain ⟨addr, haddr, rfl⟩ := Option.map_eq_some_iff.mp h
    obtain ⟨addrs, -, hfind⟩ := Option.bind_eq_some_iff.mp haddr
    obtain ⟨ip, port⟩ := addr
    cases ip with
    | v6 _ => exact absurd (List.find?_some hfind) Bool.false_ne_true
    | v4 ip =>
      have hchar : ¬ AddrChar '\n' := by
        unfold AddrChar
        decide
      have htext : (SocketAddr.display ⟨.v4 ip, port⟩).toList =
          ip.display.toList ++ ':' :: Nat.toDigits 10 port.toNat := by
        simp [SocketAddr.display, IpAddr.display, toString, Nat.repr]
      rw [htext, List.mem_append, List.mem_cons]
      rintro (hmem | hmem | hmem)
      · exact hchar (addrChar_ipv4 ip _ hmem)
      · exact absurd hmem (by decide)
      · exact hchar (addrChar_of_mem_toDigits (.inl rfl) hmem)

def pin (a l : Text) : Text := if isEndpoint l then endpointLine a else l

theorem withEndpoint_eq (h : lines setconf ≠ []) :
    withEndpoint setconf a = unlines ((lines setconf).map (pin a)) :=
  intercalate_unlines fun hnil => h (List.map_eq_nil_iff.mp hnil)

theorem own_pin_iff (hbs : ∀ b ∈ bs, sectionOf b.header ≠ none) :
    (∀ l ∈ bs.flatMap linesOf, OwnEndpoint names l (pin a l)) ↔
      ∀ v ∈ endpointsOf bs, resolvedV4 names v = some a := by
  constructor
  · intro h v hv
    have hpin : pin a (endpointLine v) = endpointLine a := if_pos (isEndpoint_endpointLine v)
    rcases h _ (endpointLine_mem hv) with ⟨v', a', hl, hres, hl'⟩ | ⟨hno, -⟩
    · obtain rfl := List.append_cancel_left hl
      rw [hpin] at hl'
      obtain rfl := List.append_cancel_left hl'
      exact hres
    · exact absurd rfl (hno v)
  · intro h l hl
    rcases line_cases hbs hl with ⟨v, hv, rfl⟩ | hno
    · exact .inl ⟨v, a, rfl, h v hv, if_pos (isEndpoint_endpointLine v)⟩
    · refine .inr ⟨?_, if_neg (ne_true_of_eq_false hno)⟩
      rintro v rfl
      rw [isEndpoint_endpointLine] at hno
      cases hno

theorem newline_notMem_endpointLine (h : '\n' ∉ v) : '\n' ∉ endpointLine v := by
  have hliteral : '\n' ∉ "endpoint = ".toList := by decide
  intro hmem
  exact (List.mem_append.mp hmem).elim hliteral h

theorem newline_notMem_pin {ls : List Text} (ha : '\n' ∉ a) (hls : ∀ l ∈ ls, '\n' ∉ l) :
    ∀ l ∈ ls.map (pin a), '\n' ∉ l := by
  rw [List.forall_mem_map]
  intro l hl
  unfold pin
  split
  · exact newline_notMem_endpointLine ha
  · exact hls l hl

theorem newline_notMem_own {ls ms : List Text} (h : List.Forall₂ (OwnEndpoint names) ls ms)
    (hls : ∀ l ∈ ls, '\n' ∉ l) : ∀ m ∈ ms, '\n' ∉ m := by
  induction h with
  | nil => exact hls
  | cons hown _ ih =>
    rw [List.forall_mem_cons] at hls ⊢
    refine ⟨?_, ih hls.2⟩
    rcases hown with ⟨v, a, rfl, hres, rfl⟩ | ⟨-, rfl⟩
    · have hvalue : '\n' ∉ v := fun hmem => hls.1 (List.mem_append_right _ hmem)
      exact newline_notMem_endpointLine (newline_notMem_addr hvalue hres)
    · exact hls.1

theorem ownEndpoints_iff {ls ms : List Text} (hls : ∀ l ∈ ls, '\n' ∉ l) (hms : ∀ m ∈ ms, '\n' ∉ m)
    (h : lines setconf = ls) :
    OwnEndpoints names setconf (unlines ms) ↔ List.Forall₂ (OwnEndpoint names) ls ms := by
  unfold OwnEndpoints
  rw [h]
  constructor
  · rintro ⟨ks, hown, heq⟩
    rw [unlines_inj hms (newline_notMem_own hown hls) heq]
    exact hown
  · exact fun hown => ⟨ms, hown, rfl⟩

/-! ### `up` -/

theorem parsed (h : WgConfig.parse text = .ok c) : c = configOf (sections text).2 ∧
    (∃ b ∈ (sections text).2, sectionOf b.header = some .peer) ∧
      ∀ b ∈ (sections text).2, sectionOf b.header ≠ none := by
  obtain ⟨-, hblocks, hfinish⟩ := parse_eq_ok.mp h
  obtain ⟨-, hpeers, -, -, rfl⟩ := finish_ok_iff.mp hfinish
  exact ⟨over_eq, over_peers_ne.mp hpeers, fun b hb => (acceptsBlock_iff.mp (hblocks b hb)).1⟩

theorem endpointOf_eq (bs : List (Block Text)) : endpointOf bs = (endpointsOf bs).head? := by
  rw [endpointOf, endpointsOf, List.head?_flatMap]
  congr 1
  funext b
  rw [List.head?_filterMap]

/-- The body is written by any run that comes to it, and holds the address of the first endpoint in
the line of each. -/
theorem writes_parsed_iff {names : Text → Option (List SocketAddr)} {uid : UInt32} {workDir : Path}
    (h : WgConfig.parse text = .ok c) :
    (∀ body, Writes names c uid workDir body → OwnEndpoints names c.setconf body) ↔
      ∀ first ∈ (endpointsOf (sections text).2).head?, ∀ a, resolvedV4 names first = some a →
        ∀ v ∈ endpointsOf (sections text).2, resolvedV4 names v = some a := by
  obtain ⟨rfl, ⟨b, hb, -⟩, hbs⟩ := parsed h
  have hlines := lines_setconfOf hbs
  have hne : (sections text).2.flatMap linesOf ≠ [] := fun hnil =>
    List.cons_ne_nil _ _ (List.flatMap_eq_nil_iff.mp hnil b hb)
  have hplain : ∀ l ∈ (sections text).2.flatMap linesOf, '\n' ∉ l := by
    intro l hl
    obtain ⟨b, hb, hl⟩ := List.mem_flatMap.mp hl
    exact (linesOf_plain hb (hbs b hb) hl).1
  simp only [writes_iff, pinned, configOf, endpointOf_eq]
  cases hfirst : (endpointsOf (sections text).2).head? with
  | none =>
    refine ⟨fun _ _ hnone => absurd hnone (Option.not_mem_none _), ?_⟩
    rintro - body hbody
    obtain rfl := Option.some.inj hbody
    rw [setconfOf_eq] at hlines ⊢
    rw [ownEndpoints_iff hplain hplain hlines, List.forall₂_same]
    intro l hl
    rcases line_cases hbs hl with ⟨v, hv, -⟩ | hno
    · rw [List.head?_eq_none_iff.mp hfirst] at hv
      cases hv
    · refine .inr ⟨?_, rfl⟩
      rintro v rfl
      rw [isEndpoint_endpointLine] at hno
      cases hno
  | some first =>
    have hvalue : '\n' ∉ first := fun hmem =>
      hplain _ (endpointLine_mem (List.mem_of_head? hfirst)) (List.mem_append_right _ hmem)
    have hown : ∀ a, resolvedV4 names first = some a →
        (OwnEndpoints names (setconfOf (sections text).2)
          (withEndpoint (setconfOf (sections text).2) a) ↔
            ∀ v ∈ endpointsOf (sections text).2, resolvedV4 names v = some a) := by
      intro a hres
      have hpins := newline_notMem_pin (newline_notMem_addr hvalue hres) hplain
      rw [← own_pin_iff hbs, withEndpoint_eq (hlines ▸ hne), hlines,
        ownEndpoints_iff hplain hpins hlines, List.forall₂_map_right_iff, List.forall₂_same]
    simp only [Option.map_eq_some_iff, forall_exists_index, and_imp, Option.mem_def,
      Option.some.injEq, forall_eq']
    constructor
    · intro h a hres
      exact (hown a hres).mp (h _ a hres rfl)
    · rintro h _ a hres rfl
      exact (hown a hres).mpr (h a hres)

/-- Each peer keeps its own endpoint exactly when all of them are at the address of the first. -/
theorem peers_keep_endpoints_iff (text : Text) (c : WgConfig) (h : WgConfig.parse text = .ok c)
    (names : Text → Option (List SocketAddr)) (uid : UInt32) (workDir : Path) :
    (∀ body, Writes names c uid workDir body → OwnEndpoints names c.setconf body) ↔
      ∀ first ∈ (endpointsOf (sections text).2).head?, ∀ a, resolvedV4 names first = some a →
        ∀ v ∈ endpointsOf (sections text).2, resolvedV4 names v = some a :=
  writes_parsed_iff h

/-! ### Two peers -/

def interfaceText : Text :=
  unlines (["[Interface]", "PrivateKey = a", "Address = 10.0.0.2/32"].map String.toList)

def peerText (key endpoint : String) : Text :=
  unlines (["[Peer]", "PublicKey = " ++ key, "Endpoint = " ++ endpoint].map String.toList)

def onePeer : Text := interfaceText ++ peerText "b" "1.2.3.4:51820"

def twoPeers : Text := onePeer ++ peerText "c" "5.6.7.8:51820"

theorem one_peer_kept : ∃ c, WgConfig.parse onePeer = .ok c ∧ ∀ body,
    Writes (fun _ => none) c 1000 "/run/detour" body →
      OwnEndpoints (fun _ => none) c.setconf body := by
  have hok : (WgConfig.parse onePeer).isOk = true := by decide +kernel
  have hends : endpointsOf (sections onePeer).2 = ["1.2.3.4:51820".toList] := by decide +kernel
  cases hparse : WgConfig.parse onePeer with
  | error e =>
    rw [hparse] at hok
    cases hok
  | ok c =>
    refine ⟨c, rfl, (peers_keep_endpoints_iff onePeer c hparse _ _ _).mpr ?_⟩
    rw [hends]
    rintro first hfirst a ha v hv
    obtain rfl := Option.some.inj hfirst
    obtain rfl := List.mem_singleton.mp hv
    exact ha

theorem second_peer_misdirected : ∃ c, WgConfig.parse twoPeers = .ok c ∧ ∃ body,
    Writes (fun _ => none) c 1000 "/run/detour" body ∧
      ¬ OwnEndpoints (fun _ => none) c.setconf body := by
  have hok : (WgConfig.parse twoPeers).isOk = true := by decide +kernel
  have hends : endpointsOf (sections twoPeers).2 =
      ["1.2.3.4:51820".toList, "5.6.7.8:51820".toList] := by decide +kernel
  have hfirst : resolvedV4 (fun _ => none) "1.2.3.4:51820".toList =
      some "1.2.3.4:51820".toList := by decide +kernel
  have hsecond : resolvedV4 (fun _ => none) "5.6.7.8:51820".toList ≠
      some "1.2.3.4:51820".toList := by decide +kernel
  cases hparse : WgConfig.parse twoPeers with
  | error e =>
    rw [hparse] at hok
    cases hok
  | ok c =>
    refine ⟨c, rfl, ?_⟩
    by_contra hall
    push Not at hall
    have hsame := (writes_parsed_iff hparse).mp hall
    rw [hends] at hsame
    exact hsecond (hsame _ rfl _ hfirst _ (List.mem_cons_of_mem _ List.mem_cons_self))

end Detour.Tunnel
