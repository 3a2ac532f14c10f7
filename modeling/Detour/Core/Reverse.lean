import Detour.Core.Matching
import Detour.Lib.Nft
import Detour.Lib.Radix

/-! Reverse lookups: which zones of `in-addr.arpa` and `ip6.arpa` stay on the network's own
resolver. -/

namespace Detour.Core

open Detour.Rust Delimited Nft Radix

/-! ### Zones -/

def decimal (o : UInt8) : Bytes := (Nat.toDigits 10 o.toNat).map fun c => c.toNat.toUInt8

def nibbleLabel (d : Fin 16) : Bytes := [(Nat.digitChar d).toNat.toUInt8]

def inAddrArpa : List Bytes := [ascii "in-addr", ascii "arpa"]

def ip6Arpa : List Bytes := [ascii "ip6", ascii "arpa"]

def InBlock4 (octets : List UInt8) (a : BitVec 32) : Prop :=
  Starts 256 4 (octets.map UInt8.toNat) a.toNat

def InBlock6 (nibbles : List (Fin 16)) (a : BitVec 128) : Prop :=
  Starts 16 32 (nibbles.map Fin.val) a.toNat

def PRIVATE_V4 : List (Net 32) :=
  [⟨10 <<< 24, 8⟩, ⟨127 <<< 24, 8⟩, ⟨(172 * 256 + 16) <<< 16, 12⟩, ⟨(192 * 256 + 168) <<< 16, 16⟩,
    ⟨(169 * 256 + 254) <<< 16, 16⟩]

def UNIQUE_LOCAL : Net 128 := ⟨0xfc00 <<< 112, 7⟩

def LINK_LOCAL : Net 128 := ⟨0xfe80 <<< 112, 10⟩

theorem private4_iff (a : BitVec 32) : (∃ net ∈ PRIVATE_V4, net.contains a = true) ↔
    a.toNat / 2 ^ 24 = 10 ∨ a.toNat / 2 ^ 24 = 127 ∨ a.toNat / 2 ^ 20 = 2753 ∨
      a.toNat / 2 ^ 16 = 49320 ∨ a.toNat / 2 ^ 16 = 43518 := by
  simp only [PRIVATE_V4, List.mem_cons, List.not_mem_nil, or_false, exists_eq_or_imp,
    exists_eq_left, Net.contains_iff]
  exact Iff.rfl

theorem uniqueLocal_iff (a : BitVec 128) :
    UNIQUE_LOCAL.contains a = true ↔ a.toNat / 2 ^ 121 = 126 := Net.contains_iff

theorem linkLocal_iff (a : BitVec 128) :
    LINK_LOCAL.contains a = true ↔ a.toNat / 2 ^ 118 = 1018 := Net.contains_iff

/-! ### The text of a label -/

theorem parseU8Bytes_decimal (o : UInt8) : parseU8Bytes (decimal o) = some o.toNat := by
  have hall : ∀ i : Fin 256, parseU8Bytes (decimal (UInt8.ofNat i)) = some i.val := by
    decide +kernel
  have ho := hall ⟨o.toNat, o.toNat_lt⟩
  rwa [UInt8.ofNat_toNat] at ho

theorem decimal_plain (o : UInt8) : dot ∉ decimal o := by
  have hall : ∀ i : Fin 256, dot ∉ decimal (UInt8.ofNat i) := by decide +kernel
  have ho := hall ⟨o.toNat, o.toNat_lt⟩
  rwa [UInt8.ofNat_toNat] at ho

theorem nibbleLabel_plain (d : Fin 16) : dot ∉ nibbleLabel d := by
  revert d
  decide +kernel

/-! ### The text of a name in a zone -/

variable {n : Name} {more zone qs : List Bytes} {name x : Bytes}

theorem splitOn_zone (h : n.labels.map lowerBytes = more ++ zone) (hne : zone ≠ [])
    (hdot : ∀ l ∈ zone, dot ∉ l) :
    ∃ ps, (more = [] → ps = []) ∧ (normalise n).splitOn dot = ps ++ zone := by
  obtain ⟨a, b, hlabels, rfl, rfl⟩ := List.map_eq_append_iff.mp h
  have hb : ∀ l ∈ b, dot ∉ l := fun l hl hmem =>
    hdot _ (List.mem_map_of_mem hl) (dot_mem_lowerBytes.mpr hmem)
  have hpieces := pieces_append hlabels (fun hnil => hne (List.map_eq_nil_iff.mpr hnil)) hb
  refine ⟨(a.flatMap fun l => (escape l).splitOn dot).map lowerBytes, fun hnil => ?_, ?_⟩
  · rw [List.map_eq_nil_iff.mp hnil]
    rfl
  · rw [splitOn_normalise, hpieces, List.map_append]

theorem text_of_splitOn (hqs : qs ≠ []) (h : name.splitOn dot = qs ++ zone) (hzone : zone ≠ []) :
    name = [dot].intercalate qs ++ dot :: [dot].intercalate zone ∧
      ([dot].intercalate qs).splitOn dot = qs := by
  have hdot : ∀ q ∈ qs, dot ∉ q := fun q hq => notMem_of_mem_splitOn (f := name)
    (h ▸ List.mem_append_left zone hq)
  refine ⟨?_, List.splitOn_intercalate dot hdot hqs⟩
  rw [← intercalate_append hqs hzone, ← h, List.intercalate_splitOn]

theorem zone_plain : ∀ l ∈ inAddrArpa ++ ip6Arpa, dot ∉ l := by decide

theorem no_local_rule : ∀ zone ∈ [inAddrArpa, ip6Arpa], ∀ r ∈ localRules,
    (r.labels.map lowerBytes).length ≤ zone.length ∧ ¬r.labels.map lowerBytes <:+ zone := by decide

theorem builtinLocal_zone (hzone : zone ∈ [inAddrArpa, ip6Arpa]) (hqs : qs ≠ [])
    (h : (normalise n).splitOn dot = qs ++ zone) :
    isBuiltinLocal (normalise n) = isPrivateReverse (normalise n) := by
  have hrules : (LOCAL_SUFFIXES.any fun s => suffixMatches (normalise n) s) = false := by
    rw [← localRules_text, List.any_map, List.any_eq_false]
    intro r hr hmatch
    have hsuffix := ((suffixMatches_iff _ r).mp hmatch).1
    rw [h] at hsuffix
    obtain ⟨hlen, hno⟩ := no_local_rule zone hzone r hr
    exact hno (List.suffix_of_suffix_length_le hsuffix (List.suffix_append _ _) hlen)
  have hsingle : isSingleLabel (normalise n) = false := by
    rw [← Bool.not_eq_true, isSingleLabel_iff]
    intro hone
    have hlen := congrArg List.length h
    have hpos := List.length_pos_of_ne_nil hqs
    have hends : zone.length = 2 := by
      rcases List.mem_cons.mp hzone with rfl | hzone
      · rfl
      · rw [List.mem_singleton.mp hzone]
        rfl
    rw [splitOn_normalise, List.length_map, hone, List.length_append] at hlen
    omega
  rw [isBuiltinLocal, hrules, hsingle]
  rfl

theorem default_route (n : Name) : Policy.default.route n =
    if isBuiltinLocal (normalise n) then .systemUpstream else .doh := rfl

/-- The name goes to the system's resolver if `p` holds, and to DoH if it does not. -/
def StaysLocalIff (n : Name) (p : Prop) : Prop :=
  (p → Policy.default.route n = .systemUpstream) ∧ (¬p → Policy.default.route n = .doh)

theorem staysLocalIff_iff {p : Prop} :
    StaysLocalIff n p ↔ (Policy.default.route n = .systemUpstream ↔ p) := by
  unfold StaysLocalIff
  cases Policy.default.route n with
  | doh => exact ⟨fun h => ⟨nofun, fun hp => h.1 hp⟩, fun h => ⟨h.mpr, fun _ => rfl⟩⟩
  | systemUpstream =>
    exact ⟨fun h => ⟨fun _ => by_contra fun hp => (nomatch h.2 hp), h.1⟩,
      fun h => ⟨h.mpr, fun hp => absurd (h.mp rfl) hp⟩⟩

/-! ### IPv4 -/

theorem stripSuffixBytes_append (s p : Bytes) : stripSuffixBytes p (s ++ p) = some s := by
  have hsuffix : p.isSuffixOf (s ++ p) = true :=
    List.isSuffixOf_iff_suffix.mpr (List.suffix_append s p)
  rw [stripSuffixBytes, if_pos hsuffix, List.length_append, Nat.add_sub_cancel, List.take_left]

def PrivateOctets : List UInt8 → Prop
  | a :: b :: _ => a.toNat = 10 ∨ a.toNat = 127 ∨ (a.toNat = 172 ∧ 16 ≤ b.toNat ∧ b.toNat ≤ 31) ∨
    (a.toNat = 192 ∧ b.toNat = 168) ∨ (a.toNat = 169 ∧ b.toNat = 254)
  | [a] => a.toNat = 10 ∨ a.toNat = 127
  | [] => False

theorem isPrivateReverse_v4 {octets : List UInt8} (hne : octets ≠ [])
    (hmore : more ≠ [] → octets.length = 4)
    (h : name.splitOn dot = more ++ octets.reverse.map decimal ++ inAddrArpa) :
    isPrivateReverse name = true ↔ PrivateOctets octets := by
  have hqs : more ++ octets.reverse.map decimal ≠ [] := by simp [hne]
  obtain ⟨htext, hsplit⟩ := text_of_splitOn hqs h (by decide)
  have hend : dot :: [dot].intercalate inAddrArpa = ascii ".in-addr.arpa" := by decide
  have hrev : (more ++ octets.reverse.map decimal).reverse =
      octets.map decimal ++ more.reverse := by
    rw [List.reverse_append, ← List.map_reverse, List.reverse_reverse]
  rw [htext, hend, isPrivateReverse, stripSuffixBytes_append]
  simp only [hsplit, hrev]
  match octets with
  | [a] =>
    have hnil : more = [] := by
      by_contra hmem
      cases hmore hmem
    simp only [hnil, List.map_cons, List.map_nil, List.reverse_nil, List.append_nil,
      parseU8Bytes_decimal, PrivateOctets, Option.some.injEq, decide_eq_true_eq]
  | a :: b :: rest =>
    simp only [List.map_cons, List.cons_append, parseU8Bytes_decimal, PrivateOctets]
    split
    case h_6 h10 h127 h192 h172 h169 =>
      have hother : a.toNat ≠ 172 := fun h => h172 b.toNat (congrArg some h) rfl
      simp only [Option.some.injEq, imp_false] at h10 h127 h192 h169
      simp only [Bool.false_eq_true, false_iff]
      omega
    all_goals simp only [Option.some.injEq] at *
    all_goals simp only [Bool.and_eq_true, decide_eq_true_eq, true_iff]
    all_goals omega

theorem block4_first {o : UInt8} {os : List UInt8} {a : BitVec 32} (h : InBlock4 (o :: os) a) :
    a.toNat / 2 ^ 24 = o.toNat := by
  have hdigit := h 0 o.toNat rfl
  have ha := a.isLt
  unfold digit at hdigit
  norm_num at hdigit ha ⊢
  omega

theorem block4_second {o o' : UInt8} {os : List UInt8} {a : BitVec 32}
    (h : InBlock4 (o :: o' :: os) a) : a.toNat / 2 ^ 16 = o.toNat * 256 + o'.toNat := by
  have hfirst := block4_first h
  have hdigit := h 1 o'.toNat rfl
  have ha := a.isLt
  unfold digit at hdigit
  norm_num at hdigit hfirst ⊢
  omega

theorem exists_block4 {octets : List UInt8} (hlen : octets.length ≤ 4) :
    ∃ a, InBlock4 octets a := by
  obtain ⟨a, ha, hstarts⟩ := exists_starts 256 4 (octets.map UInt8.toNat) (by decide)
    (by rw [List.length_map]; exact hlen)
    (List.forall_mem_map.mpr fun o _ => o.toNat_lt)
  refine ⟨BitVec.ofNat 32 a, ?_⟩
  have ha' : a < 2 ^ 32 := ha
  rw [InBlock4, BitVec.toNat_ofNat, Nat.mod_eq_of_lt ha']
  exact hstarts

theorem privateOctets_iff {octets : List UInt8} (hne : octets ≠ []) (hlen : octets.length ≤ 4) :
    PrivateOctets octets ↔
      ∀ a, InBlock4 octets a → ∃ net ∈ PRIVATE_V4, net.contains a = true := by
  match octets with
  | [o] =>
    constructor
    · intro h a ha
      rw [private4_iff, block4_first ha]
      exact h.imp_right fun h => .inl h
    · intro h
      obtain ⟨a, ha⟩ := exists_block4 (show [o, 0].length ≤ 4 by simp)
      have hzone : InBlock4 [o] a := by
        intro i d hi
        cases i with
        | zero => exact ha 0 d hi
        | succ i => cases hi
      have hprivate := (private4_iff a).mp (h a hzone)
      have hsecond := block4_second ha
      have hfirst := block4_first ha
      norm_num at hprivate hfirst hsecond
      unfold PrivateOctets
      omega
  | o :: o' :: os =>
    have hiff : ∀ a, InBlock4 (o :: o' :: os) a →
        (PrivateOctets (o :: o' :: os) ↔ ∃ net ∈ PRIVATE_V4, net.contains a = true) := by
      intro a ha
      have hfirst := block4_first ha
      have hsecond := block4_second ha
      rw [private4_iff]
      unfold PrivateOctets
      norm_num at hfirst hsecond ⊢
      have ho' := o'.toNat_lt
      omega
    obtain ⟨a, ha⟩ := exists_block4 hlen
    exact ⟨fun h a ha => (hiff a ha).mp h, fun h => (hiff a ha).mpr (h a ha)⟩

theorem reverse4_route {octets : List UInt8} (hne : octets ≠ []) (hlen : octets.length ≤ 4)
    (hmore : more ≠ [] → octets.length = 4)
    (h : n.labels.map lowerBytes = more ++ octets.reverse.map decimal ++ inAddrArpa) :
    Policy.default.route n = .systemUpstream ↔
      ∀ a, InBlock4 octets a → ∃ net ∈ PRIVATE_V4, net.contains a = true := by
  rw [List.append_assoc] at h
  have hdot : ∀ l ∈ octets.reverse.map decimal ++ inAddrArpa, dot ∉ l := by
    intro l hl
    rcases List.mem_append.mp hl with hl | hl
    · obtain ⟨o, -, rfl⟩ := List.mem_map.mp hl
      exact decimal_plain o
    · exact zone_plain l (List.mem_append_left _ hl)
  obtain ⟨ps, hps, hsplit⟩ := splitOn_zone h (by simp [inAddrArpa]) hdot
  rw [← List.append_assoc] at hsplit
  have hqs : ps ++ octets.reverse.map decimal ≠ [] := by simp [hne]
  have hprivate := isPrivateReverse_v4 hne (fun hp => hmore fun hm => hp (hps hm)) hsplit
  rw [← privateOctets_iff hne hlen, ← hprivate, default_route,
    builtinLocal_zone List.mem_cons_self hqs hsplit]
  split
  · rename_i hlocal
    exact iff_of_true rfl hlocal
  · rename_i hlocal
    exact iff_of_false nofun hlocal

/-- A zone of `in-addr.arpa` stays local exactly when every address in it is private. -/
theorem reverse4_stays_local (octets : List UInt8) (more : List Bytes) (hne : octets ≠ [])
    (hlen : octets.length ≤ 4) (hmore : more ≠ [] → octets.length = 4) (n : Name)
    (h : n.labels.map lowerBytes = more ++ octets.reverse.map decimal ++ inAddrArpa) :
    StaysLocalIff n (∀ a, InBlock4 octets a → ∃ net ∈ PRIVATE_V4, net.contains a = true) :=
  staysLocalIff_iff.mpr (reverse4_route hne hlen hmore h)

def privateHost : Name := ⟨[ascii "www", ascii "5", ascii "1", ascii "168", ascii "192",
  ascii "IN-ADDR", ascii "arpa"], by decide⟩

theorem privateHost_stays_local : StaysLocalIff privateHost
    (∀ a, InBlock4 [192, 168, 1, 5] a → ∃ net ∈ PRIVATE_V4, net.contains a = true) :=
  reverse4_stays_local [192, 168, 1, 5] [ascii "www"] (by decide) (by decide) (fun _ => rfl)
    privateHost (by decide +kernel)

/-! ### IPv6 -/

theorem block6_first {x y z : Fin 16} {ns : List (Fin 16)} {a : BitVec 128}
    (h : InBlock6 (x :: y :: z :: ns) a) : a.toNat / 2 ^ 116 = x * 256 + y * 16 + z := by
  have h0 := h 0 x.val rfl
  have h1 := h 1 y.val rfl
  have h2 := h 2 z.val rfl
  have ha := a.isLt
  unfold digit at h0 h1 h2
  norm_num at h0 h1 h2 ha ⊢
  omega

theorem exists_block6 {nibbles : List (Fin 16)} (hlen : nibbles.length ≤ 32) :
    ∃ a, InBlock6 nibbles a := by
  obtain ⟨a, ha, hstarts⟩ := exists_starts 16 32 (nibbles.map Fin.val) (by decide)
    (by rw [List.length_map]; exact hlen)
    (List.forall_mem_map.mpr fun d _ => d.isLt)
  refine ⟨BitVec.ofNat 128 a, ?_⟩
  have ha' : a < 2 ^ 128 := ha
  rw [InBlock6, BitVec.toNat_ofNat, Nat.mod_eq_of_lt ha']
  exact hstarts

theorem trimEndMatchesText_ip6 {ns : List (Fin 16)} (hne : ns ≠ [])
    (h : name.splitOn dot = ns.map nibbleLabel ++ ip6Arpa) :
    (trimEndMatchesText (ascii ".ip6.arpa") name).splitOn dot = ns.map nibbleLabel := by
  have hqs : ns.map nibbleLabel ≠ [] := fun hnil => hne (List.map_eq_nil_iff.mp hnil)
  obtain ⟨htext, hsplit⟩ := text_of_splitOn hqs h (by decide)
  have hend : dot :: [dot].intercalate ip6Arpa = ascii ".ip6.arpa" := by decide
  have hsuffix : (ascii ".ip6.arpa").isSuffixOf
      ([dot].intercalate (ns.map nibbleLabel) ++ ascii ".ip6.arpa") = true :=
    List.isSuffixOf_iff_suffix.mpr (List.suffix_append _ _)
  have hno : ¬ (ascii ".ip6.arpa").isSuffixOf ([dot].intercalate (ns.map nibbleLabel)) = true := by
    rw [List.isSuffixOf_iff_suffix]
    rintro ⟨p, hp⟩
    rw [← hend] at hp
    have hbelow := (under_iff (by decide) (fun l hl => zone_plain l
      (List.mem_append_right _ hl))).mp ⟨p, hp.symm⟩
    rw [hsplit] at hbelow
    obtain ⟨d, -, hd⟩ := List.mem_map.mp (hbelow.1.subset (List.mem_cons_of_mem _
      (List.mem_singleton_self (ascii "arpa"))))
    cases congrArg List.length hd
  rw [htext, hend, trimEndMatchesText, if_pos ⟨by decide, hsuffix⟩, List.length_append,
    Nat.add_sub_cancel, List.take_left, trimEndMatchesText, if_neg fun h => hno h.2, hsplit]

/-- The rule sees the first two nibbles only. -/
theorem isPrivateReverse_v6 {x y : Fin 16} {ns : List (Fin 16)}
    (h : name.splitOn dot = (x :: y :: ns).reverse.map nibbleLabel ++ ip6Arpa) :
    isPrivateReverse name = true ↔ x = 15 ∧ (y = 12 ∨ y = 13) := by
  have hqs : (x :: y :: ns).reverse.map nibbleLabel ≠ [] := by simp
  obtain ⟨htext, hsplit⟩ := text_of_splitOn hqs h (by decide)
  have hend : dot :: [dot].intercalate ip6Arpa = ascii ".ip6.arpa" := by decide
  have hsuffix : ascii ".ip6.arpa" <:+ name := htext ▸ hend ▸ List.suffix_append _ _
  have hv4 : stripSuffixBytes (ascii ".in-addr.arpa") name = none := by
    refine if_neg fun hv4 => ?_
    have hnested := List.suffix_of_suffix_length_le hsuffix (List.isSuffixOf_iff_suffix.mp hv4)
      (by decide)
    revert hnested
    decide
  have hrev : ((x :: y :: ns).reverse.map nibbleLabel).reverse =
      nibbleLabel x :: nibbleLabel y :: ns.map nibbleLabel := by
    rw [← List.map_reverse, List.reverse_reverse]
    rfl
  have htwo : ∀ x y : Fin 16, (["fc", "fd", "fe8", "fe9", "fea", "feb"].any fun p =>
      (ascii p).isPrefixOf (nibbleLabel x ++ nibbleLabel y)) = true ↔
        x = 15 ∧ (y = 12 ∨ y = 13) := by decide +kernel
  rw [isPrivateReverse, hv4]
  simp only [if_pos (List.isSuffixOf_iff_suffix.mpr hsuffix),
    trimEndMatchesText_ip6 (List.reverse_ne_nil_iff.mpr (List.cons_ne_nil x _)) h, hrev]
  exact htwo x y

theorem reverse6_route {x y z : Fin 16} {ns : List (Fin 16)} {a : BitVec 128}
    (h : n.labels.map lowerBytes = (x :: y :: z :: ns).reverse.map nibbleLabel ++ ip6Arpa)
    (ha : InBlock6 (x :: y :: z :: ns) a) :
    Policy.default.route n = .systemUpstream ↔ UNIQUE_LOCAL.contains a = true := by
  have hdot : ∀ l ∈ (x :: y :: z :: ns).reverse.map nibbleLabel ++ ip6Arpa, dot ∉ l := by
    intro l hl
    rcases List.mem_append.mp hl with hl | hl
    · obtain ⟨d, -, rfl⟩ := List.mem_map.mp hl
      exact nibbleLabel_plain d
    · exact zone_plain l (List.mem_append_right _ hl)
  rw [← List.nil_append (_ ++ ip6Arpa)] at h
  obtain ⟨ps, hps, hsplit⟩ := splitOn_zone h (by simp [ip6Arpa]) hdot
  rw [hps rfl, List.nil_append] at hsplit
  have hbuiltin := builtinLocal_zone (List.mem_cons_of_mem _ (List.mem_singleton_self _))
    (by simp) hsplit
  have hblock : UNIQUE_LOCAL.contains a = true ↔ x = 15 ∧ (y = 12 ∨ y = 13) := by
    have hfirst := block6_first ha
    rw [uniqueLocal_iff]
    simp only [Fin.ext_iff]
    norm_num at hfirst ⊢
    omega
  rw [hblock, ← isPrivateReverse_v6 hsplit, default_route, hbuiltin]
  split
  · rename_i hlocal
    exact iff_of_true rfl hlocal
  · rename_i hlocal
    exact iff_of_false nofun hlocal

def Private6 (a : BitVec 128) : Prop :=
  UNIQUE_LOCAL.contains a = true ∨ LINK_LOCAL.contains a = true

/-- A zone of `ip6.arpa` stays local as it should exactly when no address in it is link local. -/
theorem reverse6_stays_local_iff (nibbles : List (Fin 16)) (hmin : 3 ≤ nibbles.length)
    (hlen : nibbles.length ≤ 32) (n : Name)
    (h : n.labels.map lowerBytes = nibbles.reverse.map nibbleLabel ++ ip6Arpa) :
    StaysLocalIff n (∀ a, InBlock6 nibbles a → Private6 a) ↔
      ∀ a, InBlock6 nibbles a → LINK_LOCAL.contains a = false := by
  match nibbles with
  | x :: y :: z :: ns =>
    obtain ⟨a, ha⟩ := exists_block6 hlen
    have hsame : ∀ b, InBlock6 (x :: y :: z :: ns) b →
        b.toNat / 2 ^ 116 = a.toNat / 2 ^ 116 := fun b hb =>
      (block6_first hb).trans (block6_first ha).symm
    have hunique : ∀ b, InBlock6 (x :: y :: z :: ns) b →
        (UNIQUE_LOCAL.contains b = true ↔ UNIQUE_LOCAL.contains a = true) := by
      intro b hb
      have hb := hsame b hb
      rw [uniqueLocal_iff, uniqueLocal_iff]
      norm_num at hb ⊢
      omega
    have hlink : ∀ b, InBlock6 (x :: y :: z :: ns) b →
        (LINK_LOCAL.contains b = true ↔ LINK_LOCAL.contains a = true) := by
      intro b hb
      have hb := hsame b hb
      rw [linkLocal_iff, linkLocal_iff]
      norm_num at hb ⊢
      omega
    have hdisjoint : UNIQUE_LOCAL.contains a = true → LINK_LOCAL.contains a = true → False := by
      rw [uniqueLocal_iff, linkLocal_iff]
      norm_num
      omega
    have hall : (∀ b, InBlock6 (x :: y :: z :: ns) b → Private6 b) ↔ Private6 a :=
      ⟨fun hb => hb a ha, fun hp b hb => hp.imp (hunique b hb).mpr (hlink b hb).mpr⟩
    have hnone : (∀ b, InBlock6 (x :: y :: z :: ns) b → LINK_LOCAL.contains b = false) ↔
        LINK_LOCAL.contains a = false :=
      ⟨fun hb => hb a ha, fun hp b hb => Bool.eq_false_iff.mpr fun ht =>
        Bool.eq_false_iff.mp hp ((hlink b hb).mp ht)⟩
    rw [staysLocalIff_iff, hall, hnone, reverse6_route h ha, Private6]
    cases hu : UNIQUE_LOCAL.contains a <;> cases hl : LINK_LOCAL.contains a
    · simp
    · simp
    · simp
    · exact absurd hl (fun hl => hdisjoint hu hl)

def uniqueLocalZone : Name :=
  ⟨[ascii "0", ascii "D", ascii "f", ascii "ip6", ascii "ARPA"], by decide⟩

theorem uniqueLocalZone_iff :
    StaysLocalIff uniqueLocalZone (∀ a, InBlock6 [15, 13, 0] a → Private6 a) ↔
      ∀ a, InBlock6 [15, 13, 0] a → LINK_LOCAL.contains a = false :=
  reverse6_stays_local_iff [15, 13, 0] (by decide) (by decide) uniqueLocalZone (by decide +kernel)

def linkLocalNibbles : List (Fin 16) := 15 :: 14 :: 8 :: (List.replicate 28 0 ++ [1])

def linkLocalName : Name :=
  ⟨linkLocalNibbles.reverse.map nibbleLabel ++ ip6Arpa, by decide +kernel⟩

theorem linkLocalName_leaves :
    ¬StaysLocalIff linkLocalName (∀ a, InBlock6 linkLocalNibbles a → Private6 a) := by
  rintro ⟨hlocal, -⟩
  obtain ⟨a, ha⟩ := exists_block6 (show linkLocalNibbles.length ≤ 32 by decide)
  have hfirst : ∀ b, InBlock6 linkLocalNibbles b → b.toNat / 2 ^ 116 = 0xfe8 :=
    fun b hb => block6_first hb
  have hroute := (reverse6_route (by decide +kernel) ha).mp (hlocal fun b hb => .inr ?_)
  · rw [uniqueLocal_iff] at hroute
    have h := hfirst a ha
    norm_num at h hroute
    omega
  · rw [linkLocal_iff]
    have h := hfirst b hb
    norm_num at h ⊢
    omega

end Detour.Core
