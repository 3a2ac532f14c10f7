import Detour.Rust.IpAddr
import Mathlib.Algebra.Group.Nat.Defs

/-! What `IpAddr` writes, it reads back. -/

namespace Detour.Rust

variable {radix max maxDigits n : Nat} {azp : Bool} {rest cs : List Char}

/-! ### Numbers -/

def NoDigit (radix : Nat) (rest : List Char) : Prop := ∀ c ∈ rest.head?, toDigit radix c = none

theorem noDigit_nil : NoDigit radix [] := nofun

theorem noDigit_cons {c : Char} (h : toDigit radix c = none) : NoDigit radix (c :: rest) := by
  rintro _ ⟨⟩
  exact h

theorem readDigits_of_noDigit (h : NoDigit radix rest) : readDigits radix rest = ([], rest) := by
  cases rest with
  | nil => rfl
  | cons c cs => rw [readDigits, h c rfl]

theorem readDigits_append {ds : List Nat}
    (hds : ∀ d ∈ ds, toDigit radix d.digitChar = some d) (hrest : NoDigit radix rest) :
    readDigits radix (ds.map Nat.digitChar ++ rest) = (ds, rest) := by
  induction ds with
  | nil => exact readDigits_of_noDigit hrest
  | cons d ds ih =>
    obtain ⟨hd, hds⟩ := List.forall_mem_cons.mp hds
    rw [List.map_cons, List.cons_append, readDigits, hd, ih hds]

theorem toDigit_digitChar (hradix : radix = 10 ∨ radix = 16) :
    ∀ d < radix, toDigit radix d.digitChar = some d := by
  obtain rfl | rfl := hradix <;> decide

theorem exists_toDigits (hradix : 1 < radix) (n : Nat) : ∃ ds : List Nat,
    Nat.toDigits radix n = ds.map Nat.digitChar ∧ (∀ d ∈ ds, d < radix) ∧ ds ≠ [] ∧
      ds.foldl (fun v d => v * radix + d) 0 = n ∧ (ds.head? = some 0 → ds.length = 1 ∧ n = 0) := by
  induction n using Nat.strongRecOn with
  | ind n ih =>
    rw [Nat.toDigits_eq_if hradix]
    by_cases hn : n < radix
    · rw [if_pos hn]
      refine ⟨[n], rfl, List.forall_mem_singleton.mpr hn, List.cons_ne_nil _ _, ?_, ?_⟩
      · simp
      · simp
    · have hdiv : n / radix < n := Nat.div_lt_self (by omega) hradix
      obtain ⟨ds, htext, hlt, hne, hvalue, hzero⟩ := ih _ hdiv
      rw [if_neg hn]
      refine ⟨ds ++ [n % radix], ?_, ?_, List.append_ne_nil_of_left_ne_nil hne _, ?_, ?_⟩
      · rw [htext, List.map_append, List.map_singleton]
      · intro d hd
        cases List.mem_append.mp hd with
        | inl hd => exact hlt d hd
        | inr hd =>
          rw [List.mem_singleton.mp hd]
          exact Nat.mod_lt n (by omega)
      · rw [List.foldl_append, hvalue, List.foldl_cons, List.foldl_nil, Nat.div_add_mod']
      · intro hhead
        rw [List.head?_append_of_ne_nil _ hne] at hhead
        have hquotient := (hzero hhead).2
        rw [Nat.div_eq_zero_iff] at hquotient
        omega

theorem readNumber_toDigits (hradix : radix = 10 ∨ radix = 16) (hmax : n ≤ max)
    (hdigits : n < radix ^ maxDigits) (hpos : 0 < maxDigits) (hrest : NoDigit radix rest) :
    readNumber radix maxDigits azp max (Nat.toDigits radix n ++ rest) = some (n, rest) := by
  have hlt : 1 < radix := by omega
  obtain ⟨ds, htext, hds, hne, hvalue, hzero⟩ := exists_toDigits hlt n
  have hlength : ds.length ≤ maxDigits := by
    rw [← Nat.length_toDigits_le_iff hlt hpos, htext, List.length_map] at hdigits
    exact hdigits
  have hread : readDigits radix (Nat.toDigits radix n ++ rest) = (ds, rest) := by
    rw [htext]
    exact readDigits_append (fun d hd => toDigit_digitChar hradix d (hds d hd)) hrest
  have hprefix : (!azp && ds.head? == some 0 && decide (ds.length > 1)) = false := by
    rw [Bool.and_eq_false_iff, decide_eq_false_iff_not, Bool.and_eq_false_iff, beq_eq_false_iff_ne]
    by_cases hhead : ds.head? = some 0
    · have := (hzero hhead).1
      exact .inr (by omega)
    · exact .inl (.inr hhead)
  simp [readNumber, hread, hvalue, hmax, Nat.not_lt.mpr hlength, hne, hprefix]

/-! ### IPv4 -/

theorem Ipv4Addr.exists_new (a : Ipv4Addr) : ∃ w x y z, a = .new w x y z := by
  obtain ⟨⟨⟨octets⟩, hsize⟩⟩ := a
  match octets, hsize with
  | [w, x, y, z], _ => exact ⟨w, x, y, z, rfl⟩

theorem Ipv4Addr.toList_display (w x y z : UInt8) : (Ipv4Addr.new w x y z).display.toList =
    Nat.toDigits 10 w.toNat ++ '.' :: (Nat.toDigits 10 x.toNat ++ '.' ::
      (Nat.toDigits 10 y.toNat ++ '.' :: Nat.toDigits 10 z.toNat)) := by
  simp [Ipv4Addr.new, Ipv4Addr.display]

theorem noDigit_dot : NoDigit 10 ('.' :: rest) := noDigit_cons (by decide)

theorem readOctet_first (o : UInt8) (hrest : NoDigit 10 rest) :
    readOctet 0 (Nat.toDigits 10 o.toNat ++ rest) = some (o, rest) := by
  have ho : o.toNat < 256 := o.toNat_lt
  have hread : readNumber 10 3 false 255 (Nat.toDigits 10 o.toNat ++ rest) =
      some (o.toNat, rest) :=
    readNumber_toDigits (.inl rfl) (by omega) (by omega) (by decide) hrest
  simp [readOctet, readSeparator, hread]

theorem readOctet_next {index : Nat} (hindex : 0 < index) (o : UInt8) (hrest : NoDigit 10 rest) :
    readOctet index ('.' :: (Nat.toDigits 10 o.toNat ++ rest)) = some (o, rest) := by
  rw [← readOctet_first o hrest]
  simp [readOctet, readSeparator, readGivenChar, hindex]

theorem readIpv4Addr_display (a : Ipv4Addr) (hrest : NoDigit 10 rest) :
    readIpv4Addr (a.display.toList ++ rest) = some (a, rest) := by
  obtain ⟨w, x, y, z, rfl⟩ := a.exists_new
  rw [Ipv4Addr.toList_display]
  simp only [List.append_assoc, List.cons_append, readIpv4Addr, Option.bind_eq_bind,
    Option.bind_some, readOctet_first w noDigit_dot, readOctet_next Nat.one_pos x noDigit_dot,
    readOctet_next Nat.two_pos y noDigit_dot, readOctet_next (by decide : 0 < 3) z hrest]
  rfl

theorem readDigits_head_ne_dot {hs : List Char} (hhs : ∀ c ∈ hs, c ≠ '.')
    (hrest : rest.head? ≠ some '.') (hdigit : NoDigit 10 rest) :
    (readDigits 10 (hs ++ rest)).2.head? ≠ some '.' := by
  induction hs with
  | nil => rwa [List.nil_append, readDigits_of_noDigit hdigit]
  | cons c hs ih =>
    obtain ⟨hc, hhs⟩ := List.forall_mem_cons.mp hhs
    rw [List.cons_append, readDigits]
    cases toDigit 10 c with
    | some d => exact ih hhs
    | none => simpa using hc

theorem readNumber_rest (h : readNumber radix maxDigits azp max cs = some (n, rest)) :
    rest = (readDigits radix cs).2 := by
  simp only [readNumber] at h
  split_ifs at h
  cases h
  rfl

theorem readIpv4Addr_none (hs : List Char) (hhs : ∀ c ∈ hs, c ≠ '.')
    (hrest : rest.head? ≠ some '.') (hdigit : NoDigit 10 rest) :
    readIpv4Addr (hs ++ rest) = none := by
  have hhead := readDigits_head_ne_dot hhs hrest hdigit
  have hnext : ∀ r, readOctet 0 (hs ++ rest) = some r → readOctet 1 r.2 = none := by
    intro r h
    change (readNumber 10 3 false 255 (hs ++ rest)).bind _ = some r at h
    obtain ⟨⟨n, cs⟩, hread, hr⟩ := Option.bind_eq_some_iff.mp h
    cases hr
    rw [← readNumber_rest hread] at hhead
    cases cs with
    | nil => rfl
    | cons c cs =>
      have hc : c ≠ '.' := by simpa using hhead
      simp [readOctet, readSeparator, readGivenChar, hc]
  cases h : readOctet 0 (hs ++ rest) with
  | none => simp [readIpv4Addr, h]
  | some r => simp [readIpv4Addr, h, hnext r h]

/-! ### IPv6 -/

theorem NoDigit.ten (h : NoDigit 16 rest) : NoDigit 10 rest := by
  intro c hc
  have := h c hc
  simp only [toDigit] at this ⊢
  grind

theorem noDigit_colon : NoDigit radix (':' :: rest) := by
  apply noDigit_cons
  simp [toDigit]

def groupsText (index : Nat) (rest : List Char) : List UInt16 → List Char
  | [] => rest
  | g :: gs => (if index > 0 then [':'] else []) ++
    (Nat.toDigits 16 g.toNat ++ groupsText (index + 1) rest gs)

theorem groupsText_head (index : Nat) (gs : List UInt16) (hindex : 0 < index)
    (hrest : NoDigit 16 rest ∧ rest.head? ≠ some '.') :
    NoDigit 16 (groupsText index rest gs) ∧ (groupsText index rest gs).head? ≠ some '.' := by
  cases gs with
  | nil => exact hrest
  | cons g gs =>
    rw [groupsText, if_pos hindex]
    exact ⟨noDigit_colon, by simp⟩

theorem toList_fmtSubslice (gs : List UInt16) : (fmtSubslice gs).toList =
    [':'].intercalate (gs.map fun g => Nat.toDigits 16 g.toNat) := by
  simp [fmtSubslice, hex, String.toList_intercalate, Function.comp_def]

theorem groupsText_cons (index : Nat) (g : UInt16) (gs : List UInt16) :
    groupsText index rest (g :: gs) =
      (if index > 0 then [':'] else []) ++ ((fmtSubslice (g :: gs)).toList ++ rest) := by
  rw [toList_fmtSubslice]
  induction gs generalizing index g with
  | nil => simp [groupsText]
  | cons g' gs ih =>
    rw [groupsText, ih (index + 1) g']
    simp [List.intercalate]

theorem groupsText_zero (gs : List UInt16) :
    groupsText 0 rest gs = (fmtSubslice gs).toList ++ rest := by
  cases gs with
  | nil => rfl
  | cons g gs => exact groupsText_cons 0 g gs

theorem ne_dot_of_mem_toDigits {c : Char} (h : c ∈ Nat.toDigits 16 n) : c ≠ '.' := by
  obtain ⟨ds, htext, hds, -⟩ := exists_toDigits (by decide : 1 < 16) n
  rw [htext] at h
  obtain ⟨d, hd, rfl⟩ := List.mem_map.mp h
  have hall : ∀ d < 16, d.digitChar ≠ '.' := by decide
  exact hall d (hds d hd)

theorem readGroups_groupsText (slots index : Nat) (gs : List UInt16)
    (hslots : gs.length ≤ slots) (hrest : NoDigit 16 rest ∧ rest.head? ≠ some '.')
    (hstop : readGroups (index + gs.length) (slots - gs.length) rest = ([], false, rest)) :
    readGroups index slots (groupsText index rest gs) = (gs, false, rest) := by
  induction gs generalizing slots index with
  | nil => exact hstop
  | cons g gs ih =>
    cases slots with
    | zero => cases hslots
    | succ slots =>
      have htail := groupsText_head (index + 1) gs (Nat.succ_pos index) hrest
      have hbody : readSeparator ':' index (groupsText index rest (g :: gs)) =
          some (Nat.toDigits 16 g.toNat ++ groupsText (index + 1) rest gs) := by
        by_cases hindex : index > 0
        · simp [groupsText, readSeparator, readGivenChar, hindex]
        · simp [groupsText, readSeparator, hindex]
      have hipv4 : readIpv4Addr (Nat.toDigits 16 g.toNat ++ groupsText (index + 1) rest gs) =
          none :=
        readIpv4Addr_none _ (fun c => ne_dot_of_mem_toDigits) htail.2 htail.1.ten
      have hg : g.toNat < 65536 := g.toNat_lt
      have hgroup : readNumber 16 4 true 65535
          (Nat.toDigits 16 g.toNat ++ groupsText (index + 1) rest gs) =
          some (g.toNat, groupsText (index + 1) rest gs) :=
        readNumber_toDigits (.inr rfl) (by omega) (by omega) (by decide) htail.1
      have hgs := ih slots (index + 1) (Nat.le_of_succ_le_succ hslots) (by
        simpa [Nat.add_assoc, Nat.add_comm 1] using hstop)
      simp [readGroups, hbody, hipv4, hgroup, hgs]

theorem readGroups_nil (index slots : Nat) : readGroups index slots [] = ([], false, []) := by
  cases slots with
  | zero => rfl
  | succ slots =>
    by_cases hindex : index > 0
    · simp [readGroups, readSeparator, readGivenChar, hindex]
    · have hipv4 : readIpv4Addr [] = none := by decide
      have hnumber : readNumber 16 4 true 65535 [] = none := by decide
      simp [readGroups, readSeparator, hindex, hipv4, hnumber]

theorem readIpv4Addr_colon : readIpv4Addr (':' :: rest) = none :=
  readIpv4Addr_none [] nofun (by simp) noDigit_colon

theorem readNumber_colon : readNumber radix maxDigits azp max (':' :: rest) = none := by
  simp [readNumber, readDigits_of_noDigit noDigit_colon]

theorem readGroups_colons (index slots : Nat) (rest : List Char) :
    readGroups index slots (':' :: ':' :: rest) = ([], false, ':' :: ':' :: rest) := by
  cases slots with
  | zero => rfl
  | succ slots =>
    by_cases hindex : index > 0
    · simp [readGroups, readSeparator, readGivenChar, hindex, readIpv4Addr_colon, readNumber_colon]
    · simp [readGroups, readSeparator, hindex, readIpv4Addr_colon, readNumber_colon]

/-! ### Runs of zeros -/

structure Span.Zero (z : Span) (segments : List UInt16) (n : Nat) : Prop where
  le : z.start + z.len ≤ n
  zero : ∀ i, z.start ≤ i → i < z.start + z.len → segments[i]? = some 0

theorem Span.Zero.mono {z : Span} {segments : List UInt16} {m : Nat} (h : z.Zero segments n)
    (hle : n ≤ m) : z.Zero segments m := ⟨Nat.le_trans h.le hle, h.zero⟩

theorem Span.zero_empty (segments : List UInt16) : Span.Zero ⟨0, 0⟩ segments n :=
  ⟨Nat.zero_le n, fun _ _ hlt => absurd hlt (Nat.not_lt_zero _)⟩

theorem Span.Zero.extend {z : Span} {segments : List UInt16} (h : z.Zero segments n)
    (hends : z.len ≠ 0 → z.start + z.len = n) (hn : segments[n]? = some 0) :
    Span.Zero ⟨if z.len = 0 then n else z.start, z.len + 1⟩ segments (n + 1) := by
  by_cases hlen : z.len = 0
  · simp only [hlen, if_true]
    refine ⟨by simp, fun i hle hlt => ?_⟩
    obtain rfl : i = n := by
      simp only at hle hlt
      omega
    exact hn
  · have hend := hends hlen
    simp only [hlen, if_false]
    refine ⟨by simp only; omega, fun i hle hlt => ?_⟩
    by_cases hi : i = n
    · rw [hi, hn]
    · apply h.zero i hle
      simp only at hlt
      omega

theorem zero_foldl {segments l : List UInt16} {longest current : Span}
    (hl : segments.drop n = l) (hn : n ≤ segments.length) (hlongest : longest.Zero segments n)
    (hcurrent : current.Zero segments n)
    (hends : current.len ≠ 0 → current.start + current.len = n) :
    ((l.zipIdx n).foldl (fun (longest, current) (segment, i) =>
      if segment = 0 then
        let current : Span := ⟨if current.len = 0 then i else current.start, current.len + 1⟩
        (if current.len > longest.len then current else longest, current)
      else (longest, ⟨0, 0⟩)) ((longest, current) : Span × Span)).1.Zero segments
      segments.length := by
  induction l generalizing n longest current with
  | nil => exact hlongest.mono hn
  | cons s l ih =>
    have hs : segments[n]? = some s := by
      rw [← List.head?_drop, hl, List.head?_cons]
    have hlt : n < segments.length := (List.getElem?_eq_some_iff.mp hs).1
    have hdrop : segments.drop (n + 1) = l := by
      rw [← List.drop_drop, hl, List.drop_one, List.tail_cons]
    rw [List.zipIdx_cons, List.foldl_cons]
    by_cases hzero : s = 0
    · have hextend := hcurrent.extend hends (hzero ▸ hs)
      simp only [hzero, if_true]
      apply ih hdrop hlt _ hextend
      · intro _
        simp only
        split
        · omega
        · have := hends ‹_›
          omega
      · split
        · exact hextend
        · exact hlongest.mono (Nat.le_succ n)
    · simp only [hzero, if_false]
      exact ih hdrop hlt (hlongest.mono (Nat.le_succ n)) (Span.zero_empty segments) (absurd rfl)

theorem zeroes_zero (segments : List UInt16) :
    (zeroes segments).Zero segments segments.length :=
  zero_foldl List.drop_zero (Nat.zero_le _) (Span.zero_empty segments) (Span.zero_empty segments)
    (absurd rfl)

theorem zeroes_replicate (segments : List UInt16) :
    segments.take (zeroes segments).start ++ List.replicate (zeroes segments).len 0 ++
      segments.drop ((zeroes segments).start + (zeroes segments).len) = segments := by
  obtain ⟨hle, hzero⟩ := zeroes_zero segments
  generalize zeroes segments = z at hle hzero
  have hrun : (segments.drop z.start).take z.len = List.replicate z.len 0 := by
    rw [List.eq_replicate_iff, List.length_take, List.length_drop]
    refine ⟨by omega, fun s hs => ?_⟩
    obtain ⟨i, hi, rfl⟩ := List.mem_iff_getElem.mp hs
    rw [List.length_take, List.length_drop] at hi
    have := hzero (z.start + i) (Nat.le_add_right _ _) (by omega)
    rw [List.getElem?_eq_getElem (by omega)] at this
    simpa using this
  rw [← hrun, List.append_assoc, ← List.drop_drop, List.take_append_drop, List.take_append_drop]

/-! ### Addresses -/

theorem segmentsOf_toList (v : Vector UInt16 8) : segmentsOf v.toList = v := by
  apply Vector.ext
  intro i hi
  simp [segmentsOf]

theorem readIpv6Addr_full (a : Ipv6Addr) :
    readIpv6Addr (fmtSubslice a.segments.toList).toList = some (a, []) := by
  have hlength : a.segments.toList.length = 8 := a.segments.length_toList
  have hgroups := readGroups_groupsText 8 0 a.segments.toList (Nat.le_of_eq hlength)
    ⟨noDigit_nil, nofun⟩ (readGroups_nil _ _)
  rw [groupsText_zero, List.append_nil] at hgroups
  simp [readIpv6Addr, hgroups, hlength, segmentsOf_toList]

theorem readIpv6Addr_compressed {head tail : List UInt16} {len : Nat} (a : Ipv6Addr)
    (ha : head ++ List.replicate len 0 ++ tail = a.segments.toList) (hlen : 1 < len) :
    readIpv6Addr ((fmtSubslice head).toList ++ ':' :: ':' :: (fmtSubslice tail).toList) =
      some (a, []) := by
  have hlength : head.length + len + tail.length = 8 := by
    have := congrArg List.length ha
    simpa [Nat.add_assoc] using this
  have hhead := readGroups_groupsText 8 0 head (by omega)
    ⟨noDigit_colon, by simp⟩ (readGroups_colons _ _ (fmtSubslice tail).toList)
  have htail := readGroups_groupsText (8 - (head.length + 1)) 0 tail (by omega)
    ⟨noDigit_nil, nofun⟩ (readGroups_nil _ _)
  rw [groupsText_zero] at hhead htail
  rw [List.append_nil] at htail
  have hzeros : 8 - head.length - tail.length = len := by omega
  have hshort : head.length ≠ 8 := by omega
  simp only [readIpv6Addr, hhead, if_neg hshort, readGivenChar, if_true, Bool.false_eq_true,
    if_false, Option.bind_eq_bind, Option.bind_some, htail, hzeros, ha, segmentsOf_toList]
  rfl

theorem octets_or (x : UInt16) : (x >>> 8 % 256) <<< 8 ||| x % 256 = x := by
  have hx : x.toNat < 65536 := x.toNat_lt
  have hhigh : (x >>> 8 % 256).toNat = x.toNat / 256 := by
    simp [Nat.shiftRight_eq_div_pow]
    omega
  apply UInt16.toNat_inj.mp
  rw [UInt16.toNat_or, UInt16.toNat_shiftLeft, hhigh]
  have hlow : (x % 256).toNat = x.toNat % 256 := by simp
  have hshift : (x.toNat / 256) <<< 8 < 65536 := by
    rw [Nat.shiftLeft_eq]
    omega
  have hbits : ((8 : UInt16).toNat % 16) = 8 := by decide
  rw [hlow, hbits]
  change (x.toNat / 256) <<< 8 % 65536 ||| x.toNat % 256 = x.toNat
  rw [Nat.mod_eq_of_lt hshift,
    ← Nat.shiftLeft_add_eq_or_of_lt (i := 8) (Nat.mod_lt x.toNat (by decide)), Nat.shiftLeft_eq]
  omega

theorem readIpv6Addr_mapped {a : Ipv6Addr} {x y : UInt16}
    (ha : a.segments.toList = [0, 0, 0, 0, 0, 0xffff, x, y]) :
    readIpv6Addr (':' :: ':' :: 'f' :: 'f' :: 'f' :: 'f' :: ':' ::
      (Ipv4Addr.new (x >>> 8).toUInt8 x.toUInt8 (y >>> 8).toUInt8 y.toUInt8).display.toList) =
      some (a, []) := by
  have hipv4 := readIpv4Addr_display
    (Ipv4Addr.new (x >>> 8).toUInt8 x.toUInt8 (y >>> 8).toUInt8 y.toUInt8) noDigit_nil
  rw [List.append_nil] at hipv4
  generalize (Ipv4Addr.new (x >>> 8).toUInt8 x.toUInt8 (y >>> 8).toUInt8 y.toUInt8).display.toList
    = text at hipv4
  have hlast : readGroups 1 6 (':' :: text) = ([x, y], true, []) := by
    simp [readGroups, readSeparator, readGivenChar, hipv4, Ipv4Addr.new, octets_or]
  have hffff : readNumber 16 4 true 65535 ('f' :: 'f' :: 'f' :: 'f' :: ':' :: text) =
      some (65535, ':' :: text) :=
    readNumber_toDigits (n := 65535) (.inr rfl) (by decide) (by decide) (by decide) noDigit_colon
  have hnone : readIpv4Addr ('f' :: 'f' :: 'f' :: 'f' :: ':' :: text) = none :=
    readIpv4Addr_none ['f', 'f', 'f', 'f'] (List.all_iff_forall_prop.mp (by decide)) (by simp)
      noDigit_colon
  have htail : readGroups 0 7 ('f' :: 'f' :: 'f' :: 'f' :: ':' :: text) =
      ([0xffff, x, y], true, []) := by
    rw [readGroups]
    simp [readSeparator, hffff, hnone, hlast]
  have hhead := readGroups_colons 0 8 ('f' :: 'f' :: 'f' :: 'f' :: ':' :: text)
  have hsegments : segmentsOf [0, 0, 0, 0, 0, 65535, x, y] = a.segments := by
    rw [← ha, segmentsOf_toList]
  simp [readIpv6Addr, hhead, readGivenChar, htail, hsegments]

theorem readIpv6Addr_display (a : Ipv6Addr) : readIpv6Addr a.display.toList = some (a, []) := by
  unfold Ipv6Addr.display Ipv6Addr.toIpv4Mapped
  split
  · rename_i v4 hmapped
    split at hmapped
    · rename_i x y ha
      cases hmapped
      rw [String.toList_append]
      exact readIpv6Addr_mapped ha
    · cases hmapped
  · simp only []
    split
    · rename_i hlen
      rw [String.toList_append, String.toList_append]
      simpa using readIpv6Addr_compressed a (zeroes_replicate a.segments.toList) hlen
    · exact readIpv6Addr_full a

theorem readIpv4Addr_fmtSubslice (gs : List UInt16)
    (hrest : NoDigit 16 rest ∧ rest.head? ≠ some '.') :
    readIpv4Addr ((fmtSubslice gs).toList ++ rest) = none := by
  rw [← groupsText_zero]
  cases gs with
  | nil => exact readIpv4Addr_none [] nofun hrest.2 hrest.1.ten
  | cons g gs =>
    have htail := groupsText_head 1 gs Nat.one_pos hrest
    exact readIpv4Addr_none (Nat.toDigits 16 g.toNat)
      (fun c => ne_dot_of_mem_toDigits) htail.2 htail.1.ten

theorem readIpv4Addr_display_none (a : Ipv6Addr) : readIpv4Addr a.display.toList = none := by
  unfold Ipv6Addr.display
  split
  · rw [String.toList_append]
    exact readIpv4Addr_colon
  · simp only []
    split
    · rw [String.toList_append, String.toList_append, List.append_assoc]
      exact readIpv4Addr_fmtSubslice _ ⟨noDigit_colon, by simp⟩
    · rw [← List.append_nil (fmtSubslice _).toList]
      exact readIpv4Addr_fmtSubslice _ ⟨noDigit_nil, nofun⟩

theorem IpAddr.parse_display (ip : IpAddr) : IpAddr.parse ip.display.toList = some ip := by
  cases ip with
  | v4 a =>
    have := readIpv4Addr_display a noDigit_nil
    rw [List.append_nil] at this
    simp [IpAddr.display, IpAddr.parse, this]
  | v6 a => simp [IpAddr.display, IpAddr.parse, readIpv4Addr_display_none, readIpv6Addr_display]

/-! ### The characters of an address -/

def AddrChar (c : Char) : Prop := c ∈ ".:0123456789abcdef".toList

theorem addrChar_of_mem_toDigits {c : Char} (hradix : radix = 10 ∨ radix = 16)
    (h : c ∈ Nat.toDigits radix n) : AddrChar c := by
  have hlt : 1 < radix := by omega
  obtain ⟨ds, htext, hds, -⟩ := exists_toDigits hlt n
  rw [htext] at h
  obtain ⟨d, hd, rfl⟩ := List.mem_map.mp h
  have hall : ∀ d < 16, AddrChar d.digitChar := by
    unfold AddrChar
    decide
  have := hds d hd
  exact hall d (by omega)

theorem addrChar_ipv4 (a : Ipv4Addr) : ∀ c ∈ a.display.toList, AddrChar c := by
  obtain ⟨w, x, y, z, rfl⟩ := a.exists_new
  have hdot : AddrChar '.' := by
    unfold AddrChar
    decide
  have hdigits : ∀ n, ∀ c ∈ Nat.toDigits 10 n, AddrChar c :=
    fun n c => addrChar_of_mem_toDigits (.inl rfl)
  simp only [Ipv4Addr.toList_display, List.forall_mem_append, List.forall_mem_cons]
  exact ⟨hdigits _, hdot, hdigits _, hdot, hdigits _, hdot, hdigits _⟩

theorem addrChar_colon : AddrChar ':' := by
  unfold AddrChar
  decide

theorem addrChar_groupsText (index : Nat) (gs : List UInt16) (hrest : ∀ c ∈ rest, AddrChar c) :
    ∀ c ∈ groupsText index rest gs, AddrChar c := by
  induction gs generalizing index with
  | nil => exact hrest
  | cons g gs ih =>
    rw [groupsText, List.forall_mem_append, List.forall_mem_append]
    refine ⟨fun c hc => ?_, fun c => addrChar_of_mem_toDigits (.inr rfl), ih (index + 1)⟩
    split at hc
    · rw [List.mem_singleton.mp hc]
      exact addrChar_colon
    · cases hc

theorem addrChar_fmtSubslice (gs : List UInt16) :
    ∀ c ∈ (fmtSubslice gs).toList, AddrChar c := by
  have hchars := addrChar_groupsText 0 gs (List.forall_mem_nil AddrChar)
  rwa [groupsText_zero, List.append_nil] at hchars

theorem addrChar_ipv6 (a : Ipv6Addr) : ∀ c ∈ a.display.toList, AddrChar c := by
  have hcolons : ∀ c ∈ "::".toList, AddrChar c := by
    unfold AddrChar
    exact List.all_iff_forall_prop.mp (by decide)
  have hmapped : ∀ c ∈ "::ffff:".toList, AddrChar c := by
    unfold AddrChar
    exact List.all_iff_forall_prop.mp (by decide)
  unfold Ipv6Addr.display
  split
  · rw [String.toList_append, List.forall_mem_append]
    exact ⟨hmapped, addrChar_ipv4 _⟩
  · simp only []
    split
    · rw [String.toList_append, String.toList_append, List.forall_mem_append,
        List.forall_mem_append]
      exact ⟨⟨addrChar_fmtSubslice _, hcolons⟩, addrChar_fmtSubslice _⟩
    · exact addrChar_fmtSubslice _

theorem IpAddr.addrChar_display (ip : IpAddr) : ∀ c ∈ ip.display.toList, AddrChar c := by
  cases ip with
  | v4 a => exact addrChar_ipv4 a
  | v6 a => exact addrChar_ipv6 a

theorem AddrChar.plain {c : Char} (h : AddrChar c) :
    isWhitespace c = false ∧ c ≠ '%' ∧ c ≠ '\n' := by
  have hall : ∀ c ∈ ".:0123456789abcdef".toList,
      isWhitespace c = false ∧ c ≠ '%' ∧ c ≠ '\n' :=
    List.all_iff_forall_prop.mp (by decide)
  exact hall c h

end Detour.Rust
