import Detour.Core.Policy
import Detour.Lib.Delimited

/-! Routing by labels, and when the matcher that works on text agrees with it. -/

namespace Detour.Core

open Detour.Rust Delimited

def star : Bytes := [42]

structure Rule where
  wildcard : Bool
  labels : List Bytes
  /-- How many dots follow. -/
  dots : Nat
  nonempty : labels ≠ []
  label : ∀ l ∈ labels, l ≠ [] ∧ dot ∉ l
  /-- What begins with `*.` is a wildcard. -/
  exact : wildcard = false → labels.head? = some star → labels.length = 1

def Rule.text (r : Rule) : Bytes :=
  (if r.wildcard then ascii "*." else []) ++ [dot].intercalate r.labels ++
    List.replicate r.dots dot

/-- The labels of the rule end those of the name, and with a wildcard there are more. -/
def Rule.Matches (r : Rule) (n : Name) : Prop :=
  r.labels.map lowerBytes <:+ n.labels.map lowerBytes ∧
    (r.wildcard = true → r.labels.length ≠ n.labels.length)

instance (r : Rule) (n : Name) : Decidable (r.Matches n) :=
  inferInstanceAs (Decidable (_ ∧ _))

structure RulePolicy where
  defaultDoh : Bool
  forceDoh : List Rule
  forceLocal : List Rule

def RulePolicy.toPolicy (p : RulePolicy) : Policy :=
  ⟨p.defaultDoh, p.forceDoh.map Rule.text, p.forceLocal.map Rule.text⟩

/-! ### Bytes -/

theorem lowerByte_dot : lowerByte dot = dot := rfl

theorem lowerByte_eq_dot (b : UInt8) : lowerByte b = lowerByte dot ↔ b = dot := by
  rw [lowerByte_dot]
  unfold lowerByte dot
  split <;> grind

theorem lowerBytes_eq_star (s : Bytes) : lowerBytes s = star ↔ s = star := by
  have hbyte : ∀ b, lowerByte b = 42 ↔ b = 42 := by
    intro b
    unfold lowerByte
    split <;> grind
  match s with
  | [] => exact Iff.rfl
  | [b] => simp [lowerBytes, star, hbyte b]
  | _ :: _ :: _ => simp [lowerBytes, star]

theorem dot_mem_lowerBytes {s : Bytes} : dot ∈ lowerBytes s ↔ dot ∈ s := by
  unfold lowerBytes
  rw [List.mem_map]
  constructor
  · rintro ⟨b, hb, heq⟩
    rw [← lowerByte_dot] at heq
    exact (lowerByte_eq_dot b).mp heq ▸ hb
  · exact fun h => ⟨dot, h, rfl⟩

theorem lowerBytes_ne_nil {s : Bytes} (h : s ≠ []) : lowerBytes s ≠ [] :=
  fun hnil => h (List.map_eq_nil_iff.mp hnil)

theorem splitOn_lowerBytes (s : Bytes) :
    (lowerBytes s).splitOn dot = (s.splitOn dot).map lowerBytes :=
  splitOn_map lowerByte_eq_dot s

theorem lowerBytes_intercalate (ls : List Bytes) :
    lowerBytes ([dot].intercalate ls) = [dot].intercalate (ls.map lowerBytes) :=
  map_intercalate lowerByte ls

theorem trimEndMatches_concat {c : UInt8} (hc : c ≠ dot) (s : Bytes) :
    trimEndMatches dot (s ++ [c]) = s ++ [c] :=
  List.rdropWhile_concat_neg _ _ _ (by simpa using hc)

theorem trimEndMatches_concat_dot (s : Bytes) :
    trimEndMatches dot (s ++ [dot]) = trimEndMatches dot s :=
  List.rdropWhile_concat_pos _ _ _ (by simp)

theorem trimEndMatches_dots (s : Bytes) (k : Nat) :
    trimEndMatches dot (s ++ List.replicate k dot) = trimEndMatches dot s := by
  induction k with
  | zero => simp
  | succ k ih =>
    rw [List.replicate_succ', ← List.append_assoc, trimEndMatches_concat_dot, ih]

/-! ### A rule -/

theorem exists_concat {l : Bytes} (hne : l ≠ []) (hdot : dot ∉ l) :
    ∃ q c, l = q ++ [c] ∧ c ≠ dot := by
  obtain ⟨q, c, rfl⟩ := (List.eq_nil_or_concat' l).resolve_left hne
  refine ⟨q, c, rfl, ?_⟩
  rintro rfl
  exact hdot (by simp)

theorem trimEndMatches_intercalate {ls : List Bytes} (hne : ls ≠ [])
    (hl : ∀ l ∈ ls, l ≠ [] ∧ dot ∉ l) (p : Bytes) :
    trimEndMatches dot (p ++ [dot].intercalate ls) = p ++ [dot].intercalate ls := by
  obtain ⟨init, l, rfl⟩ := (List.eq_nil_or_concat' ls).resolve_left hne
  obtain ⟨hlne, hldot⟩ := hl l (by simp)
  obtain ⟨q, c, rfl, hc⟩ := exists_concat hlne hldot
  obtain ⟨pre, hpre⟩ := intercalate_concat dot init
  have htext : p ++ [dot].intercalate (init ++ [q ++ [c]]) = p ++ pre ++ q ++ [c] := by
    rw [hpre]
    simp
  rw [htext, trimEndMatches_concat hc]

theorem normaliseStr_text (r : Rule) : normaliseStr r.text =
    (if r.wildcard then ascii "*." else []) ++ [dot].intercalate (r.labels.map lowerBytes) := by
  rw [normaliseStr, Rule.text, trimEndMatches_dots, trimEndMatches_intercalate r.nonempty r.label,
    lowerBytes, List.map_append, ← lowerBytes_intercalate]
  congr 1
  cases r.wildcard <;> rfl

theorem Rule.lower_nonempty (r : Rule) : r.labels.map lowerBytes ≠ [] :=
  fun h => r.nonempty (List.map_eq_nil_iff.mp h)

theorem Rule.lower_label (r : Rule) : ∀ l ∈ r.labels.map lowerBytes, l ≠ [] ∧ dot ∉ l := by
  intro l hl
  obtain ⟨l', hl', rfl⟩ := List.mem_map.mp hl
  obtain ⟨hne, hdot⟩ := r.label l' hl'
  exact ⟨lowerBytes_ne_nil hne, fun h => hdot (dot_mem_lowerBytes.mp h)⟩

theorem stripPrefix_exact (r : Rule) (hr : r.wildcard = false) :
    stripPrefixBytes (ascii "*.") ([dot].intercalate (r.labels.map lowerBytes)) = none := by
  unfold stripPrefixBytes
  rw [if_neg]
  intro hp
  obtain ⟨rest, hrest⟩ := List.isPrefixOf_iff_prefix.mp hp
  have hsplit := List.splitOn_intercalate dot (fun l hl => (r.lower_label l hl).2)
    r.lower_nonempty
  have htext : ascii "*." ++ rest = star ++ dot :: rest := rfl
  rw [← hrest, htext, List.splitOn_append_cons_self] at hsplit
  have hstar : star.splitOn dot = [star] := by decide
  rw [hstar, List.singleton_append] at hsplit
  match hls : r.labels with
  | [] => exact r.nonempty hls
  | l :: ls =>
    rw [hls, List.map_cons, List.cons.injEq] at hsplit
    have hl : l = star := (lowerBytes_eq_star l).mp hsplit.1.symm
    have hlen := r.exact hr (by rw [hls, hl]; rfl)
    rw [hls] at hlen
    rw [List.eq_nil_of_length_eq_zero (Nat.succ.inj hlen), List.map_nil] at hsplit
    exact List.splitOn_ne_nil dot rest hsplit.2

theorem endsBelow_iff (name suffix : Bytes) :
    endsBelow name suffix = true ↔ ∃ p, name = p ++ dot :: suffix := by
  rw [← before_iff]
  simp [endsBelow, and_assoc]

/-- What the matcher sees of a name are the pieces of its text. -/
theorem suffixMatches_iff (name : Bytes) (r : Rule) : suffixMatches name r.text = true ↔
    r.labels.map lowerBytes <:+ name.splitOn dot ∧
      (r.wildcard = true → r.labels.map lowerBytes ≠ name.splitOn dot) := by
  have hne := r.lower_nonempty
  have hdot : ∀ l ∈ r.labels.map lowerBytes, dot ∉ l := fun l hl => (r.lower_label l hl).2
  have hsome : normaliseStr r.text ≠ [] := by
    rw [normaliseStr_text]
    intro hnil
    have hls := (eq_intercalate_iff hne hdot).mp (List.append_eq_nil_iff.mp hnil).2.symm
    have hmem : [] ∈ r.labels.map lowerBytes := by
      rw [hls, List.splitOn_nil]
      exact List.mem_singleton_self []
    exact (r.lower_label [] hmem).1 rfl
  unfold suffixMatches
  rw [if_neg hsome, normaliseStr_text]
  cases hw : r.wildcard with
  | true =>
    have hstrip : stripPrefixBytes (ascii "*.")
        (ascii "*." ++ [dot].intercalate (r.labels.map lowerBytes)) =
          some ([dot].intercalate (r.labels.map lowerBytes)) := by
      simp [stripPrefixBytes]
    simp only [if_true, hstrip, endsBelow_iff, under_iff hne hdot, forall_true_left]
  | false =>
    simp only [Bool.false_eq_true, if_false, List.nil_append, stripPrefix_exact r hw,
      Bool.or_eq_true, beq_iff_eq, endsBelow_iff, ends_iff hne hdot, false_implies, and_true]

/-! ### A name -/

def Name.pieces (n : Name) : List Bytes := (trimEndMatches dot n.toAscii).splitOn dot

theorem splitOn_normalise (n : Name) :
    (normalise n).splitOn dot = n.pieces.map lowerBytes := splitOn_lowerBytes _

theorem escape_append (x y : Bytes) : escape (x ++ y) = escape x ++ escape y :=
  List.flatMap_append

theorem escape_of_notMem {l : Bytes} (h : dot ∉ l) : escape l = l := by
  induction l with
  | nil => rfl
  | cons b l ih =>
    rw [List.mem_cons, not_or] at h
    have hb : b ≠ dot := fun heq => h.1 heq.symm
    rw [escape, List.flatMap_cons, if_neg hb]
    exact congrArg (b :: ·) (ih h.2)

theorem flatMap_escape {ls : List Bytes} (h : ∀ l ∈ ls, dot ∉ l) :
    ls.flatMap (fun l => (escape l).splitOn dot) = ls := by
  induction ls with
  | nil => rfl
  | cons l ls ih =>
    rw [List.flatMap_cons, escape_of_notMem (h l List.mem_cons_self),
      List.splitOn_eq_singleton (h l List.mem_cons_self),
      ih fun l' hl' => h l' (List.mem_cons_of_mem l hl')]
    rfl

def closing (c : UInt8) : UInt8 := if c = dot then backslash else c

theorem closing_ne_dot (c : UInt8) : closing c ≠ dot := by
  unfold closing
  split
  next => decide
  next hc => exact hc

theorem trimEndMatches_escape (p q : Bytes) (c : UInt8) :
    trimEndMatches dot (p ++ escape (q ++ [c])) = p ++ (escape q ++ [closing c]) := by
  rw [escape_append, closing]
  by_cases hc : c = dot
  · subst hc
    have htext : p ++ (escape q ++ escape [dot]) = p ++ escape q ++ [backslash] ++ [dot] := by
      simp [escape]
    rw [htext, trimEndMatches_concat_dot, trimEndMatches_concat (by decide)]
    simp
  · have htext : p ++ (escape q ++ escape [c]) = p ++ escape q ++ [c] := by simp [escape, hc]
    rw [htext, trimEndMatches_concat hc]
    simp [hc]

theorem pieces_concat {n : Name} {init : List Bytes} {q : Bytes} {c : UInt8}
    (h : n.labels = init ++ [q ++ [c]]) : n.pieces =
      init.flatMap (fun l => (escape l).splitOn dot) ++
        (escape q ++ [closing c]).splitOn dot := by
  obtain ⟨p, hp⟩ := intercalate_concat dot (init.map escape)
  have htext : trimEndMatches dot n.toAscii =
      [dot].intercalate (init.map escape ++ [escape q ++ [closing c]]) := by
    rw [Name.toAscii, h, List.map_append, List.map_singleton, hp, trimEndMatches_escape, hp]
  rw [Name.pieces, htext, splitOn_intercalate_flatMap (by simp), List.flatMap_append,
    List.flatMap_map, List.flatMap_singleton]

theorem pieces_append {n : Name} {a b : List Bytes} (h : n.labels = a ++ b) (hb : b ≠ [])
    (hdot : ∀ l ∈ b, dot ∉ l) :
    n.pieces = a.flatMap (fun l => (escape l).splitOn dot) ++ b := by
  obtain ⟨init, l, rfl⟩ := (List.eq_nil_or_concat' b).resolve_left hb
  have hl : dot ∉ l := hdot l (by simp)
  obtain ⟨q, c, rfl, hc⟩ := exists_concat (n.nonempty l (by simp [h])) hl
  have hq : dot ∉ q := fun hmem => hl (by simp [hmem])
  rw [← List.append_assoc] at h
  rw [pieces_concat h, closing, if_neg hc, escape_of_notMem hq, List.splitOn_eq_singleton hl,
    List.flatMap_append, List.append_assoc]
  congr 2
  exact flatMap_escape fun l' hl' => hdot l' (by simp [hl'])

theorem splitOn_escape_dot (q : Bytes) : (escape (q ++ [dot])).splitOn dot =
    (escape q ++ [backslash]).splitOn dot ++ [[]] := by
  have htext : escape (q ++ [dot]) = escape q ++ [backslash] ++ dot :: [] := by
    simp [escape]
  rw [htext, List.splitOn_append_cons_self, List.splitOn_nil]

theorem splitOn_escape_last {p : Bytes} (hp : dot ∉ p) (q : Bytes) : ∃ init piece,
    (escape (q ++ dot :: p)).splitOn dot = init ++ [piece ++ [backslash], p] := by
  have htext : escape (q ++ dot :: p) = escape q ++ [backslash] ++ dot :: p := by
    have hcons : escape (dot :: p) = [backslash, dot] ++ escape p := rfl
    rw [escape_append, hcons, escape_of_notMem hp]
    simp
  obtain ⟨init, piece, h⟩ := splitOn_concat (by decide : backslash ≠ dot) (escape q)
  refine ⟨init, piece, ?_⟩
  rw [htext, List.splitOn_append_cons_self, h, List.splitOn_eq_singleton hp]
  simp

/-! ### Routing by labels -/

def Rule.suffix (labels : List Bytes)
    (h : labels ≠ [] ∧ (∀ l ∈ labels, l ≠ [] ∧ dot ∉ l) ∧ labels.head? ≠ some star) : Rule where
  wildcard := false
  labels := labels
  dots := 0
  nonempty := h.1
  label := h.2.1
  exact _ hstar := absurd hstar h.2.2

def localRules : List Rule :=
  [.suffix [ascii "local"] (by decide), .suffix [ascii "lan"] (by decide),
    .suffix [ascii "home"] (by decide), .suffix [ascii "home", ascii "arpa"] (by decide),
    .suffix [ascii "internal"] (by decide), .suffix [ascii "intranet"] (by decide),
    .suffix [ascii "localdomain"] (by decide), .suffix [ascii "localhost"] (by decide)]

theorem localRules_text : localRules.map Rule.text = LOCAL_SUFFIXES := by decide

def Name.BuiltinLocal (n : Name) : Prop :=
  (∃ r ∈ localRules, r.Matches n) ∨ n.labels.length = 1 ∨ isPrivateReverse (normalise n) = true

instance (n : Name) : Decidable n.BuiltinLocal :=
  inferInstanceAs (Decidable (_ ∨ _ ∨ _))

def RulePolicy.route (p : RulePolicy) (n : Name) : Route :=
  if ∃ r ∈ p.forceLocal, r.Matches n then .systemUpstream
  else if n.BuiltinLocal then .systemUpstream
  else if ∃ r ∈ p.forceDoh, r.Matches n then .doh
  else if p.defaultDoh then .doh
  else .systemUpstream

/-- What is decided about a name is decided by its labels. -/
structure DecidedByLabels (n : Name) : Prop where
  rules : ∀ r : Rule, suffixMatches (normalise n) r.text = true ↔ r.Matches n
  single : isSingleLabel (normalise n) = true ↔ n.labels.length = 1
  route : ∀ p : RulePolicy, p.toPolicy.route n = p.route n

theorem any_text {n : Name}
    (h : ∀ r : Rule, suffixMatches (normalise n) r.text = true ↔ r.Matches n) (rs : List Rule) :
    ((rs.map Rule.text).any fun s => suffixMatches (normalise n) s) = true ↔
      ∃ r ∈ rs, r.Matches n := by
  rw [List.any_map, List.any_eq_true]
  constructor
  · rintro ⟨r, hr, hm⟩
    exact ⟨r, hr, (h r).mp hm⟩
  · rintro ⟨r, hr, hm⟩
    exact ⟨r, hr, (h r).mpr hm⟩

theorem decidedByLabels {n : Name}
    (hrules : ∀ r : Rule, suffixMatches (normalise n) r.text = true ↔ r.Matches n)
    (hsingle : isSingleLabel (normalise n) = true ↔ n.labels.length = 1) :
    DecidedByLabels n := by
  refine ⟨hrules, hsingle, fun p => ?_⟩
  have hlocal : isBuiltinLocal (normalise n) = true ↔ n.BuiltinLocal := by
    unfold isBuiltinLocal Name.BuiltinLocal
    rw [← localRules_text, ← any_text hrules, ← hsingle]
    split
    next h => simp [h]
    next h =>
      split
      next h' => simp [h']
      next h' => simp [h, h']
  exact if_congr (any_text hrules p.forceLocal) rfl
    (if_congr hlocal rfl (if_congr (any_text hrules p.forceDoh) rfl rfl))

/-! ### Where the text misleads -/

/-- The name is not the root, and the last label with a dot in it, if there is one, ends in that
dot and is not the last label. -/
def Name.Clear (n : Name) : Prop :=
  n.labels ≠ [] ∧ ∀ a l b, n.labels = a ++ l :: b → dot ∈ l → (∀ l' ∈ b, dot ∉ l') →
    b ≠ [] ∧ l.getLast? = some dot

theorem exists_last_dotted (ls : List Bytes) : (∀ l ∈ ls, dot ∉ l) ∨
    ∃ a l b, ls = a ++ l :: b ∧ dot ∈ l ∧ ∀ l' ∈ b, dot ∉ l' := by
  induction ls with
  | nil => exact .inl fun l hl => absurd hl List.not_mem_nil
  | cons x ls ih =>
    rcases ih with hplain | ⟨a, l, b, rfl, hl, hb⟩
    · by_cases hx : dot ∈ x
      · exact .inr ⟨[], x, ls, rfl, hx, hplain⟩
      · exact .inl (List.forall_mem_cons.mpr ⟨hx, hplain⟩)
    · exact .inr ⟨x :: a, l, b, rfl, hl, hb⟩

theorem map_lowerBytes_append (a b : List Bytes) (l : Bytes) : (a ++ l :: b).map lowerBytes =
    a.map lowerBytes ++ lowerBytes l :: b.map lowerBytes := by simp

theorem rules_of_empty_piece {n : Name} {a b ps : List Bytes} {l : Bytes}
    (hlabels : n.labels = a ++ l :: b) (hl : dot ∈ l) (hpieces : n.pieces = ps ++ [] :: b)
    (r : Rule) : suffixMatches (normalise n) r.text = true ↔ r.Matches n := by
  have hempty : lowerBytes [] ∉ r.labels.map lowerBytes := fun h => (r.lower_label _ h).1 rfl
  have hdotted : lowerBytes l ∉ r.labels.map lowerBytes :=
    fun h => (r.lower_label _ h).2 (dot_mem_lowerBytes.mpr hl)
  rw [suffixMatches_iff, splitOn_normalise, Rule.Matches, hlabels, hpieces,
    map_lowerBytes_append, map_lowerBytes_append, suffix_append_cons hempty,
    suffix_append_cons hdotted]
  refine and_congr_right fun hsuffix => ?_
  have hlen := hsuffix.length_le
  rw [List.length_map, List.length_map] at hlen
  refine iff_of_true (fun _ heq => hempty ?_) fun _ heq => ?_
  · rw [heq]
    simp
  · rw [heq, List.length_append, List.length_cons] at hlen
    omega

theorem rules_of_plain {n : Name} (hpieces : n.pieces = n.labels) (r : Rule) :
    suffixMatches (normalise n) r.text = true ↔ r.Matches n := by
  rw [suffixMatches_iff, splitOn_normalise, hpieces, Rule.Matches]
  refine and_congr_right fun hsuffix => imp_congr_right fun _ => not_congr ?_
  constructor
  · intro heq
    simpa using congrArg List.length heq
  · intro heq
    exact hsuffix.eq_of_length (by simpa using heq)

theorem isSingleLabel_iff (n : Name) :
    isSingleLabel (normalise n) = true ↔ n.pieces.length = 1 := by
  have hcontains : isSingleLabel (normalise n) = true ↔ dot ∉ normalise n := by
    simp [isSingleLabel]
  rw [hcontains, notMem_iff_length_splitOn, splitOn_normalise, List.length_map]

theorem Name.Clear.decided {n : Name} (h : n.Clear) : DecidedByLabels n := by
  obtain ⟨hne, hdots⟩ := h
  rcases exists_last_dotted n.labels with hplain | ⟨a, l, b, hlabels, hl, hb⟩
  · have hpieces : n.pieces = n.labels := by
      rw [pieces_append (a := []) rfl hne hplain]
      rfl
    refine decidedByLabels (rules_of_plain hpieces) ?_
    rw [isSingleLabel_iff, hpieces]
  · obtain ⟨hbne, hlast⟩ := hdots a l b hlabels hl hb
    obtain ⟨q, rfl⟩ := List.getLast?_eq_some_iff.mp hlast
    have hlabels' : n.labels = (a ++ [q ++ [dot]]) ++ b := by simp [hlabels]
    have hpieces := pieces_append hlabels' hbne hb
    rw [List.flatMap_append, List.flatMap_singleton, splitOn_escape_dot] at hpieces
    simp only [List.append_assoc, List.singleton_append] at hpieces
    rw [← List.append_assoc] at hpieces
    refine decidedByLabels (rules_of_empty_piece hlabels hl hpieces) ?_
    have hpos : 0 < b.length := List.length_pos_of_ne_nil hbne
    rw [isSingleLabel_iff, hpieces, hlabels]
    refine iff_of_false ?_ ?_
    · simp only [List.length_append, List.length_cons]
      omega
    · simp only [List.length_append, List.length_cons]
      omega

theorem not_decided_of_piece {n : Name} {a b c ps : List Bytes} {l p : Bytes}
    (hlabels : n.labels = a ++ l :: b) (hl : dot ∈ l) (hp : dot ∉ p)
    (hpieces : n.pieces = ps ++ (c ++ p :: b)) {r : Rule} (hr : r.wildcard = false)
    (hrl : r.labels = c ++ p :: b) : ¬DecidedByLabels n := by
  intro h
  have hcode : suffixMatches (normalise n) r.text = true := by
    rw [suffixMatches_iff, splitOn_normalise, hpieces, hrl, hr]
    exact ⟨(List.suffix_append ps _).map lowerBytes, nofun⟩
  have hsuffix := ((h.rules r).mp hcode).1
  rw [hrl, hlabels, map_lowerBytes_append, map_lowerBytes_append] at hsuffix
  have hp' : lowerBytes p :: b.map lowerBytes <:+
      a.map lowerBytes ++ lowerBytes l :: b.map lowerBytes :=
    (List.suffix_append _ _).trans hsuffix
  have heq := List.suffix_of_suffix_length_le hp' (List.suffix_append _ _) (by simp)
  have hcons := heq.eq_of_length (by simp)
  have hhead := (List.cons.inj hcons).1
  exact hp (dot_mem_lowerBytes.mp (hhead ▸ dot_mem_lowerBytes.mpr hl))

theorem not_decided_of_last {n : Name} {a : List Bytes} {l : Bytes}
    (hlabels : n.labels = a ++ [l]) (hl : dot ∈ l) : ¬DecidedByLabels n := by
  obtain ⟨q, c, rfl⟩ := (List.eq_nil_or_concat' l).resolve_left (List.ne_nil_of_mem hl)
  obtain ⟨init, piece, hsplit⟩ := splitOn_concat (closing_ne_dot c) (escape q)
  have hdot : dot ∉ piece ++ [closing c] := by
    apply notMem_of_mem_splitOn (f := escape q ++ [closing c])
    rw [hsplit]
    simp
  have hpieces := pieces_concat hlabels
  rw [hsplit, ← List.append_assoc] at hpieces
  refine not_decided_of_piece hlabels hl hdot (c := []) hpieces
    (r := ⟨false, [piece ++ [closing c]], 0, by simp, ?_, fun _ _ => rfl⟩) rfl rfl
  intro l' hl'
  obtain rfl := List.mem_singleton.mp hl'
  exact ⟨by simp, hdot⟩

theorem exists_last_dot {l : Bytes} (h : dot ∈ l) : ∃ q p, l = q ++ dot :: p ∧ dot ∉ p := by
  obtain ⟨as, bs, hrev, has⟩ := List.eq_append_cons_of_mem (List.mem_reverse.mpr h)
  refine ⟨bs.reverse, as.reverse, ?_, fun hmem => has (List.mem_reverse.mp hmem)⟩
  rw [← List.reverse_reverse l, hrev]
  simp

theorem not_decided_of_inner {n : Name} {a b : List Bytes} {l : Bytes}
    (hlabels : n.labels = a ++ l :: b) (hl : dot ∈ l) (hb : ∀ l' ∈ b, dot ∉ l') (hne : b ≠ [])
    (hlast : l.getLast? ≠ some dot) : ¬DecidedByLabels n := by
  obtain ⟨q, p, rfl, hp⟩ := exists_last_dot hl
  have hpne : p ≠ [] := by
    rintro rfl
    exact hlast (by simp)
  obtain ⟨init, piece, hsplit⟩ := splitOn_escape_last hp q
  have hdot : dot ∉ piece ++ [backslash] := by
    apply notMem_of_mem_splitOn (f := escape (q ++ dot :: p))
    rw [hsplit]
    simp
  have hlabels' : n.labels = (a ++ [q ++ dot :: p]) ++ b := by simp [hlabels]
  have hpieces := pieces_append hlabels' hne hb
  rw [List.flatMap_append, List.flatMap_singleton, hsplit, ← List.append_assoc,
    List.append_assoc] at hpieces
  refine not_decided_of_piece hlabels hl hp (c := [piece ++ [backslash]]) hpieces
    (r := ⟨false, [piece ++ [backslash]] ++ p :: b, 0, by simp, ?_, ?_⟩) rfl rfl
  · intro l' hl'
    rcases List.mem_append.mp hl' with hl' | hl'
    · obtain rfl := List.mem_singleton.mp hl'
      exact ⟨by simp, hdot⟩
    · rcases List.mem_cons.mp hl' with rfl | hl'
      · exact ⟨hpne, hp⟩
      · exact ⟨n.nonempty l' (by simp [hlabels, hl']), hb l' hl'⟩
  · intro _ hstar
    have hend := congrArg List.getLast? (Option.some.inj hstar)
    simp [star, backslash] at hend

/-- Names are routed by their labels, and every rule matches by labels, exactly for the names in
which no dot of a label passes for one between labels, and that are not the root. -/
theorem decidedByLabels_iff (n : Name) : DecidedByLabels n ↔ n.Clear := by
  refine ⟨fun h => ⟨?_, ?_⟩, Name.Clear.decided⟩
  · intro hnil
    have hpieces : n.pieces = [[]] := by
      rw [Name.pieces, Name.toAscii, hnil]
      rfl
    have hone := h.single.mp ((isSingleLabel_iff n).mpr (by rw [hpieces]; rfl))
    rw [hnil] at hone
    cases hone
  · intro a l b hlabels hl hb
    by_cases hne : b = []
    · subst hne
      exact absurd h (not_decided_of_last hlabels hl)
    · by_cases hlast : l.getLast? = some dot
      · exact ⟨hne, hlast⟩
      · exact absurd h (not_decided_of_inner hlabels hl hb hne hlast)

def dottedName : Name := ⟨[ascii "x.example", ascii "com"], by decide⟩

/-- The label `x.example` below `com` is no subdomain of `example.com`. -/
theorem dottedName_misled : ¬∀ n : Name, DecidedByLabels n := by
  intro hall
  have hrule := (hall dottedName).rules (.suffix [ascii "example", ascii "com"] (by decide))
  exact absurd (hrule.mp (by decide)) (by decide)

end Detour.Core
