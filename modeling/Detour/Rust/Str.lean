import Mathlib.Data.Bool.AllAny
import Mathlib.Data.List.Basic
import Mathlib.Data.List.TakeDrop

/-! The `str` methods of the standard library that the helper uses, over lists of characters. -/

namespace Detour.Rust

instance lawfulText : LawfulBEq (List Char) := inferInstance

def isWhitespace (c : Char) : Bool :=
  let n := c.toNat
  (9 ≤ n && n ≤ 13) || n == 0x20 || n == 0x85 || n == 0xA0 || n == 0x1680 ||
    (0x2000 ≤ n && n ≤ 0x200A) || n == 0x2028 || n == 0x2029 || n == 0x202F ||
    n == 0x205F || n == 0x3000

def trimStart (s : List Char) : List Char := s.dropWhile isWhitespace

def trimEnd (s : List Char) : List Char := (s.reverse.dropWhile isWhitespace).reverse

def trim (s : List Char) : List Char := trimEnd (trimStart s)

def split (sep : Char) : List Char → List (List Char)
  | [] => [[]]
  | c :: cs =>
    if c = sep then [] :: split sep cs
    else match split sep cs with
      | [] => [[c]]
      | piece :: rest => (c :: piece) :: rest

/-- A line without the carriage return that may end it. -/
def stripCr (line : List Char) : List Char :=
  if line.getLast? = some '\r' then line.dropLast else line

/-- `str::lines`: a last line without a line feed is left as it is, unless it is empty. -/
def lines (s : List Char) : List (List Char) :=
  let pieces := split '\n' s
  pieces.dropLast.map stripCr ++ pieces.getLast?.toList.filter (· ≠ [])

def stripPrefix (p s : List Char) : Option (List Char) :=
  if p.isPrefixOf s then some (s.drop p.length) else none

def toAsciiLowercase (s : List Char) : List Char := s.map Char.toLower

def firstWord (s : List Char) : Option (List Char) :=
  match (trimStart s).takeWhile (fun c => !isWhitespace c) with
  | [] => none
  | word => some word

def nextWord (s : List Char) : Option (List Char × List Char) :=
  match (trimStart s).span (fun c => !isWhitespace c) with
  | ([], _) => none
  | (word, rest) => some (word, rest)

def splitWhitespace (s : List Char) : List (List Char) :=
  (s.splitOnP isWhitespace).filter (· ≠ [])

/-- What `splitStr` makes of a text of which the first `skip` characters are part of `pat`. -/
def splitStrFrom (pat : List Char) : (skip : Nat) → List Char → List (List Char)
  | _, [] => [[]]
  | skip + 1, _ :: cs => splitStrFrom pat skip cs
  | 0, c :: cs =>
    if pat.isPrefixOf (c :: cs) then [] :: splitStrFrom pat (pat.length - 1) cs
    else match splitStrFrom pat 0 cs with
      | [] => [[c]]
      | piece :: rest => (c :: piece) :: rest

def splitStr (pat s : List Char) : List (List Char) := splitStrFrom pat 0 s

def splitOnce (sep : Char) : List Char → Option (List Char × List Char)
  | [] => none
  | c :: cs => if c = sep then some ([], cs) else (splitOnce sep cs).map fun (a, b) => (c :: a, b)

def rsplitOnce (sep : Char) (s : List Char) : Option (List Char × List Char) :=
  (splitOnce sep s.reverse).map fun (after, before) => (before.reverse, after.reverse)

def unlines (ls : List (List Char)) : List Char := ls.flatMap fun l => l ++ ['\n']

variable {sep c : Char} {s t : List Char}

theorem splitOnce_eq_none_iff : splitOnce sep s = none ↔ sep ∉ s := by
  induction s with
  | nil => exact ⟨fun _ => List.not_mem_nil, fun _ => rfl⟩
  | cons c cs ih =>
    rw [splitOnce]
    split
    · rename_i hc
      exact ⟨nofun, fun h => absurd (hc ▸ List.mem_cons_self) h⟩
    · rename_i hc
      rw [Option.map_eq_none_iff, ih, List.mem_cons, not_or]
      exact ⟨fun h => ⟨Ne.symm hc, h⟩, fun h => h.2⟩

theorem split_of_notMem (h : sep ∉ s) : split sep s = [s] := by
  induction s with
  | nil => rfl
  | cons c cs ih =>
    obtain ⟨hc, hcs⟩ := List.ne_and_not_mem_of_not_mem_cons h
    rw [split, if_neg (Ne.symm hc), ih hcs]

theorem splitOnce_eq_some {after : List Char} (h : splitOnce sep s = some (t, after)) :
    s = t ++ sep :: after := by
  induction s generalizing t with
  | nil => cases h
  | cons c cs ih =>
    rw [splitOnce] at h
    split at h
    · rename_i hc
      cases h
      rw [hc, List.nil_append]
    · obtain ⟨⟨before, rest⟩, hrest, heq⟩ := Option.map_eq_some_iff.mp h
      cases heq
      rw [ih hrest, List.cons_append]

theorem notMem_of_mem_split {piece : List Char} (h : piece ∈ split sep s) : sep ∉ piece := by
  induction s generalizing piece with
  | nil =>
    obtain rfl := List.mem_singleton.mp h
    exact List.not_mem_nil
  | cons c cs ih =>
    rw [split] at h
    split at h
    · cases h with
      | head => exact List.not_mem_nil
      | tail _ h => exact ih h
    · rename_i hc
      split at h
      · obtain rfl := List.mem_singleton.mp h
        exact fun hsep => hc (List.mem_singleton.mp hsep).symm
      · rename_i first rest hsplit
        cases h with
        | head =>
          have hfirst : sep ∉ first := ih (hsplit ▸ List.mem_cons_self)
          exact fun hsep => (List.mem_cons.mp hsep).elim (fun h => hc h.symm) hfirst
        | tail _ h => exact ih (hsplit ▸ List.mem_cons_of_mem _ h)

theorem split_ne_nil (s : List Char) : split sep s ≠ [] := by
  cases s with
  | nil => exact List.cons_ne_nil _ _
  | cons c cs =>
    rw [split]
    split
    · exact List.cons_ne_nil _ _
    · split <;> exact List.cons_ne_nil _ _

theorem split_nil (h : split sep s = [[]]) : s = [] := by
  cases s with
  | nil => rfl
  | cons d s =>
    rw [split] at h
    split at h
    next => exact absurd (List.cons.inj h).2 (split_ne_nil s)
    next =>
      split at h
      · cases h
      · cases h

theorem infix_of_mem_split {piece : List Char} (h : piece ∈ split sep s) : piece <:+: s := by
  -- the first piece also is a prefix
  have hpieces : ∀ first rest, split sep s = first :: rest →
      first <+: s ∧ ∀ piece ∈ rest, piece <:+: s := by
    clear h
    induction s with
    | nil =>
      intro first rest h
      cases h
      exact ⟨List.prefix_refl [], nofun⟩
    | cons d ds ih =>
      intro first rest h
      rw [split] at h
      split at h
      · cases h
        refine ⟨List.nil_prefix, fun piece hpiece => ?_⟩
        cases hds : split sep ds with
        | nil => exact absurd hds (split_ne_nil ds)
        | cons first rest =>
          obtain ⟨hfirst, hrest⟩ := ih first rest hds
          rw [hds] at hpiece
          cases hpiece with
          | head => exact List.infix_cons hfirst.isInfix
          | tail _ hpiece => exact List.infix_cons (hrest piece hpiece)
      · split at h
        · rename_i hds
          exact absurd hds (split_ne_nil ds)
        · rename_i first' rest' hds
          cases h
          obtain ⟨hfirst, hrest⟩ := ih first' rest hds
          exact ⟨List.cons_prefix_cons.mpr ⟨rfl, hfirst⟩, fun piece hpiece =>
            List.infix_cons (hrest piece hpiece)⟩
  cases hs : split sep s with
  | nil => exact absurd hs (split_ne_nil s)
  | cons first rest =>
    obtain ⟨hfirst, hrest⟩ := hpieces first rest hs
    rw [hs] at h
    cases h with
    | head => exact hfirst.isInfix
    | tail _ h => exact hrest piece h

theorem mem_of_mem_split {piece : List Char} (h : piece ∈ split sep s) (hc : c ∈ piece) :
    c ∈ s := (infix_of_mem_split h).subset hc

theorem split_append (s t : List Char) :
    split sep (s ++ sep :: t) = split sep s ++ split sep t := by
  induction s with
  | nil =>
    change split sep (sep :: t) = [[]] ++ split sep t
    rw [split, if_pos rfl, List.singleton_append]
  | cons c cs ih =>
    rw [List.cons_append, split, split, ih]
    split
    · rfl
    · cases h : split sep cs with
      | nil => exact absurd h (split_ne_nil cs)
      | cons piece rest => rfl

theorem split_unlines {ls : List (List Char)} (h : ∀ l ∈ ls, '\n' ∉ l) :
    split '\n' (unlines ls) = ls ++ [[]] := by
  induction ls with
  | nil => rfl
  | cons l ls ih =>
    rw [List.forall_mem_cons] at h
    rw [unlines, List.flatMap_cons, List.append_assoc, List.singleton_append, split_append,
      split_of_notMem h.1, List.singleton_append, List.cons_append, ← unlines, ih h.2]

theorem unlines_inj {ls ms : List (List Char)} (hl : ∀ l ∈ ls, '\n' ∉ l)
    (hm : ∀ m ∈ ms, '\n' ∉ m) (h : unlines ls = unlines ms) : ls = ms := by
  have hsplit := congrArg (split '\n') h
  rw [split_unlines hl, split_unlines hm] at hsplit
  exact List.append_cancel_right hsplit

theorem starts_stripCr (l : List Char) : stripCr l <+: l := by
  unfold stripCr
  split
  · exact List.dropLast_prefix l
  · exact List.prefix_refl l

theorem exists_of_mem_lines {l : List Char} (h : l ∈ lines s) :
    ∃ piece ∈ split '\n' s, l <+: piece := by
  rcases List.mem_append.mp h with h | h
  · obtain ⟨piece, hpiece, rfl⟩ := List.mem_map.mp h
    exact ⟨piece, (List.dropLast_sublist _).subset hpiece, starts_stripCr piece⟩
  · exact ⟨l, List.mem_of_getLast? (Option.mem_toList.mp (List.mem_filter.mp h).1),
      List.prefix_rfl⟩

theorem notMem_of_mem_lines {l : List Char} (h : l ∈ lines s) : '\n' ∉ l := by
  obtain ⟨piece, hpiece, hl⟩ := exists_of_mem_lines h
  exact fun hmem => notMem_of_mem_split hpiece (hl.subset hmem)

theorem infix_of_mem_lines {l : List Char} (h : l ∈ lines s) : l <:+: s := by
  obtain ⟨piece, hpiece, hl⟩ := exists_of_mem_lines h
  exact hl.isInfix.trans (infix_of_mem_split hpiece)

theorem infix_unlines {ls : List (List Char)} {l : List Char} (h : l ∈ ls) : l <:+: unlines ls := by
  obtain ⟨before, after, rfl⟩ := List.append_of_mem h
  refine ⟨unlines before, '\n' :: unlines after, ?_⟩
  simp [unlines]

theorem lines_unlines {ls : List (List Char)} (h : ∀ l ∈ ls, '\n' ∉ l) :
    lines (unlines ls) = ls.map stripCr := by
  rw [lines, split_unlines h, List.getLast?_concat, List.dropLast_concat]
  exact List.append_nil _

theorem intercalate_unlines {ls : List (List Char)} (h : ls ≠ []) :
    List.intercalate ['\n'] ls ++ ['\n'] = unlines ls := by
  induction ls with
  | nil => exact absurd rfl h
  | cons l ls ih =>
    cases ls with
    | nil => simp [List.intercalate, unlines]
    | cons m ms =>
      have hcons : List.intercalate ['\n'] (l :: m :: ms) =
          l ++ ['\n'] ++ List.intercalate ['\n'] (m :: ms) := by
        simp [List.intercalate, List.intersperse]
      rw [hcons, List.append_assoc, ih (List.cons_ne_nil m ms)]
      rfl

theorem lines_append (s t : List Char) :
    lines (s ++ '\n' :: t) = (split '\n' s).map stripCr ++ lines t := by
  have hne : split '\n' t ≠ [] := split_ne_nil t
  simp only [lines, split_append, List.getLast?_append_of_ne_nil _ hne,
    List.dropLast_append_of_ne_nil hne, List.map_append, List.append_assoc]

/-- A line feed can take a carriage return from the first line before it, and no more. -/
theorem lines_head (hs : s ≠ []) (t : List Char) : ∃ l,
    (lines (s ++ '\n' :: t)).head? = some (stripCr l) ∧
      ((lines s).head? = some l ∨ (lines s).head? = some (stripCr l)) := by
  rw [lines_append]
  simp only [lines]
  cases hp : split '\n' s with
  | nil => exact absurd hp (split_ne_nil s)
  | cons piece pieces =>
    refine ⟨piece, rfl, ?_⟩
    cases pieces with
    | cons next pieces => exact .inr rfl
    | nil =>
      have hne : piece ≠ [] := by
        rintro rfl
        exact hs (split_nil hp)
      simp [hne]

theorem stripCr_cases (l : List Char) : stripCr l = l ∨ l = stripCr l ++ ['\r'] := by
  rw [stripCr]
  split
  next hlast => exact .inr (List.dropLast_append_getLast? '\r' hlast).symm
  next => exact .inl rfl

theorem nextWord_concat (hc : isWhitespace c = true) (s : List Char) :
    nextWord (s ++ [c]) = (nextWord s).map fun x => (x.1, x.2 ++ [c]) := by
  have hstop (u : List Char) : (u ++ [c]).span (fun c => !isWhitespace c) =
      ((u.span fun c => !isWhitespace c).1, (u.span fun c => !isWhitespace c).2 ++ [c]) := by
    rw [List.span_eq_takeWhile_dropWhile, List.span_eq_takeWhile_dropWhile]
    induction u with
    | nil => simp [hc]
    | cons d u ih =>
      cases hd : isWhitespace d with
      | true => simp [hd]
      | false => simpa [hd] using ih
  cases hs : trimStart s with
  | nil =>
    have hall : trimStart (s ++ [c]) = [] := by
      rw [trimStart, List.dropWhile_append, ← trimStart, hs]
      simp [hc]
    rw [nextWord, nextWord, hall, hs]
    rfl
  | cons d u =>
    have hkept : trimStart (s ++ [c]) = (d :: u) ++ [c] := by
      rw [trimStart, List.dropWhile_append, ← trimStart, hs]
      rfl
    rw [nextWord, nextWord, hkept, hs, hstop]
    cases (d :: u).span fun c => !isWhitespace c with
    | mk word rest =>
      cases word with
      | nil => rfl
      | cons _ _ => rfl

theorem trimStart_cons (h : isWhitespace c = false) : trimStart (c :: s) = c :: s := by
  rw [trimStart, List.dropWhile_cons_of_neg (by rw [h]; decide)]

theorem trimEnd_concat (h : isWhitespace c = false) : trimEnd (s ++ [c]) = s ++ [c] := by
  rw [trimEnd, List.reverse_append, List.reverse_singleton, List.singleton_append,
    List.dropWhile_cons_of_neg (by rw [h]; decide), List.reverse_cons, List.reverse_reverse]

theorem trim_cons_concat {d : Char} (hc : isWhitespace c = false) (hd : isWhitespace d = false) :
    trim (c :: (s ++ [d])) = c :: (s ++ [d]) := by
  rw [trim, trimStart_cons hc, ← List.cons_append, trimEnd_concat hd]

theorem trim_space {d : Char} (hd : isWhitespace d = true) : trim (d :: s) = trim s := by
  rw [trim, trimStart, List.dropWhile_cons_of_pos hd]
  rfl

theorem trim_of_plain (h : ∀ c ∈ s, isWhitespace c = false) : trim s = s := by
  cases s with
  | nil => rfl
  | cons c cs =>
    have hc := h c List.mem_cons_self
    rw [trim, trimStart_cons hc]
    obtain ⟨init, d, hd⟩ : ∃ init d, c :: cs = init ++ [d] :=
      ⟨_, _, (List.dropLast_concat_getLast (List.cons_ne_nil c cs)).symm⟩
    rw [hd] at h ⊢
    exact trimEnd_concat (h d (List.mem_append_right init (List.mem_singleton_self d)))

theorem mem_of_mem_trim (h : c ∈ trim s) : c ∈ s := by
  rw [trim, trimEnd, List.mem_reverse] at h
  have hstart := List.mem_reverse.mp ((List.dropWhile_sublist _).subset h)
  exact (List.dropWhile_sublist _).subset hstart

theorem trim_last (h : (trim s).getLast? = some c) : isWhitespace c = false := by
  rw [trim, trimEnd, List.getLast?_reverse] at h
  have hhead := List.head?_dropWhile_not isWhitespace (trimStart s).reverse
  rw [h] at hhead
  exact hhead

theorem firstWord_of_plain (hs : s ≠ []) (h : ∀ c ∈ s, isWhitespace c = false) :
    firstWord s = some s := by
  cases s with
  | nil => exact absurd rfl hs
  | cons c cs =>
    have hall : ∀ d ∈ c :: cs, (!isWhitespace d) = true := fun d hd => by rw [h d hd]; rfl
    have hword : (c :: cs).takeWhile (fun d => !isWhitespace d) = c :: cs := by
      rw [← List.append_nil (c :: cs), List.takeWhile_append_of_pos hall, List.takeWhile_nil]
    rw [firstWord, trimStart_cons (h c List.mem_cons_self), hword]

end Detour.Rust
