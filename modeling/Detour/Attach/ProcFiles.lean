import Detour.Attach.SsLines
import Detour.Rust.Utf8Text

/-! What `tunnel attach` reads of a process under `/proc`: its parent and its owner. -/

namespace Detour.Attach

open Atomic Detour.Rust Detour.Tunnel

/-! ### The code -/

/-- Parent PID from the contents of `/proc/<pid>/stat`. The command name is parenthesised and may
itself contain spaces or parentheses, so parse from the last `)`. -/
def parsePpid (stat : Text) : Option UInt32 := do
  let (_, rest) ← rsplitOnce ')' stat
  match splitWhitespace rest with
  | _state :: ppid :: _ => parseU32 ppid
  | _ => none

def parseUid (status : Text) : Option UInt32 := do
  let uids ← (lines status).findSome? (stripPrefix "Uid:".toList)
  parseU32 (← (splitWhitespace uids).head?)

def processUid (status : Option Bytes) : Option UInt32 := (status.bind fromUtf8).bind parseUid

/-! ### The files -/

def STATES : Text := "RSDTtXZPI".toList

/-- A process as the kernel shows it. Its name is what it has set, and need not be a text. -/
structure Shown where
  pid : UInt32
  parent : UInt32
  owner : UInt32
  comm : Bytes
  state : Char
  /-- the fields of `stat` after the parent -/
  statRest : Text
  /-- the lines of `status` between the name and the owner -/
  statusHead : List Text
  /-- the other owners, and the lines after them -/
  owners : Text
  statusTail : List Text
  known : state ∈ STATES
  statRest_plain : ')' ∉ statRest
  statusHead_line : ∀ l ∈ statusHead, '\n' ∉ l ∧ ¬"Uid:".toList <+: l
  owners_line : '\n' ∉ owners ∧ '\r' ∉ owners
  statusTail_line : ∀ l ∈ statusTail, '\n' ∉ l

namespace Shown

variable (e : Shown)

def statTail : Text :=
  ' ' :: e.state :: ' ' :: (Nat.toDigits 10 e.parent.toNat ++ ' ' :: e.statRest)

def stat : Bytes :=
  utf8Bytes (Nat.toDigits 10 e.pid.toNat ++ " (".toList) ++
    (e.comm ++ utf8Bytes (')' :: e.statTail))

/-- In `status` a line feed and a backslash of the name are written as two characters. -/
def escape : Bytes → Bytes
  | [] => []
  | b :: bs => if b = 10 then 92 :: 110 :: escape bs else
    if b = 92 then 92 :: 92 :: escape bs else b :: escape bs

def uidLine : Text := "Uid:\t".toList ++ Nat.toDigits 10 e.owner.toNat ++ '\t' :: e.owners

def statusRest : Text := unlines e.statusHead ++ (e.uidLine ++ '\n' :: unlines e.statusTail)

def status : Bytes :=
  utf8Bytes "Name:\t".toList ++ (escape e.comm ++ utf8Bytes ('\n' :: e.statusRest))

end Shown

/-! ### The parent -/

variable {e : Shown} {s t : Text} {bs : Bytes} {c : Char}

theorem toDigits_plain (n : Nat) : ∀ c ∈ Nat.toDigits 10 n, c ≠ ')' ∧ c ≠ '\n' ∧ c ≠ '\r' := by
  intro c hc
  have hall : ∀ c ∈ ".:0123456789abcdef".toList, c ≠ ')' ∧ c ≠ '\n' ∧ c ≠ '\r' :=
    List.all_iff_forall_prop.mp (by decide)
  exact hall c (addrChar_of_mem_toDigits (.inl rfl) hc)

theorem Shown.state_plain (e : Shown) : e.state ≠ ')' ∧ isWhitespace e.state = false := by
  have hall : ∀ c ∈ STATES, c ≠ ')' ∧ isWhitespace c = false :=
    List.all_iff_forall_prop.mp (by decide)
  exact hall e.state e.known

theorem splitWhitespace_cons {w : Text} (hw : w ≠ []) (h : ∀ c ∈ w, isWhitespace c = false)
    (hc : isWhitespace c = true) : splitWhitespace (w ++ c :: t) = w :: splitWhitespace t := by
  rw [splitWhitespace_space hc, splitWhitespace_word hw h]
  rfl

theorem parsePpid_text (e : Shown) : parsePpid (s ++ ')' :: e.statTail) = some e.parent := by
  have hno : ')' ∉ e.statTail := by
    intro hmem
    simp only [Shown.statTail, List.mem_cons, List.mem_append] at hmem
    rcases hmem with hmem | hmem | hmem | hmem | hmem | hmem
    · cases hmem
    · exact e.state_plain.1 hmem.symm
    · cases hmem
    · exact (toDigits_plain _ _ hmem).1 rfl
    · cases hmem
    · exact e.statRest_plain hmem
  have hwords : splitWhitespace e.statTail =
      [e.state] :: Nat.toDigits 10 e.parent.toNat :: splitWhitespace e.statRest := by
    have hlead : splitWhitespace e.statTail = splitWhitespace
        ([e.state] ++ ' ' :: (Nat.toDigits 10 e.parent.toNat ++ ' ' :: e.statRest)) :=
      splitWhitespace_spaces 1 _
    rw [hlead, splitWhitespace_cons (List.cons_ne_nil _ _) (by simpa using e.state_plain.2) rfl,
      splitWhitespace_cons (toDigits_ne_nil _) digit_plain rfl]
  rw [parsePpid, rsplitOnce_append hno]
  change (match splitWhitespace e.statTail with
    | _state :: ppid :: _ => parseU32 ppid
    | _ => none) = _
  rw [hwords]
  exact parseU32_toDigits e.parent

theorem parsePpid_stat (e : Shown) :
    (fromUtf8 e.stat).bind parsePpid = (fromUtf8 e.comm).map fun _ => e.parent := by
  rw [Shown.stat, fromUtf8_between (by decide)]
  cases fromUtf8 e.comm with
  | none => rfl
  | some name =>
    rw [Option.map_some, Option.bind_some, Option.map_some, ← List.append_assoc]
    exact parsePpid_text e

/-! ### The owner -/

theorem notMem_escape (bs : Bytes) : 10 ∉ Shown.escape bs := by
  induction bs with
  | nil => exact List.not_mem_nil
  | cons b bs ih =>
    rw [Shown.escape]
    split
    next =>
      simp only [List.mem_cons, not_or]
      exact ⟨by decide, by decide, ih⟩
    next hb =>
      split
      next =>
        simp only [List.mem_cons, not_or]
        exact ⟨by decide, by decide, ih⟩
      next =>
        rw [List.mem_cons, not_or]
        exact ⟨fun h => hb h.symm, ih⟩

theorem isUtf8_escape (as bs : Bytes) : IsUtf8 (as ++ Shown.escape bs) ↔ IsUtf8 (as ++ bs) := by
  induction bs generalizing as with
  | nil => rfl
  | cons b bs ih =>
    have hnil : IsUtf8 (Shown.escape bs) ↔ IsUtf8 bs := ih []
    rw [Shown.escape]
    split
    next hb =>
      subst hb
      rw [isUtf8_append_cons_iff (by decide), isUtf8_cons_iff (by decide), hnil,
        isUtf8_append_cons_iff (by decide)]
    next =>
      split
      next hb =>
        subst hb
        rw [isUtf8_append_cons_iff (by decide), isUtf8_cons_iff (by decide), hnil,
          isUtf8_append_cons_iff (by decide)]
      next =>
        rw [← List.singleton_append, ← List.append_assoc, ih, List.append_assoc]
        rfl

theorem newline_utf8 (h : '\n' ∈ s) : 10 ∈ utf8Bytes s :=
  List.mem_flatMap.mpr ⟨'\n', h, by decide⟩

theorem uidLine_plain (e : Shown) : ∀ c ∈ e.uidLine, c ≠ '\n' ∧ c ≠ '\r' := by
  have hlabel : ∀ c ∈ "Uid:\t".toList, c ≠ '\n' ∧ c ≠ '\r' :=
    List.all_iff_forall_prop.mp (by decide)
  intro c hc
  rcases List.mem_append.mp hc with hc | hc
  · rcases List.mem_append.mp hc with hc | hc
    · exact hlabel c hc
    · exact (toDigits_plain _ c hc).2
  · rcases List.mem_cons.mp hc with rfl | hc
    · decide
    · refine ⟨?_, ?_⟩
      · rintro rfl
        exact e.owners_line.1 hc
      · rintro rfl
        exact e.owners_line.2 hc

theorem stripPrefix_none {p l : Text} (h : ¬p <+: l) : stripPrefix p l = none := by
  rw [stripPrefix, if_neg]
  rwa [List.isPrefixOf_iff_prefix]

theorem findSome_uid (e : Shown) {name : Text} (hname : '\n' ∉ name) :
    (lines ("Name:\t".toList ++ (name ++ '\n' :: e.statusRest))).findSome?
      (stripPrefix "Uid:".toList) = some ('\t' :: (Nat.toDigits 10 e.owner.toNat ++
        '\t' :: e.owners)) := by
  have htext : "Name:\t".toList ++ (name ++ '\n' :: e.statusRest) =
      unlines (("Name:\t".toList ++ name) :: (e.statusHead ++ e.uidLine :: e.statusTail)) := by
    simp only [unlines, Shown.statusRest, List.flatMap_cons, List.flatMap_append,
      List.append_assoc, List.cons_append, List.nil_append]
  have hlines : ∀ l ∈ ("Name:\t".toList ++ name) :: (e.statusHead ++ e.uidLine :: e.statusTail),
      '\n' ∉ l := by
    rw [List.forall_mem_cons, List.forall_mem_append, List.forall_mem_cons]
    refine ⟨?_, fun l hl => (e.statusHead_line l hl).1,
      fun h => (uidLine_plain e _ h).1 rfl, e.statusTail_line⟩
    rw [List.mem_append, not_or]
    exact ⟨by decide, hname⟩
  have hskip : (e.statusHead.map stripCr).findSome? (stripPrefix "Uid:".toList) = none := by
    rw [List.findSome?_eq_none_iff]
    intro l hl
    obtain ⟨line, hline, rfl⟩ := List.mem_map.mp hl
    exact stripPrefix_none fun h => (e.statusHead_line line hline).2 (h.trans (starts_stripCr line))
  have hfirst : stripPrefix "Uid:".toList (stripCr ("Name:\t".toList ++ name)) = none := by
    apply stripPrefix_none
    intro h
    obtain ⟨t, ht⟩ := h.trans (starts_stripCr _)
    cases (List.cons.inj ht).1
  have huid : stripCr e.uidLine = e.uidLine := by
    rw [stripCr, if_neg]
    intro h
    exact (uidLine_plain e _ (List.mem_of_getLast? h)).2 rfl
  rw [htext, lines_unlines hlines, List.map_cons, List.map_append, List.map_cons,
    List.findSome?_cons, hfirst]
  dsimp only
  rw [List.findSome?_append, hskip, Option.none_or, List.findSome?_cons, huid]
  rfl

theorem processUid_status (e : Shown) :
    processUid (some e.status) = (fromUtf8 e.comm).map fun _ => e.owner := by
  have htext := fromUtf8_between (s := "Name:\t".toList) (b := Shown.escape e.comm) (c := '\n')
    (t := e.statusRest) (by decide)
  rw [processUid, Option.bind_some, Shown.status, htext]
  cases hname : fromUtf8 (Shown.escape e.comm) with
  | none =>
    have hcomm : fromUtf8 e.comm = none := by
      rw [fromUtf8_eq_none_iff] at hname ⊢
      exact fun h => hname ((isUtf8_escape [] e.comm).mpr h)
    rw [hcomm]
    rfl
  | some name =>
    have hbytes := fromUtf8_eq_some_iff.mp hname
    obtain ⟨comm, hcomm⟩ : ∃ comm, fromUtf8 e.comm = some comm := by
      obtain ⟨comm, h⟩ := (isUtf8_escape [] e.comm).mp ⟨name, hbytes⟩
      exact ⟨comm, fromUtf8_eq_some_iff.mpr h⟩
    have hline : '\n' ∉ name := fun h => notMem_escape e.comm (hbytes ▸ newline_utf8 h)
    rw [hcomm, Option.map_some, Option.bind_some, parseUid, findSome_uid e hline]
    have hwords : splitWhitespace ('\t' :: (Nat.toDigits 10 e.owner.toNat ++ '\t' :: e.owners)) =
        Nat.toDigits 10 e.owner.toNat :: splitWhitespace e.owners := by
      have hlead := splitWhitespace_space (c := '\t') rfl []
        (Nat.toDigits 10 e.owner.toNat ++ '\t' :: e.owners)
      rw [splitWhitespace_cons (toDigits_ne_nil _) digit_plain rfl] at hlead
      exact hlead
    change ((splitWhitespace ('\t' :: _)).head?.bind parseU32) = _
    rw [hwords]
    exact parseU32_toDigits e.owner

/-- A process gives away its parent and its owner exactly when its name is a text.  What the name
says, a parenthesis, a line break or a line of the file itself, makes no difference. -/
theorem procFiles_read (e : Shown) :
    (fromUtf8 e.stat).bind parsePpid = (fromUtf8 e.comm).map (fun _ => e.parent) ∧
      processUid (some e.status) = (fromUtf8 e.comm).map fun _ => e.owner :=
  ⟨parsePpid_stat e, processUid_status e⟩

end Detour.Attach
