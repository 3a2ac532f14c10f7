import Detour.Attach.Command
import Detour.Attach.ProcFiles
import Detour.Lib.Environment

/-! The table of processes that `tunnel attach` walks: it is read file by file, while processes
fork, exit and find new parents. -/

namespace Detour.Attach

open Atomic Detour.Rust Detour.Tunnel Worklist

/-! ### The code -/

inductive ProcOp
  | readDir
  | readStat (pid : UInt32)

/-- The entries of `/proc`; nothing is read of a process that is gone. -/
abbrev ProcOp.Ret : ProcOp → Type
  | .readDir => List Text
  | .readStat _ => Option Bytes

abbrev ProcM := Prog ProcOp ProcOp.Ret

def row (pid : UInt32) (stat : Option Bytes) : Option (UInt32 × UInt32) :=
  ((stat.bind fromUtf8).bind parsePpid).map fun ppid => (pid, ppid)

def processRows : List Text → ProcM (List (UInt32 × UInt32))
  | [] => return []
  | name :: names =>
    match parseU32 name with
    | none => processRows names
    | some pid => do
      let stat : Option Bytes ← Prog.perform (ProcOp.readStat pid)
      let rows ← processRows names
      return (row pid stat).toList ++ rows

def processTable : ProcM (List (UInt32 × UInt32)) := do
  let names : List Text ← Prog.perform ProcOp.readDir
  processRows names

/-! ### Processes that come and go -/

abbrev Moment := UInt32 → Option Shown

structure Past where
  now : Moment
  before : List Moment

def Past.all (s : Past) : List Moment := s.now :: s.before

def Later (s t : Past) : Prop := s.all <:+ t.all

/-- The directory lists every process once; a file is what the kernel shows when it is read. -/
def procfs : Env ProcOp ProcOp.Ret Past
  | .readDir, s, r, t => t = s ∧ (r.filterMap parseU32).Nodup ∧
    ∀ q, q ∈ r.filterMap parseU32 ↔ (s.now q).isSome
  | .readStat q, s, r, t => t = s ∧ r = (s.now q).map Shown.stat

def busy : Env ProcOp ProcOp.Ret Past := fun o s r t => ∃ s', Later s s' ∧ procfs o s' r t

/-- At some moment the process had this parent, and a name that is a text. -/
def Once (t : Past) (p q : UInt32) : Prop :=
  ∃ m ∈ t.all, ∃ e, m q = some e ∧ IsUtf8 e.comm ∧ e.parent = p

def Always (t : Past) (p q : UInt32) : Prop :=
  ∀ m ∈ t.all, ∃ e, m q = some e ∧ IsUtf8 e.comm ∧ e.parent = p

structure RowsFor (pids : List UInt32) (rows : List (UInt32 × UInt32)) (t : Past) : Prop where
  listed : (rows.map Prod.fst).Sublist pids
  once : ∀ q p, (q, p) ∈ rows → Once t p q
  always : ∀ q p, q ∈ pids → Always t p q → (q, p) ∈ rows

variable {s t u : Past} {p q pid : UInt32} {rows : List (UInt32 × UInt32)} {roots : List UInt32}

theorem Later.refl (s : Past) : Later s s := List.suffix_rfl

theorem Later.trans (h : Later s t) (h' : Later t u) : Later s u := List.IsSuffix.trans h h'

theorem Later.now (h : Later s t) : s.now ∈ t.all := h.subset List.mem_cons_self

theorem Once.later (h : Once s p q) (hl : Later s t) : Once t p q := by
  obtain ⟨m, hm, he⟩ := h
  exact ⟨m, hl.subset hm, he⟩

theorem mem_row {e : Option Shown} {x : UInt32 × UInt32} : x ∈ (row pid (e.map Shown.stat)).toList ↔
    ∃ a, e = some a ∧ IsUtf8 a.comm ∧ x = (pid, a.parent) := by
  rw [Option.mem_toList]
  cases e with
  | none => simp [row]
  | some a =>
    have hstat := parsePpid_stat a
    rw [row, Option.map_some, Option.bind_some, hstat, Option.map_map]
    cases hcomm : fromUtf8 a.comm with
    | none =>
      have hno := fromUtf8_eq_none_iff.mp hcomm
      simp [hno]
    | some name =>
      have hyes : IsUtf8 a.comm := ⟨name, fromUtf8_eq_some_iff.mp hcomm⟩
      simp [hyes, eq_comm]

theorem length_row (e : Option Bytes) : ((row pid e).toList.map Prod.fst).Sublist [pid] := by
  rw [row]
  cases (e.bind fromUtf8).bind parsePpid with
  | none => exact List.nil_sublist _
  | some ppid => exact List.Sublist.refl _

theorem processRows_keeps (names : List Text) (s : Past) : (processRows names).Keeps busy
    (fun _ => True) (fun rows t => Later s t ∧ RowsFor (names.filterMap parseU32) rows t) s := by
  induction names generalizing s with
  | nil =>
    refine Prog.keeps_pure trivial ⟨.refl s, List.nil_sublist _, ?_, ?_⟩
    · exact fun _ _ h => absurd h List.not_mem_nil
    · exact fun _ _ h => absurd h List.not_mem_nil
  | cons name names ih =>
    rw [processRows]
    cases hname : parseU32 name with
    | none =>
      rw [List.filterMap_cons_none hname]
      exact ih s
    | some pid =>
      rw [List.filterMap_cons_some hname]
      refine ⟨trivial, ?_⟩
      rintro stat t ⟨s', hs, rfl, rfl⟩
      apply (ih t).bind
      rintro rows u - ⟨hu, hrows⟩
      refine Prog.keeps_pure trivial ⟨hs.trans hu, ?_, ?_, ?_⟩
      · rw [List.map_append]
        exact (length_row _).append hrows.listed
      · intro q p hmem
        rcases List.mem_append.mp hmem with hmem | hmem
        · obtain ⟨a, ha, hcomm, hx⟩ := mem_row.mp hmem
          obtain ⟨rfl, rfl⟩ := Prod.mk.inj hx
          exact ⟨t.now, hu.now, a, ha, hcomm, rfl⟩
        · exact hrows.once q p hmem
      · intro q p hq halways
        apply List.mem_append.mpr
        rcases List.mem_cons.mp hq with rfl | hq
        · obtain ⟨a, ha, hcomm, rfl⟩ := halways t.now hu.now
          exact .inl (mem_row.mpr ⟨a, ha, hcomm, rfl⟩)
        · exact .inr (hrows.always q p hq halways)

/-- Whatever processes do meanwhile, the table lists none of them twice, every row was true at some
moment, and what was true all along is a row. -/
theorem processTable_keeps (s : Past) : processTable.Keeps busy (fun _ => True)
    (fun rows t => (rows.map Prod.fst).Nodup ∧ (∀ q p, (q, p) ∈ rows → Once t p q) ∧
      ∀ q p, Always t p q → (q, p) ∈ rows) s := by
  refine ⟨trivial, ?_⟩
  rintro names t ⟨s', hs, rfl, hnodup, hall⟩
  apply (processRows_keeps names t).mono (fun _ => id)
  rintro rows u ⟨hu, hrows⟩
  refine ⟨hrows.listed.nodup hnodup, hrows.once, fun q p halways => ?_⟩
  obtain ⟨a, ha, -⟩ := halways t.now hu.now
  exact hrows.always q p ((hall q).mpr (by rw [ha]; rfl)) halways

/-- The tree that is moved: every process below the roots all along, and no process that was not
below them by what was true at some moment. A process whose name is not a text cuts off all that
is below it. -/
theorem tree_observed {m : Moment} (hv : Prog.Visits busy processTable ⟨m, []⟩ (.done rows) t) :
    (∀ q, Reaches (Always t) roots q → q ∈ descendants roots rows) ∧
      ∀ q, q ∈ descendants roots rows → Reaches (Once t) roots q := by
  obtain ⟨-, honce, halways⟩ := (Prog.keeps_iff.mp (processTable_keeps ⟨m, []⟩) _ _ hv).2 rows rfl
  refine ⟨fun q hq => ?_, fun q hq => ?_⟩
  · apply mem_scan
    exact hq.rec_on (fun r hr => .root hr) fun p q hp he => hp.child (halways q p he)
  · have hq : Reaches (fun p q => (q, p) ∈ rows) roots q := mem_scan_iff.mp hq
    exact hq.rec_on (fun r hr => .root hr) fun p q hp he => hp.child (honce q p he)

def shown (pid parent : UInt32) (name : Text) : Shown where
  pid := pid
  parent := parent
  owner := 1000
  comm := utf8Bytes name
  state := 'S'
  statRest := "1 1 0 -1".toList
  statusHead := ["Umask:\t0022".toList]
  owners := "1000\t1000\t1000".toList
  statusTail := ["Gid:\t1000\t1000\t1000\t1000".toList]
  known := by decide
  statRest_plain := by decide
  statusHead_line := List.all_iff_forall_prop.mp (by decide)
  owners_line := by decide
  statusTail_line := List.all_iff_forall_prop.mp (by decide)

def twoProcesses : Moment := fun q =>
  if q = 100 then some (shown 100 1 "app".toList)
  else if q = 101 then some (shown 101 100 "a) S 1 (".toList) else none

def idle : Handler ProcOp ProcOp.Ret Past
  | .readDir, s => (["100".toList, "101".toList, "self".toList], s)
  | .readStat q, s => ((twoProcesses q).map Shown.stat, s)

theorem procfs_idle (o : ProcOp) : procfs o ⟨twoProcesses, []⟩ (idle o ⟨twoProcesses, []⟩).1
    ⟨twoProcesses, []⟩ := by
  cases o with
  | readStat q => exact ⟨rfl, rfl⟩
  | readDir =>
    have hpids : (["100".toList, "101".toList, "self".toList].filterMap parseU32) = [100, 101] := by
      decide
    refine ⟨rfl, ?_, fun q => ?_⟩
    · rw [idle, hpids]
      decide
    · rw [idle, hpids]
      by_cases hroot : q = 100
      · simp [hroot, twoProcesses]
      · by_cases hchild : q = 101 <;> simp [hroot, hchild, twoProcesses]

theorem busy_idle (p : ProcM (List (UInt32 × UInt32))) : Prog.Visits busy p ⟨twoProcesses, []⟩
    (.done (p.run idle ⟨twoProcesses, []⟩).1) ⟨twoProcesses, []⟩ := by
  induction p with
  | done rows => exact .refl
  | op o k ih =>
    have hstate : (idle o ⟨twoProcesses, []⟩).2 = ⟨twoProcesses, []⟩ := by cases o <;> rfl
    rw [Prog.run, hstate]
    exact .step ⟨_, .refl _, procfs_idle o⟩ (ih _)

theorem tree_example : ∃ rows t, Prog.Visits busy processTable ⟨twoProcesses, []⟩ (.done rows) t ∧
    101 ∈ descendants [100] rows := by
  refine ⟨_, _, busy_idle _, (tree_observed (busy_idle _)).1 101 ?_⟩
  apply Reaches.child (p := 100) (.root (List.mem_singleton_self 100))
  intro m hm
  obtain rfl := List.mem_singleton.mp hm
  exact ⟨_, rfl, ⟨_, rfl⟩, rfl⟩

end Detour.Attach
