import Detour.Attach.Processes

/-! What `tunnel attach` leaves behind. -/

namespace Detour.Attach

open Atomic Detour.Rust Detour.Tunnel Worklist

variable {β : Type} {a : App} {s t : Forest} {q : UInt32} {P : UInt32 → Prop}
  {moved fresh : List UInt32} {k : Nat} {Q : Except String β → Forest → Prop}

/-! ### What is assured -/

abbrev App.Beside (a : App) : Forest → Forest → Prop := Relation.ReflTransGen a.Orderly

instance (a : App) : IsPreorder Forest a.Beside where
  refl _ := .refl
  trans _ _ _ h h' := h.trans h'

abbrev App.Assures {α : Type} (a : App) (Q : α → Forest → Prop)
    (p : Prog AttachOp AttachOp.Ret α) (s : Forest) : Prop :=
  p.Assures (machine a.scope) a.Beside (fun _ _ => True) Q s

def Ends (a : App) (r : Except String Unit) (s : Forest) : Prop := r = .ok () → Clear a s

theorem App.Beside.keeps {I : Forest → Prop} (h : a.Beside s t)
    (hstep : ∀ s t, I s → a.Orderly s t → I t) (hs : I s) : I t := by
  induction h with
  | refl => exact hs
  | tail _ ho ih => exact hstep _ _ ih ho

theorem Steady.beside (h : Steady a moved k s) (hb : a.Beside s t) : Steady a moved k t :=
  App.Beside.keeps hb (fun _ _ => Steady.step) h

theorem Searching.beside (h : Searching a P s) (hb : a.Beside s t) : Searching a P t :=
  App.Beside.keeps hb (fun _ _ => Searching.step) h

theorem Moving.beside (h : Moving a fresh s) (hb : a.Beside s t) : Moving a fresh t :=
  App.Beside.keeps hb (fun _ _ => Moving.step) h

theorem Clear.beside (h : Clear a s) (hb : a.Beside s t) : Clear a t :=
  App.Beside.keeps hb (fun _ _ => Clear.step) h

/-! ### Looking -/

theorem Searching.mono {P' : UInt32 → Prop} (h : Searching a P s)
    (hP : ∀ q, a.Stray s q → P q → P' q) : Searching a P' s where
  tracked q hq := (h.tracked q hq).mono hP
  last hlast q hq := hP q hq (h.last hlast q hq)

theorem Searching.clear (h : Searching a P s) (hP : ∀ q, ¬P q) : Clear a s := by
  intro q hq
  have hq' := h.tracked q hq
  induction hq' with
  | listed _ hp => exact hP _ hp
  | forked _ _ hup ih => exact ih hup.stray

theorem Searching.skip {pid : UInt32} {tree : List UInt32}
    (h : Searching a (fun q => P q ∨ q ∈ pid :: tree) s) (hpid : ¬a.Stray s pid) :
    Searching a (fun q => P q ∨ q ∈ tree) s := by
  apply h.mono
  intro q hq hp
  rcases hp with hp | hmem
  · exact .inl hp
  · rcases List.mem_cons.mp hmem with rfl | hmem
    · exact absurd hq hpid
    · exact .inr hmem

theorem Moving.gone {pid : UInt32} (h : Moving a (pid :: fresh) s) (hpid : s.procs pid = none) :
    Moving a fresh s := by
  intro hlast q hq
  rcases List.mem_cons.mp (h hlast q hq) with rfl | hmem
  · obtain ⟨p, hp, -⟩ := hq
    rw [hpid] at hp
    cases hp
  · exact hmem

theorem stray_enter {pid : UInt32} {p : Proc} (hq : a.Stray (s.enter pid p a.scope) q) :
    q ≠ pid ∧ a.Stray s q := by
  obtain ⟨c, hc, hkin, howner, hcgroup⟩ := hq
  have hne : q ≠ pid := by
    rintro rfl
    have hself : (s.enter q p a.scope).procs q = some { p with cgroup := a.scope } :=
      Function.update_self ..
    obtain rfl := Option.some.inj (hself.symm.trans hc)
    exact hcgroup rfl
  have hold : (s.enter pid p a.scope).procs q = s.procs q := Function.update_of_ne hne ..
  exact ⟨hne, c, hold ▸ hc, hkin, howner, hcgroup⟩

theorem parentOf_enter {pid r : UInt32} {p : Proc} (hp : s.procs pid = some p) :
    (s.enter pid p a.scope).ParentOf r q ↔ s.ParentOf r q := by
  by_cases hne : q = pid
  · subst hne
    have hself : (s.enter q p a.scope).procs q = some { p with cgroup := a.scope } :=
      Function.update_self ..
    rw [Forest.ParentOf, Forest.ParentOf, hself, hp]
    rfl
  · have hold : (s.enter pid p a.scope).procs q = s.procs q := Function.update_of_ne hne ..
    rw [Forest.ParentOf, Forest.ParentOf, hold]

theorem Steady.enter {pid : UInt32} {p : Proc} (h : Steady a moved k s)
    (hp : s.procs pid = some p) : Steady a (moved ++ [pid]) k (s.enter pid p a.scope) where
  recorded := congrArg (· ++ [pid]) h.recorded
  snapshots := h.snapshots
  below q hq := by
    have hsame : (s.enter pid p a.scope).ParentOf = s.ParentOf := by
      funext r q
      exact propext (parentOf_enter hp)
    rw [hsame]
    exact h.below q (stray_enter hq).2
  unmoved q hq hmem := by
    obtain ⟨hne, hold⟩ := stray_enter hq
    rcases List.mem_append.mp hmem with hmem | hmem
    · exact h.unmoved q hold hmem
    · exact hne (List.mem_singleton.mp hmem)

theorem Moving.enter {pid : UInt32} {p : Proc} (h : Moving a (pid :: fresh) s) :
    Moving a fresh (s.enter pid p a.scope) := by
  intro hlast q hq
  obtain ⟨hne, hold⟩ := stray_enter hq
  exact List.mem_of_ne_of_mem hne (h hlast q hold)

theorem Steady.look {table : List (UInt32 × UInt32)} (h : Steady a moved k s)
    (htable : ∀ q p, (q, p) ∈ table ↔ s.ParentOf p q) :
    Steady a moved (k + 1) { s with snapshots := s.snapshots + 1 } ∧
      Searching a (fun q => False ∨ q ∈ descendants a.roots table)
        { s with snapshots := s.snapshots + 1 } := by
  have htree (q : UInt32) (hq : a.Stray s q) : q ∈ descendants a.roots table := by
    apply mem_scan
    obtain ⟨r, hr, hbelow⟩ := h.below q hq
    exact ⟨r, hr, Relation.ReflTransGen.mono (fun p q => (htable q p).mpr) r q hbelow⟩
  constructor
  · exact ⟨h.recorded, congrArg (· + 1) h.snapshots, h.below, h.unmoved⟩
  · exact ⟨fun q hq => .listed hq (.inr (htree q hq)), fun _ q hq => .inr (htree q hq)⟩

def AttachOp.Apart : AttachOp → Prop
  | .println _ | .ss _ => True
  | _ => False

abbrev Attaching := Pool Unit AttachOp AttachOp.Ret (Except String Unit) Forest

def begin (a : App) (hold : Text) (reset : Bool) (procs : UInt32 → Option Proc) : Attaching :=
  Pool.start (fun _ => ExceptT.run (attach a.uid hold a.roots reset)) (.start a.roots procs)

def appScope : Text :=
  "/sys/fs/cgroup/user.slice/user-1000.slice/user@1000.service/app.slice/app.scope".toList

def holdScope : Text :=
  ("/sys/fs/cgroup/user.slice/user-1000.slice/user@1000.service/detourtunnel.slice/" ++
    "detour-hold-app.scope").toList

def app : App := ⟨1000, holdScope, [100]⟩

def appRoot : Proc := ⟨1, 1000, appScope⟩

def appChild : Proc := ⟨100, 1000, appScope⟩

def appProcs (q : UInt32) : Option Proc :=
  if q = 1 then some ⟨0, 0, "/".toList⟩ else if q = 100 then some appRoot
  else if q = 101 then some appChild else none

def looked : Forest := { Forest.start [100] appProcs with snapshots := 1 }

def forked : Forest := looked.fork 101 102 appChild

variable {B : Forest → Forest → Prop}

end Detour.Attach
