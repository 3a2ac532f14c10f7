import Detour.Lib.RelyGuarantee

/-! The filter bypass in the control panel: the commands that start and stop it, the tasks that
serve, and the flag that says whether it is running. -/

namespace Detour.Gui

open Atomic

/-! ### The commands -/

inductive FilterOp
  | lock
  | unlock
  | loadRunning
  | storeRunning (b : Bool)
  | spawn
  | setTask (h : Nat)
  | takeTask
  | abort (h : Nat)

@[reducible] def FilterOp.Ret : FilterOp → Type
  | .loadRunning => Bool
  | .spawn => Nat
  | .takeTask => Option Nat
  | _ => Unit

abbrev FilterM := Prog FilterOp FilterOp.Ret

def filterOp (o : FilterOp) : FilterM o.Ret := Prog.perform o

def startTask : FilterM String := do
  filterOp (.storeRunning true)
  let h ← filterOp .spawn
  filterOp (.setTask h)
  filterOp .unlock
  return "Filter bypass running on 127.0.0.1:8088."

def filterStart : FilterM String := do
  filterOp .lock
  if ← filterOp .loadRunning then
    filterOp .unlock
    return "Filter bypass is already running."
  else startTask

def abortTask : Option Nat → FilterM Unit
  | some h => filterOp (.abort h)
  | none => pure ()

def filterStop : FilterM String := do
  filterOp .lock
  let h ← filterOp .takeTask
  abortTask h
  filterOp .unlock
  filterOp (.storeRunning false)
  return "Filter bypass stopped."

inductive FilterCall
  | start
  | stop

def FilterCall.prog : FilterCall → FilterM String
  | .start => filterStart
  | .stop => filterStop

/-! ### The tasks -/

/-- A task binds its two listeners and serves, up to where it is suspended, before anything else
can stop it.  When it cannot bind them, it goes on to clear the flag. -/
inductive TaskPhase
  | ready
  | binding
  | serving
  | stopped
  | gone
  deriving DecidableEq

structure FilterTask where
  phase : TaskPhase
  aborted : Bool
  deriving DecidableEq

def FilterTask.Live (a : FilterTask) : Prop :=
  a.aborted = false ∧ (a.phase = .ready ∨ a.phase = .binding ∨ a.phase = .serving)

/-- The task has been called off or has stopped, and may clear the flag all the same. -/
def FilterTask.MayClear (a : FilterTask) : Prop :=
  a.phase = .stopped ∨ (a.phase = .binding ∧ a.aborted = true)

inductive FilterTask.Next : FilterTask → FilterTask → Prop
  | poll : Next ⟨.ready, false⟩ ⟨.binding, false⟩
  | bind (aborted : Bool) : Next ⟨.binding, aborted⟩ ⟨.serving, aborted⟩
  | bindError (aborted : Bool) : Next ⟨.binding, aborted⟩ ⟨.stopped, aborted⟩
  | cancelReady : Next ⟨.ready, true⟩ ⟨.gone, true⟩
  | cancelServing : Next ⟨.serving, true⟩ ⟨.gone, true⟩

/-! ### What they share -/

inductive Held
  | entered
  | set
  | spawned (h : Nat)
  | taken (h : Nat)

/-- The flag, the slot for the handle and its lock, and all the tasks.  Of each call it is known
whether it has emptied the slot and is still to clear the flag. -/
structure FilterState (ι : Type) where
  running : Bool
  task : Option Nat
  lock : Option (ι × Held)
  tasks : Nat → Option FilterTask
  stopping : ι → Bool

variable {ι : Type}

namespace FilterState

def initial : FilterState ι := ⟨false, none, none, fun _ => none, fun _ => false⟩

def put (s : FilterState ι) (h : Nat) (a : FilterTask) : FilterState ι :=
  { s with tasks := Function.update s.tasks h (some a) }

def abort (s : FilterState ι) (h : Nat) : FilterState ι :=
  { s with
    tasks := Function.update s.tasks h ((s.tasks h).map fun a => { a with aborted := true }) }

def held (s : FilterState ι) : Option Nat :=
  match s.lock with
  | some (_, .spawned h) | some (_, .taken h) => some h
  | _ => s.task

end FilterState

def filterAnswers [DecidableEq ι] (i : ι) : Env FilterOp FilterOp.Ret (FilterState ι)
  | .lock, s, _, t => s.lock = none ∧ t = { s with lock := some (i, .entered) }
  | .unlock, s, _, t => t = { s with lock := none }
  | .loadRunning, s, r, t => r = s.running ∧ t = s
  | .storeRunning true, s, _, t => t = { s with running := true, lock := some (i, .set) }
  | .storeRunning false, s, _, t =>
    t = { s with running := false, stopping := Function.update s.stopping i false }
  | .spawn, s, r, t => s.tasks r = none ∧
    t = { s.put r ⟨.ready, false⟩ with lock := some (i, .spawned r) }
  | .setTask h, s, _, t => t = { s with task := some h, lock := some (i, .entered) }
  | .takeTask, s, r, t => r = s.task ∧ t = { s with
    task := none
    lock := some (i, r.elim .entered .taken)
    stopping := Function.update s.stopping i true }
  | .abort h, s, _, t => t = { s.abort h with lock := some (i, .entered) }

inductive TasksStep : FilterState ι → FilterState ι → Prop
  | next (s : FilterState ι) (h : Nat) (a b : FilterTask) : s.tasks h = some a → a.Next b →
    TasksStep s (s.put h b)
  | clear (s : FilterState ι) (h : Nat) (a : FilterTask) : s.tasks h = some a →
    a.phase = .stopped → TasksStep s { s.put h { a with phase := .gone } with running := false }

/-- The flag is not set while a call or a task of before may still clear it. -/
def FilterOrderly (s : FilterState ι) : FilterOp → Prop
  | .storeRunning true => (∀ j, s.stopping j = false) ∧ ∀ h a, s.tasks h = some a → ¬a.MayClear
  | _ => True

def orderlyFilter [DecidableEq ι] (i : ι) : Env FilterOp FilterOp.Ret (FilterState ι) :=
  fun o s r t => filterAnswers i o s r t ∧ FilterOrderly s o

/-- The flag says whether a task is live, and that is the one in the slot. -/
structure Truthful (s : FilterState ι) : Prop where
  running : s.running = true ↔ ∃ h a, s.tasks h = some a ∧ a.Live
  slot : ∀ h a, s.tasks h = some a → a.Live → s.task = some h
  one : ∀ h a g b, s.tasks h = some a → a.Live → s.tasks g = some b → b.Live → h = g

/-! ### What holds all along -/

structure Serving (s : FilterState ι) (h : Nat) : Prop where
  running : s.running = true
  held : s.held = some h
  stopping : ∀ j, s.stopping j = true → s.lock = some (j, .taken h)
  alone : ∀ g b, s.tasks g = some b → ¬b.MayClear

structure FilterInv (s : FilterState ι) : Prop where
  live : ∀ h a, s.tasks h = some a → a.Live → Serving s h
  /-- before a call spawns its task, nothing is left of the ones before -/
  set : ∀ j, s.lock = some (j, .set) → s.running = true ∧ (∀ k, s.stopping k = false) ∧
    ∀ h a, s.tasks h = some a → ¬a.Live ∧ ¬a.MayClear
  cause : s.running = true → (∃ h a, s.tasks h = some a ∧ (a.Live ∨ a.phase = .stopped)) ∨
    (∃ j, s.stopping j = true) ∨ ∃ j, s.lock = some (j, .set)

variable {i j : ι} {s t : FilterState ι} {h g : Nat} {a b c : FilterTask}

theorem FilterTask.Live.not_mayClear (h : a.Live) : ¬a.MayClear := by
  obtain ⟨habort, hphase⟩ := h
  rintro (hstop | ⟨-, hab⟩)
  · rw [hstop] at hphase
    rcases hphase with h | h | h <;> cases h
  · rw [habort] at hab
    cases hab

theorem FilterTask.Next.live (h : a.Next b) (hb : b.Live) : a.Live := by
  cases h with
  | poll => exact ⟨rfl, .inl rfl⟩
  | bind aborted => exact ⟨hb.1, .inr (.inl rfl)⟩
  | bindError aborted =>
    obtain ⟨-, h | h | h⟩ := hb
    all_goals cases h
  | cancelReady => cases hb.1
  | cancelServing => cases hb.1

theorem FilterTask.Next.mayClear (h : a.Next b) (hb : b.MayClear) : a.MayClear ∨ a.Live := by
  cases h with
  | poll =>
    rcases hb with h | ⟨-, h⟩
    all_goals cases h
  | bind aborted =>
    rcases hb with h | ⟨h, -⟩
    all_goals cases h
  | bindError aborted =>
    cases aborted with
    | false => exact .inr ⟨rfl, .inr (.inl rfl)⟩
    | true => exact .inl (.inr ⟨rfl, rfl⟩)
  | cancelReady | cancelServing =>
    rcases hb with h | ⟨h, -⟩
    all_goals cases h

theorem FilterTask.Next.goes_on (h : a.Next b) (ha : a.Live) : b.Live ∨ b.phase = .stopped := by
  cases h with
  | poll => exact .inl ⟨rfl, .inr (.inl rfl)⟩
  | bind aborted => exact .inl ⟨ha.1, .inr (.inr rfl)⟩
  | bindError aborted => exact .inr rfl
  | cancelReady => cases ha.1
  | cancelServing => cases ha.1

/-! ### Steps of the tasks -/

theorem put_self : (s.put h a).tasks h = some a := Function.update_self ..

theorem put_ne (hgh : g ≠ h) : (s.put h a).tasks g = s.tasks g := Function.update_of_ne hgh ..

theorem FilterInv.live_eq (hi : FilterInv s) (hh : s.tasks h = some a) (ha : a.Live)
    (hg : s.tasks g = some b) (hb : b.Live) : h = g := by
  have h1 := (hi.live h a hh ha).held
  rw [(hi.live g b hg hb).held] at h1
  exact (Option.some.inj h1).symm

theorem exists_before (hh : s.tasks h = some a) (hg : (s.put h b).tasks g = some c) :
    (g = h ∧ c = b) ∨ s.tasks g = some c := by
  by_cases hgh : g = h
  · subst hgh
    rw [put_self] at hg
    exact .inl ⟨rfl, (Option.some.inj hg).symm⟩
  · rw [put_ne hgh] at hg
    exact .inr hg

theorem FilterInv.next (hi : FilterInv s) (hh : s.tasks h = some a) (hn : a.Next b) :
    FilterInv (s.put h b) := by
  -- a task that is live was live before
  have hlive (g : Nat) (c : FilterTask) (hg : (s.put h b).tasks g = some c) (hc : c.Live) :
      Serving s g := by
    rcases exists_before hh hg with ⟨rfl, rfl⟩ | hg
    · exact hi.live g a hh (hn.live hc)
    · exact hi.live g c hg hc
  refine ⟨fun g c hg hc => ?_, fun j hj => ?_, fun hr => ?_⟩
  · have hserving := hlive g c hg hc
    refine ⟨hserving.running, hserving.held, hserving.stopping, fun k d hk hd => ?_⟩
    rcases exists_before hh hk with ⟨rfl, rfl⟩ | hk
    · rcases hn.mayClear hd with hclear | ha
      · exact hserving.alone k a hh hclear
      · have hkg : k = g := by
          have hheld := (hi.live k a hh ha).held
          rw [hserving.held] at hheld
          exact (Option.some.inj hheld).symm
        subst hkg
        rw [put_self] at hg
        obtain rfl := Option.some.inj hg
        exact hc.not_mayClear hd
    · exact hserving.alone k d hk hd
  · obtain ⟨hr, hstop, hnone⟩ := hi.set j hj
    refine ⟨hr, hstop, fun g c hg => ?_⟩
    rcases exists_before hh hg with ⟨rfl, rfl⟩ | hg
    · obtain ⟨hdead, hclear⟩ := hnone g a hh
      exact ⟨fun hc => hdead (hn.live hc), fun hc => (hn.mayClear hc).elim hclear hdead⟩
    · exact hnone g c hg
  · rcases hi.cause hr with ⟨g, c, hg, hc⟩ | hrest
    · left
      by_cases hgh : g = h
      · subst hgh
        rw [hh] at hg
        obtain rfl := Option.some.inj hg
        rcases hc with hc | hc
        · exact ⟨g, b, put_self, hn.goes_on hc⟩
        · cases hn <;> cases hc
      · exact ⟨g, c, (put_ne hgh).trans hg, hc⟩
    · exact .inr hrest

theorem FilterInv.clear (hi : FilterInv s) (hh : s.tasks h = some a) (hs : a.phase = .stopped) :
    FilterInv { s.put h { a with phase := .gone } with running := false } := by
  have hclear : a.MayClear := .inl hs
  refine ⟨fun g c hg hc => ?_, fun j hj => ?_, nofun⟩
  · rcases exists_before hh hg with ⟨rfl, rfl⟩ | hg
    · obtain ⟨-, hphase | hphase | hphase⟩ := hc
      all_goals cases hphase
    · exact absurd hclear ((hi.live g c hg hc).alone h a hh)
  · exact absurd hclear ((hi.set j hj).2.2 h a hh).2

theorem FilterInv.tasksStep (hi : FilterInv s) (hb : TasksStep s t) : FilterInv t := by
  cases hb with
  | next h a b hh hn => exact hi.next hh hn
  | clear h a hh hs => exact hi.clear hh hs

/-! ### What the calls know -/

def At (i : ι) (x : Option Held) (stopping : Bool) (s : FilterState ι) : Prop :=
  (∀ y, s.lock = some (i, y) ↔ x = some y) ∧ s.stopping i = stopping

structure FilterRelies (i : ι) (s t : FilterState ι) : Prop where
  lock : ∀ y, t.lock = some (i, y) ↔ s.lock = some (i, y)
  stopping : t.stopping i = s.stopping i
  running : ∀ y, s.lock = some (i, y) → s.running = false → t.running = false

instance (i : ι) : IsPreorder (FilterState ι) (FilterRelies i) where
  refl _ := ⟨fun _ => Iff.rfl, rfl, fun _ _ h => h⟩
  trans _ _ _ h h' := ⟨fun y => (h'.lock y).trans (h.lock y), h'.stopping.trans h.stopping,
    fun y hy hr => h'.running y ((h.lock y).mpr hy) (h.running y hy hr)⟩

structure FilterGuarantees (j : ι) (s t : FilterState ι) : Prop where
  keeps : FilterInv s → FilterInv t
  relies : ∀ i, i ≠ j → FilterRelies i s t

variable {x : Option Held} {b' : Bool}

theorem At.rely (h : At i x b' s) (hr : FilterRelies i s t) : At i x b' t :=
  ⟨fun y => (hr.lock y).trans (h.1 y), hr.stopping.trans h.2⟩

theorem At.lock {y : Held} (h : At i (some y) b' s) : s.lock = some (i, y) := (h.1 y).mpr rfl

theorem FilterRelies.tasksStep (i : ι) (hb : TasksStep s t) : FilterRelies i s t := by
  cases hb with
  | next h a b hh hn => exact ⟨fun _ => Iff.rfl, rfl, fun _ _ hr => hr⟩
  | clear h a hh hs => exact ⟨fun _ => Iff.rfl, rfl, fun _ _ _ => rfl⟩

theorem FilterRelies.other {l : Option (ι × Held)} {st : ι → Bool} {r : Bool} {task : Option Nat}
    {tasks : Nat → Option FilterTask} (hs : ∀ y, s.lock ≠ some (i, y))
    (hl : ∀ y, l ≠ some (i, y)) (hst : st i = s.stopping i) :
    FilterRelies i s ⟨r, task, l, tasks, st⟩ :=
  ⟨fun y => iff_of_false (hl y) (hs y), hst, fun y hy => absurd hy (hs y)⟩

theorem At.ne_lock {y : Held} (h : At j (some y) b' s) (hij : i ≠ j) (z : Held) :
    s.lock ≠ some (i, z) := by
  rw [h.lock]
  intro heq
  cases heq
  exact hij rfl

theorem at_of_lock {y : Held} (hl : t.lock = some (i, y)) (hst : t.stopping i = b') :
    At i (some y) b' t := by
  refine ⟨fun z => ?_, hst⟩
  rw [hl]
  simp

theorem at_of_free (hl : t.lock = none) (hst : t.stopping i = b') : At i none b' t := by
  refine ⟨fun z => ?_, hst⟩
  rw [hl]
  exact iff_of_false nofun nofun

/-! ### Steps of the calls -/

theorem FilterInv.relock (hi : FilterInv s) {task : Option Nat} {l : Option (ι × Held)}
    (hs : ∀ j y, s.lock = some (j, y) → y ≠ .set ∧ ∀ h, y ≠ .taken h)
    (hl : ∀ j, l ≠ some (j, .set))
    (hheld : FilterState.held { s with task := task, lock := l } = s.held) :
    FilterInv { s with task := task, lock := l } := by
  refine ⟨fun h a hh ha => ?_, fun j hj => absurd hj (hl j), fun hr => ?_⟩
  · have hserving := hi.live h a hh ha
    refine ⟨hserving.running, hheld.trans hserving.held, fun j hj => ?_, hserving.alone⟩
    exact absurd rfl ((hs j _ (hserving.stopping j hj)).2 h)
  · rcases hi.cause hr with hcause | hcause | ⟨j, hj⟩
    · exact .inl hcause
    · exact .inr (.inl hcause)
    · exact absurd rfl (hs j _ hj).1

theorem lock_step (h : At i none b' s) (hs : s.lock = none) :
    FilterGuarantees i s { s with lock := some (i, .entered) } ∧
      At i (some .entered) b' { s with lock := some (i, .entered) } := by
  refine ⟨⟨fun hi => ?_, fun j hj => ?_⟩, at_of_lock rfl h.2⟩
  · apply hi.relock
    · rintro j y hj
      rw [hs] at hj
      cases hj
    · rintro j ⟨⟩
    · rw [FilterState.held, FilterState.held, hs]
  · refine .other (fun y => ?_) (fun y hy => ?_) rfl
    · rw [hs]
      nofun
    · cases hy
      exact hj rfl

theorem unlock_step (h : At i (some .entered) b' s) :
    FilterGuarantees i s { s with lock := none } ∧ At i none b' { s with lock := none } := by
  refine ⟨⟨fun hi => ?_, fun j hj => .other (h.ne_lock hj) nofun rfl⟩, at_of_free rfl h.2⟩
  apply hi.relock
  · rintro j y hj
    rw [h.lock] at hj
    cases hj
    exact ⟨nofun, nofun⟩
  · exact nofun
  · rw [FilterState.held, FilterState.held, h.lock]

theorem setTask_step (h : At i (some (.spawned g)) b' s) :
    FilterGuarantees i s { s with task := some g, lock := some (i, .entered) } ∧
      At i (some .entered) b' { s with task := some g, lock := some (i, .entered) } := by
  refine ⟨⟨fun hi => ?_, fun j hj => .other (h.ne_lock hj) ?_ rfl⟩, at_of_lock rfl h.2⟩
  · apply hi.relock
    · rintro j y hj
      rw [h.lock] at hj
      cases hj
      exact ⟨nofun, nofun⟩
    · rintro j ⟨⟩
    · rw [FilterState.held, FilterState.held, h.lock]
  · rintro y ⟨⟩
    exact hj rfl

theorem setRunning_step (h : At i (some .entered) b' s) (hr : s.running = false)
    (ho : FilterOrderly s (.storeRunning true)) :
    FilterGuarantees i s { s with running := true, lock := some (i, .set) } ∧
      At i (some .set) b' { s with running := true, lock := some (i, .set) } := by
  refine ⟨⟨fun hi => ?_, fun j hj => .other (h.ne_lock hj) ?_ rfl⟩, at_of_lock rfl h.2⟩
  · have hdead (g : Nat) (a : FilterTask) (hg : s.tasks g = some a) (ha : a.Live) : False := by
      have hrunning := (hi.live g a hg ha).running
      rw [hr] at hrunning
      cases hrunning
    refine ⟨fun g a hg ha => (hdead g a hg ha).elim, fun j _ => ?_, fun _ => ?_⟩
    · exact ⟨rfl, ho.1, fun g a hg => ⟨hdead g a hg, ho.2 g a hg⟩⟩
    · exact .inr (.inr ⟨i, rfl⟩)
  · rintro y ⟨⟩
    exact hj rfl

theorem spawn_step (h : At i (some .set) b' s) (hg : s.tasks g = none) :
    FilterGuarantees i s { s.put g ⟨.ready, false⟩ with lock := some (i, .spawned g) } ∧
      At i (some (.spawned g)) b'
        { s.put g ⟨.ready, false⟩ with lock := some (i, .spawned g) } := by
  refine ⟨⟨fun hi => ?_, fun j hj => .other (h.ne_lock hj) ?_ rfl⟩, at_of_lock rfl h.2⟩
  · obtain ⟨hr, hstop, hnone⟩ := hi.set i h.lock
    have hnew : FilterTask.Live ⟨.ready, false⟩ := ⟨rfl, .inl rfl⟩
    refine ⟨fun k a hk ha => ?_, nofun, fun _ => .inl ⟨g, _, put_self, .inl hnew⟩⟩
    by_cases hkg : k = g
    · subst hkg
      refine ⟨hr, rfl, fun j hj => ?_, fun m c hm hc => ?_⟩
      · have hfalse := hstop j
        rw [show s.stopping j = true from hj] at hfalse
        cases hfalse
      · by_cases hmk : m = k
        · subst hmk
          have heq := (put_self (s := s)).symm.trans hm
          obtain rfl := Option.some.inj heq
          exact hnew.not_mayClear hc
        · exact (hnone m c ((put_ne hmk).symm.trans hm)).2 hc
    · exact absurd ha (hnone k a ((put_ne hkg).symm.trans hk)).1
  · rintro y ⟨⟩
    exact hj rfl

theorem abort_step (h : At i (some (.taken g)) true s) :
    FilterGuarantees i s { s.abort g with lock := some (i, .entered) } ∧
      At i (some .entered) true { s.abort g with lock := some (i, .entered) } := by
  refine ⟨⟨fun hi => ?_, fun j hj => .other (h.ne_lock hj) ?_ rfl⟩, at_of_lock rfl h.2⟩
  · -- the task that is aborted is the only one that was live
    have hheld : s.held = some g := by rw [FilterState.held, h.lock]
    have hdead (k : Nat) (a : FilterTask) (hk : (s.abort g).tasks k = some a) : ¬a.Live := by
      intro ha
      by_cases hkg : k = g
      · subst hkg
        have hself : (s.abort k).tasks k =
          (s.tasks k).map fun a => { a with aborted := true } := Function.update_self ..
        rw [hself] at hk
        obtain ⟨c, -, rfl⟩ := Option.map_eq_some_iff.mp hk
        cases ha.1
      · have hsame : (s.abort g).tasks k = s.tasks k := Function.update_of_ne hkg ..
        have hlive := (hi.live k a (hsame.symm.trans hk) ha).held
        rw [hheld] at hlive
        exact hkg (Option.some.inj hlive).symm
    exact ⟨fun k a hk ha => absurd ha (hdead k a hk), nofun, fun _ => .inr (.inl ⟨i, h.2⟩)⟩
  · rintro y ⟨⟩
    exact hj rfl

theorem refl_step (h : At i x b' s) : FilterGuarantees i s s ∧ At i x b' s :=
  ⟨⟨id, fun j _ => Std.Refl.refl (r := FilterRelies j) s⟩, h⟩

theorem initial_inv : FilterInv (FilterState.initial : FilterState ι) :=
  ⟨nofun, nofun, nofun⟩

theorem FilterInv.truthful (hi : FilterInv s) (hfree : ∀ i, At i none false s)
    (hclear : ∀ h a, s.tasks h = some a → a.phase ≠ .stopped) : Truthful s := by
  have hlock : s.lock = none := by
    cases hl : s.lock with
    | none => rfl
    | some l => cases ((hfree l.1).1 l.2).mp hl
  have hheld : s.held = s.task := by rw [FilterState.held, hlock]
  refine ⟨⟨fun hr => ?_, fun ⟨h, a, hh, ha⟩ => (hi.live h a hh ha).running⟩,
    fun h a hh ha => hheld.symm.trans (hi.live h a hh ha).held,
    fun h a g b hh ha hg hb => hi.live_eq hh ha hg hb⟩
  rcases hi.cause hr with ⟨h, a, hh, ha | ha⟩ | ⟨j, hj⟩ | ⟨j, hj⟩
  · exact ⟨h, a, hh, ha⟩
  · exact absurd ha (hclear h a hh)
  · rw [(hfree j).2] at hj
    cases hj
  · rw [hlock] at hj
    cases hj

variable [DecidableEq ι]

theorem takeTask_step (h : At i (some .entered) b' s) {t : FilterState ι}
    (ht : t = { s with
      task := none
      lock := some (i, s.task.elim .entered .taken)
      stopping := Function.update s.stopping i true }) :
    FilterGuarantees i s t ∧ At i (some (s.task.elim .entered .taken)) true t := by
  subst ht
  have hothers (j : ι) (hj : j ≠ i) : Function.update s.stopping i true j = s.stopping j :=
    Function.update_of_ne hj ..
  have hself : Function.update s.stopping i true i = true := Function.update_self ..
  have hheld : s.held = s.task := by rw [FilterState.held, h.lock]
  refine ⟨⟨fun hi => ?_, fun j hj => ?_⟩, at_of_lock rfl hself⟩
  · refine ⟨fun g a hg ha => ?_, fun j hj => ?_, fun _ => .inr (.inl ⟨i, hself⟩)⟩
    · have hserving := hi.live g a hg ha
      have htask : s.task = some g := hheld.symm.trans hserving.held
      refine ⟨hserving.running, ?_, fun j hj => ?_, hserving.alone⟩
      · simp only [FilterState.held, htask, Option.elim_some]
      · by_cases hji : j = i
        · subst hji
          simp only [htask, Option.elim_some]
        · have hlock := hserving.stopping j ((hothers j hji).symm.trans hj)
          rw [h.lock] at hlock
          cases hlock
    · cases htask : s.task with
      | none => simp [htask] at hj
      | some g => simp [htask] at hj
  · refine .other (h.ne_lock hj) ?_ (hothers j hj)
    rintro y ⟨⟩
    exact hj rfl

theorem clearRunning_step (h : At i none true s) {t : FilterState ι}
    (ht : t = { s with running := false, stopping := Function.update s.stopping i false }) :
    FilterGuarantees i s t ∧ At i none false t := by
  subst ht
  have hself : Function.update s.stopping i false i = false := Function.update_self ..
  have hfree (y : Held) : s.lock ≠ some (i, y) := fun hy => nomatch (h.1 y).mp hy
  refine ⟨⟨fun hi => ?_, fun j hj => ?_⟩, ⟨h.1, hself⟩⟩
  · refine ⟨fun g a hg ha => ?_, fun j hj => ?_, nofun⟩
    · exact absurd ((hi.live g a hg ha).stopping i h.2) (hfree _)
    · have hstop := (hi.set j hj).2.1 i
      rw [h.2] at hstop
      cases hstop
  · exact ⟨fun _ => Iff.rfl, Function.update_of_ne hj .., fun _ _ _ => rfl⟩

/-! ### Whole calls -/

abbrev FilterAssures (i : ι) (Q : α → FilterState ι → Prop) (p : FilterM α) (s : FilterState ι) :
    Prop := p.Assures (orderlyFilter i) (FilterRelies i) (FilterGuarantees i) Q s

theorem startTask_assures (h : At i (some .entered) false s) (hr : s.running = false) :
    FilterAssures i (fun _ => At i none false) startTask s := by
  rintro s1 h1 ⟨⟩ t1 ⟨rfl, ho⟩
  have hr1 := h1.running _ h.lock hr
  obtain ⟨hg1, hat1⟩ := setRunning_step (h.rely h1) hr1 ho
  refine ⟨hg1, ?_⟩
  rintro s2 h2 g t2 ⟨⟨hnew, rfl⟩, -⟩
  obtain ⟨hg2, hat2⟩ := spawn_step (hat1.rely h2) hnew
  refine ⟨hg2, ?_⟩
  rintro s3 h3 ⟨⟩ t3 ⟨rfl, -⟩
  obtain ⟨hg3, hat3⟩ := setTask_step (hat2.rely h3)
  refine ⟨hg3, ?_⟩
  rintro s4 h4 ⟨⟩ t4 ⟨rfl, -⟩
  obtain ⟨hg4, hat4⟩ := unlock_step (hat3.rely h4)
  exact ⟨hg4, fun t ht => hat4.rely ht⟩

theorem filterStart_assures (h : At i none false s) :
    FilterAssures i (fun _ => At i none false) filterStart s := by
  rintro s1 h1 ⟨⟩ t1 ⟨⟨hfree, rfl⟩, -⟩
  obtain ⟨hg1, hat1⟩ := lock_step (h.rely h1) hfree
  refine ⟨hg1, ?_⟩
  rintro s2 h2 running t2 ⟨⟨hload, rfl⟩, -⟩
  obtain ⟨hg2, hat2⟩ := refl_step (hat1.rely h2)
  refine ⟨hg2, ?_⟩
  cases running with
  | false => exact startTask_assures hat2 hload.symm
  | true =>
    rintro s3 h3 ⟨⟩ t3 ⟨rfl, -⟩
    obtain ⟨hg3, hat3⟩ := unlock_step (hat2.rely h3)
    exact ⟨hg3, fun t ht => hat3.rely ht⟩

theorem clear_assures (h : At i (some .entered) true s) :
    FilterAssures i (fun _ => At i none false) (do
      filterOp .unlock
      filterOp (.storeRunning false)
      return "Filter bypass stopped.") s := by
  rintro s1 h1 ⟨⟩ t1 ⟨rfl, -⟩
  obtain ⟨hg1, hat1⟩ := unlock_step (h.rely h1)
  refine ⟨hg1, ?_⟩
  rintro s2 h2 ⟨⟩ t2 ⟨ht2, -⟩
  obtain ⟨hg2, hat2⟩ := clearRunning_step (hat1.rely h2) ht2
  exact ⟨hg2, fun t ht => hat2.rely ht⟩

theorem filterStop_assures (h : At i none false s) :
    FilterAssures i (fun _ => At i none false) filterStop s := by
  rintro s1 h1 ⟨⟩ t1 ⟨⟨hfree, rfl⟩, -⟩
  obtain ⟨hg1, hat1⟩ := lock_step (h.rely h1) hfree
  refine ⟨hg1, ?_⟩
  rintro s2 h2 _ t2 ⟨⟨rfl, ht2⟩, -⟩
  obtain ⟨hg2, hat2⟩ := takeTask_step (hat1.rely h2) ht2
  refine ⟨hg2, ?_⟩
  cases htask : s2.task with
  | none =>
    rw [htask] at hat2
    exact clear_assures hat2
  | some g =>
    rw [htask] at hat2
    rintro s3 h3 ⟨⟩ t3 ⟨rfl, -⟩
    obtain ⟨hg3, hat3⟩ := abort_step (hat2.rely h3)
    exact ⟨hg3, clear_assures hat3⟩

/-! ### Every run -/

def filterCalls (calls : ι → FilterCall) :
    Pool ι FilterOp FilterOp.Ret String (FilterState ι) :=
  Pool.start (fun i => (calls i).prog) FilterState.initial

def Quiet (p : Pool ι FilterOp FilterOp.Ret String (FilterState ι)) : Prop :=
  ∀ i, p.taken i = [] ∨ ∃ msg, p.prog i = .done msg

variable {p q : Pool ι FilterOp FilterOp.Ret String (FilterState ι)}

theorem filterCalls_assured (calls : ι → FilterCall) : (filterCalls calls).Assured orderlyFilter
    FilterRelies FilterGuarantees fun i _ => At i none false := by
  intro i
  have hat : At i none false (FilterState.initial : FilterState ι) := at_of_free rfl rfl
  change FilterAssures i _ (calls i).prog FilterState.initial
  cases calls i with
  | start => exact filterStart_assures hat
  | stop => exact filterStop_assures hat

/-- In every run in which no call sets the flag while an earlier one or one of its tasks may still
clear it, the flag is right whenever no call is in progress and no task is about to clear it. -/
theorem filter_truthful (calls : ι → FilterCall)
    (q : Pool ι FilterOp FilterOp.Ret String (FilterState ι))
    (hr : Pool.Runs orderlyFilter TasksStep (filterCalls calls) q) (hquiet : Quiet q)
    (hclear : ∀ h a, q.state.tasks h = some a → a.phase ≠ .stopped) : Truthful q.state := by
  have hp := filterCalls_assured calls
  have hB (i : ι) (s t : FilterState ι) (hb : TasksStep s t) : FilterRelies i s t :=
    .tasksStep i hb
  have hG (i j : ι) (s t : FilterState ι) (hij : i ≠ j) (hg : FilterGuarantees j s t) :
      FilterRelies i s t := hg.relies i hij
  have hi : FilterInv q.state := hp.invariant hB hG (fun _ _ _ hg => hg.keeps)
    (fun _ _ hb hi => hi.tasksStep hb) hr initial_inv
  refine hi.truthful (fun i => ?_) hclear
  rcases hquiet i with htaken | ⟨msg, hdone⟩
  · have hat : At i none false (FilterState.initial : FilterState ι) := at_of_free rfl rfl
    exact hat.rely ((hp.untaken hB hG hr i).2 htaken)
  · exact (hp.runs hB hG hr).done hdone

def oneTask : Nat → Option FilterTask := Function.update (fun _ => none) 0 (some ⟨.ready, false⟩)

theorem oneTask_phase (hh : oneTask h = some a) : a.phase ≠ .stopped := by
  by_cases h0 : h = 0
  · subst h0
    cases hh
    nofun
  · rw [oneTask, Function.update_of_ne h0] at hh
    cases hh

def stopHalf : FilterState Bool :=
  { FilterState.initial with stopping := Function.update (fun _ => false) false true }

def clearing : FilterM String := do
  filterOp (.storeRunning false)
  return "Filter bypass stopped."

theorem stop_visits : Prog.Visits (orderlyFilter false) filterStop FilterState.initial clearing
    stopHalf :=
  .step (r := ()) ⟨⟨rfl, rfl⟩, trivial⟩ (.step (r := none) ⟨⟨rfl, rfl⟩, trivial⟩
    (.step (r := ()) ⟨rfl, trivial⟩ .refl))

def overlapping : Bool → FilterCall
  | false => .stop
  | true => .start

def stopWhole (lock : Option (Bool × Held)) : FilterState Bool :=
  { stopHalf with
    lock := lock
    stopping := Function.update stopHalf.stopping false false }

theorem stopWhole_stopping (lock : Option (Bool × Held)) (j : Bool) :
    (stopWhole lock).stopping j = false := by
  cases j <;> rfl

/-- The stop clears the flag between the look of the start at it and the start of the task. -/
theorem started_truthful : ∃ q,
    Pool.Runs orderlyFilter TasksStep (filterCalls overlapping) q ∧
      (∀ i, ∃ msg, q.prog i = .done msg) ∧ q.state.running = true ∧ Truthful q.state := by
  obtain ⟨q₁, hq₁, hrest, hstate₁, hother⟩ := Pool.exists_runs (B := TasksStep)
    (p := filterCalls overlapping) (i := false) stop_visits
  have hlook : Prog.Visits (orderlyFilter true) (q₁.prog true) q₁.state startTask
      { stopHalf with lock := some (true, .entered) } := by
    rw [hother true (by decide), hstate₁]
    exact .step (r := ()) ⟨⟨rfl, rfl⟩, trivial⟩
      (.step (r := false) ⟨⟨rfl, rfl⟩, trivial⟩ .refl)
  have hclear : Prog.Visits (orderlyFilter false) (q₁.prog false)
      { stopHalf with lock := some (true, .entered) } (.done "Filter bypass stopped.")
      (stopWhole (some (true, .entered))) := by
    rw [hrest]
    exact .step (r := ()) ⟨rfl, trivial⟩ .refl
  have hset : FilterOrderly (stopWhole (some (true, .entered))) (.storeRunning true) :=
    ⟨stopWhole_stopping _, nofun⟩
  have hstart : Prog.Visits (orderlyFilter true) startTask (stopWhole (some (true, .entered)))
      (.done "Filter bypass running on 127.0.0.1:8088.")
      { stopWhole none with running := true, task := some 0, tasks := oneTask } :=
    .step (r := ()) ⟨rfl, hset⟩ (.step (r := (0 : Nat)) ⟨⟨rfl, rfl⟩, trivial⟩
      (.step (r := ()) ⟨rfl, trivial⟩ (.step (r := ()) ⟨rfl, trivial⟩ .refl)))
  obtain ⟨q, hq, hstarted, hstopped, hstate⟩ := Pool.exists_runs_around (B := TasksStep)
    (i := true) (j := false) (by decide) hlook hclear hstart
  have hdone : ∀ i, ∃ msg, q.prog i = .done msg := by
    intro i
    cases i with
    | false => exact ⟨_, hstopped⟩
    | true => exact ⟨_, hstarted⟩
  refine ⟨q, hq₁.trans hq, hdone, by rw [hstate], ?_⟩
  refine filter_truthful _ q (hq₁.trans hq) (fun i => .inr (hdone i)) fun h a hh => ?_
  rw [hstate] at hh
  exact oneTask_phase hh

def startedBetween : FilterState Bool :=
  { stopHalf with running := true, task := some 0, tasks := oneTask }

/-- A start between the two halves of a stop leaves a task that serves and a flag that says not. -/
theorem stop_clears_start : ¬∀ (calls : Bool → FilterCall)
    (q : Pool Bool FilterOp FilterOp.Ret String (FilterState Bool)),
    Pool.Runs filterAnswers TasksStep (filterCalls calls) q → Quiet q →
    (∀ h a, q.state.tasks h = some a → a.phase ≠ .stopped) → Truthful q.state := by
  intro hall
  have hstop : Prog.Visits (filterAnswers false) filterStop FilterState.initial clearing
      stopHalf :=
    stop_visits.mono fun _ _ _ _ h => h.1
  have hstart : Prog.Visits (filterAnswers true) ((filterCalls overlapping).prog true) stopHalf
      (.done "Filter bypass running on 127.0.0.1:8088.") startedBetween :=
    .step (r := ()) ⟨rfl, rfl⟩ (.step (r := false) ⟨rfl, rfl⟩ (.step (r := ()) rfl
      (.step (r := (0 : Nat)) ⟨rfl, rfl⟩ (.step (r := ()) rfl (.step (r := ()) rfl .refl)))))
  have hend : Prog.Visits (filterAnswers false) clearing startedBetween
      (.done "Filter bypass stopped.") { startedBetween with
        running := false
        stopping := Function.update startedBetween.stopping false false } :=
    .step (r := ()) rfl .refl
  obtain ⟨q, hq, hstopped, hstarted, hstate⟩ := Pool.exists_runs_around (B := TasksStep)
    (p := filterCalls overlapping) (i := false) (j := true) (by decide) hstop hstart hend
  have hquiet : Quiet q := by
    intro i
    cases i with
    | false => exact .inr ⟨_, hstopped⟩
    | true => exact .inr ⟨_, hstarted⟩
  have htask : q.state.tasks 0 = some ⟨.ready, false⟩ := by
    rw [hstate]
    rfl
  have hclear : ∀ h a, q.state.tasks h = some a → a.phase ≠ .stopped := by
    intro h a hh
    rw [hstate] at hh
    exact oneTask_phase hh
  have htruth := hall overlapping q hq hquiet hclear
  have hrunning := htruth.running.mpr ⟨0, _, htask, rfl, .inl rfl⟩
  rw [hstate] at hrunning
  cases hrunning

end Detour.Gui
