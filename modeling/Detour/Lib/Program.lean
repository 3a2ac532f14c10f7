import Mathlib.Data.List.Basic
import Mathlib.Data.List.TakeDrop

/-! Programs that touch a shared state only through atomic operations, with what a crash
between two operations can leave behind.  A program is a tree of operations; a handler says
what each operation answers and does to the state. -/

namespace Atomic

variable {Op Op' : Type} {Ret : Op → Type} {Ret' : Op' → Type} {α β ε σ τ : Type}

inductive Prog (Op : Type) (Ret : Op → Type) (α : Type) : Type
  | done : α → Prog Op Ret α
  | op : (o : Op) → (Ret o → Prog Op Ret α) → Prog Op Ret α

abbrev Handler (Op : Type) (Ret : Op → Type) (σ : Type) := (o : Op) → σ → Ret o × σ

namespace Prog

def bind : Prog Op Ret α → (α → Prog Op Ret β) → Prog Op Ret β
  | .done a, f => f a
  | .op o k, f => .op o (fun r => (k r).bind f)

instance : Monad (Prog Op Ret) where
  pure := .done
  bind := bind

theorem bind_done (p : Prog Op Ret α) : p.bind .done = p := by
  induction p with
  | done a => rfl
  | op o k ih => simp only [bind, ih]

theorem bind_bind {γ : Type} (p : Prog Op Ret α) (f : α → Prog Op Ret β)
    (g : β → Prog Op Ret γ) : (p.bind f).bind g = p.bind (fun a => (f a).bind g) := by
  induction p with
  | done a => rfl
  | op o k ih => simp only [bind, ih]

instance : LawfulMonad (Prog Op Ret) :=
  LawfulMonad.mk' _ bind_done (fun _ _ => rfl) bind_bind

def perform (o : Op) : Prog Op Ret (Ret o) := .op o .done

def run (h : Handler Op Ret σ) : Prog Op Ret α → σ → α × σ
  | .done a, s => (a, s)
  | .op o k, s => (k (h o s).1).run h (h o s).2

def trace (h : Handler Op Ret σ) : Prog Op Ret α → σ → List Op
  | .done _, _ => []
  | .op o k, s => o :: (k (h o s).1).trace h (h o s).2

/-- The operations performed by a process that dies after `n` operations. -/
def performed (h : Handler Op Ret σ) (n : Nat) (p : Prog Op Ret α) (s : σ) : List Op :=
  (p.trace h s).take n

def after (h : Handler Op Ret σ) : Nat → Prog Op Ret α → σ → Prog Op Ret α × σ
  | 0, p, s => (p, s)
  | _ + 1, .done a, s => (.done a, s)
  | n + 1, .op o k, s => (k (h o s).1).after h n (h o s).2

def crash (h : Handler Op Ret σ) (n : Nat) (p : Prog Op Ret α) (s : σ) : σ := (p.after h n s).2

end Prog

def exec (h : Handler Op Ret σ) (os : List Op) (s : σ) : σ := os.foldl (fun s o => (h o s).2) s

@[simp] theorem exec_nil (h : Handler Op Ret σ) (s : σ) : exec h [] s = s := rfl

@[simp] theorem exec_cons (h : Handler Op Ret σ) (o : Op) (os : List Op) (s : σ) :
    exec h (o :: os) s = exec h os (h o s).2 := rfl

theorem exec_append (h : Handler Op Ret σ) (os qs : List Op) (s : σ) :
    exec h (os ++ qs) s = exec h qs (exec h os s) := List.foldl_append

namespace Prog

@[simp] theorem run_pure (h : Handler Op Ret σ) (a : α) (s : σ) :
    (pure a : Prog Op Ret α).run h s = (a, s) := rfl

@[simp] theorem trace_pure (h : Handler Op Ret σ) (a : α) (s : σ) :
    (pure a : Prog Op Ret α).trace h s = [] := rfl

@[simp] theorem run_perform (h : Handler Op Ret σ) (o : Op) (s : σ) :
    (perform o : Prog Op Ret _).run h s = h o s := rfl

@[simp] theorem trace_perform (h : Handler Op Ret σ) (o : Op) (s : σ) :
    (perform o : Prog Op Ret _).trace h s = [o] := rfl

@[simp] theorem run_bind (h : Handler Op Ret σ) (p : Prog Op Ret α) (f : α → Prog Op Ret β)
    (s : σ) : (p >>= f).run h s = (f (p.run h s).1).run h (p.run h s).2 := by
  change (p.bind f).run h s = _
  induction p generalizing s with
  | done a => rfl
  | op o k ih => exact ih _ _

@[simp] theorem trace_bind (h : Handler Op Ret σ) (p : Prog Op Ret α) (f : α → Prog Op Ret β)
    (s : σ) : (p >>= f).trace h s =
      p.trace h s ++ (f (p.run h s).1).trace h (p.run h s).2 := by
  change (p.bind f).trace h s = _
  induction p generalizing s with
  | done a => rfl
  | op o k ih => exact congrArg (o :: ·) (ih _ _)

@[simp] theorem run_map (h : Handler Op Ret σ) (f : α → β) (p : Prog Op Ret α) (s : σ) :
    (f <$> p).run h s = (f (p.run h s).1, (p.run h s).2) := by
  rw [map_eq_pure_bind, run_bind]
  rfl

@[simp] theorem trace_map (h : Handler Op Ret σ) (f : α → β) (p : Prog Op Ret α) (s : σ) :
    (f <$> p).trace h s = p.trace h s := by
  rw [map_eq_pure_bind, trace_bind]
  simp

theorem run_snd (h : Handler Op Ret σ) (p : Prog Op Ret α) (s : σ) :
    (p.run h s).2 = exec h (p.trace h s) s := by
  induction p generalizing s with
  | done a => rfl
  | op o k ih => exact ih _ _

/-- A crash leaves the effect of a prefix of the operations. -/
theorem crash_eq (h : Handler Op Ret σ) (n : Nat) (p : Prog Op Ret α) (s : σ) :
    p.crash h n s = exec h (p.performed h n s) s := by
  induction p generalizing n s with
  | done a => cases n <;> simp [crash, after, performed, trace]
  | op o k ih =>
    cases n with
    | zero => rfl
    | succ n => exact ih _ n _

theorem crash_length (h : Handler Op Ret σ) (p : Prog Op Ret α) (s : σ) :
    p.crash h (p.trace h s).length s = (p.run h s).2 := by
  rw [crash_eq, performed, List.take_length, run_snd]

theorem crash_append {h : Handler Op Ret σ} {p : Prog Op Ret α} {s : σ} {os qs : List Op}
    (ht : p.trace h s = os ++ qs) : p.crash h os.length s = exec h os s := by
  rw [crash_eq, performed, ht, List.take_left']
  rfl

theorem crash_bind (h : Handler Op Ret σ) (n : Nat) (p : Prog Op Ret α)
    (f : α → Prog Op Ret β) (s : σ) :
    (p >>= f).crash h n s =
      if n ≤ (p.trace h s).length then p.crash h n s
      else (f (p.run h s).1).crash h (n - (p.trace h s).length) (p.run h s).2 := by
  simp only [crash_eq, performed, trace_bind, List.take_append]
  split
  · next hn => simp [Nat.sub_eq_zero_of_le hn]
  · next hn => rw [List.take_of_length_le (by omega), exec_append, ← run_snd]

theorem crash_bind_add (h : Handler Op Ret σ) (n : Nat) (p : Prog Op Ret α)
    (f : α → Prog Op Ret β) (s : σ) :
    (p >>= f).crash h ((p.trace h s).length + n) s =
      (f (p.run h s).1).crash h n (p.run h s).2 := by
  rw [crash_bind, Nat.add_sub_cancel_left]
  split
  · next hn =>
    obtain rfl : n = 0 := by omega
    exact crash_length h p s
  · rfl

def All (P : Op → Prop) : Prog Op Ret α → Prop
  | .done _ => True
  | .op o k => P o ∧ ∀ r, (k r).All P

variable {P : Op → Prop}

theorem all_true (p : Prog Op Ret α) : p.All (fun _ => True) := by
  induction p with
  | done a => trivial
  | op o k ih => exact ⟨trivial, ih⟩

@[simp] theorem all_pure (a : α) : (pure a : Prog Op Ret α).All P := trivial

@[simp] theorem all_perform (o : Op) : (perform o : Prog Op Ret _).All P ↔ P o :=
  ⟨fun h => h.1, fun h => ⟨h, fun _ => trivial⟩⟩

theorem all_bind {p : Prog Op Ret α} {f : α → Prog Op Ret β} (hp : p.All P)
    (hf : ∀ a, (f a).All P) : (p >>= f).All P := by
  change (p.bind f).All P
  induction p with
  | done a => exact hf a
  | op o k ih => exact ⟨hp.1, fun r => ih r (hp.2 r)⟩

theorem all_trace {h : Handler Op Ret σ} {p : Prog Op Ret α} (hp : p.All P) (s : σ) :
    ∀ o ∈ p.trace h s, P o := by
  induction p generalizing s with
  | done a => exact nofun
  | op o k ih =>
    intro o' ho'
    cases ho' with
    | head => exact hp.1
    | tail _ htail => exact ih _ (hp.2 _) _ o' htail

theorem crash_all {h : Handler Op Ret σ} {view : σ → τ}
    (hview : ∀ o s, P o → view (h o s).2 = view s) {p : Prog Op Ret α} (hp : p.All P) (n : Nat)
    (s : σ) : view (p.crash h n s) = view s := by
  induction p generalizing n s with
  | done a => cases n <;> rfl
  | op o k ih =>
    cases n with
    | zero => rfl
    | succ n => exact (ih _ (hp.2 _) n _).trans (hview o s hp.1)

theorem run_all {h : Handler Op Ret σ} {view : σ → τ}
    (hview : ∀ o s, P o → view (h o s).2 = view s) {p : Prog Op Ret α} (hp : p.All P) (s : σ) :
    view (p.run h s).2 = view s := by
  rw [← crash_length]
  exact crash_all hview hp _ s

end Prog

/-! ### Fallible programs -/

abbrev Fallible (Op : Type) (Ret : Op → Type) (ε α : Type) := ExceptT ε (Prog Op Ret) α

namespace Fallible

def sys (o : Op) : Fallible Op Ret ε (Ret o) := ExceptT.lift (Prog.perform o)

variable {h : Handler Op Ret σ}

@[simp] theorem run_sys (o : Op) (s : σ) :
    (ExceptT.run (sys o : Fallible Op Ret ε _)).run h s = (.ok (h o s).1, (h o s).2) := rfl

@[simp] theorem trace_sys (o : Op) (s : σ) :
    (ExceptT.run (sys o : Fallible Op Ret ε _)).trace h s = [o] := rfl

@[simp] theorem run_bind (p : Fallible Op Ret ε α) (f : α → Fallible Op Ret ε β) (s : σ) :
    (ExceptT.run (p >>= f)).run h s =
      match ((ExceptT.run p).run h s).1 with
      | .ok a => (ExceptT.run (f a)).run h ((ExceptT.run p).run h s).2
      | .error e => (.error e, ((ExceptT.run p).run h s).2) := by
  rw [ExceptT.run_bind, Prog.run_bind]
  cases ((ExceptT.run p).run h s).1 <;> rfl

@[simp] theorem trace_bind (p : Fallible Op Ret ε α) (f : α → Fallible Op Ret ε β) (s : σ) :
    (ExceptT.run (p >>= f)).trace h s =
      (ExceptT.run p).trace h s ++
        match ((ExceptT.run p).run h s).1 with
        | .ok a => (ExceptT.run (f a)).trace h ((ExceptT.run p).run h s).2
        | .error _ => [] := by
  rw [ExceptT.run_bind, Prog.trace_bind]
  cases ((ExceptT.run p).run h s).1 <;> rfl

theorem crash_sys_bind (o : Op) (f : Ret o → Fallible Op Ret ε α) (n : Nat) (s : σ) :
    (ExceptT.run (sys o >>= f)).crash h (n + 1) s =
      (ExceptT.run (f (h o s).1)).crash h n (h o s).2 := rfl

theorem all_sys {P : Op → Prop} {o : Op} (ho : P o) :
    (ExceptT.run (sys o : Fallible Op Ret ε _)).All P := ⟨ho, fun _ => trivial⟩

theorem all_lift {P : Op → Prop} {p : Prog Op Ret α} (hp : p.All P) :
    (ExceptT.run (ExceptT.lift p : Fallible Op Ret ε α)).All P := by
  rw [ExceptT.run_lift, map_eq_pure_bind]
  exact Prog.all_bind hp fun _ => Prog.all_pure _

theorem all_bind {P : Op → Prop} {p : Fallible Op Ret ε α} {f : α → Fallible Op Ret ε β}
    (hp : (ExceptT.run p).All P) (hf : ∀ a, (ExceptT.run (f a)).All P) :
    (ExceptT.run (p >>= f)).All P := by
  rw [ExceptT.run_bind]
  apply Prog.all_bind hp
  intro r
  cases r with
  | ok a => exact hf a
  | error e => exact Prog.all_pure _

end Fallible

/-! ### Programs whose operations are themselves programs -/

namespace Prog

def translate (impl : (o : Op) → Prog Op' Ret' (Ret o)) : Prog Op Ret α → Prog Op' Ret' α
  | .done a => .done a
  | .op o k => impl o >>= fun r => (k r).translate impl

theorem all_translate {P : Op' → Prop} {impl : (o : Op) → Prog Op' Ret' (Ret o)}
    (himpl : ∀ o, (impl o).All P) (p : Prog Op Ret α) : (p.translate impl).All P := by
  induction p with
  | done a => trivial
  | op o k ih => exact all_bind (himpl o) ih

end Prog

/-- `impl` carries out every operation so that, through `view`, it happens at one instant:
a crash inside it shows the state before or the state after. -/
structure Implements (h : Handler Op Ret σ) (h' : Handler Op' Ret' τ) (view : τ → σ)
    (impl : (o : Op) → Prog Op' Ret' (Ret o)) : Prop where
  answer : ∀ o t, ((impl o).run h' t).1 = (h o (view t)).1
  final : ∀ o t, view ((impl o).run h' t).2 = (h o (view t)).2
  atomic : ∀ o n t, view ((impl o).crash h' n t) = view t ∨
    view ((impl o).crash h' n t) = (h o (view t)).2

namespace Implements

variable {h : Handler Op Ret σ} {h' : Handler Op' Ret' τ} {view : τ → σ}
  {impl : (o : Op) → Prog Op' Ret' (Ret o)}

theorem run (I : Implements h h' view impl) (p : Prog Op Ret α) (t : τ) :
    ((p.translate impl).run h' t).1 = (p.run h (view t)).1 ∧
      view ((p.translate impl).run h' t).2 = (p.run h (view t)).2 := by
  induction p generalizing t with
  | done a => exact ⟨rfl, rfl⟩
  | op o k ih =>
    simp only [Prog.translate, Prog.run_bind, Prog.run, ← I.answer o t, ← I.final o t]
    exact ih _ _

/-- A crash of the translated program looks like a crash of the program itself. -/
theorem crash (I : Implements h h' view impl) (n : Nat) (p : Prog Op Ret α) (t : τ) :
    ∃ m, view ((p.translate impl).crash h' n t) = p.crash h m (view t) := by
  induction p generalizing n t with
  | done a => exact ⟨0, by cases n <;> rfl⟩
  | op o k ih =>
    simp only [Prog.translate, Prog.crash_bind]
    split
    · rcases I.atomic o n t with hb | ha
      · exact ⟨0, hb⟩
      · exact ⟨1, by rw [ha]; rfl⟩
    · obtain ⟨m, hm⟩ := ih ((impl o).run h' t).1 (n - ((impl o).trace h' t).length)
        ((impl o).run h' t).2
      refine ⟨m + 1, hm.trans ?_⟩
      rw [I.answer, I.final]
      rfl

theorem exists_crash (I : Implements h h' view impl) (m : Nat) (p : Prog Op Ret α) (t : τ) :
    ∃ n, view ((p.translate impl).crash h' n t) = p.crash h m (view t) := by
  induction p generalizing m t with
  | done a => exact ⟨0, by cases m <;> rfl⟩
  | op o k ih =>
    cases m with
    | zero => exact ⟨0, rfl⟩
    | succ m =>
      obtain ⟨n, hn⟩ := ih ((impl o).run h' t).1 m ((impl o).run h' t).2
      refine ⟨((impl o).trace h' t).length + n, ?_⟩
      rw [Prog.translate, Prog.crash_bind_add, hn, I.answer, I.final]
      rfl

end Implements

/-! ### Prefixes -/

theorem forall_prefix_nil {P : List α → Prop} : (∀ d, d <+: [] → P d) ↔ P [] := by
  simp [List.prefix_nil]

theorem forall_prefix_cons {P : List α → Prop} {a : α} {as : List α} :
    (∀ d, d <+: a :: as → P d) ↔ P [] ∧ ∀ d, d <+: as → P (a :: d) := by
  constructor
  · intro H
    exact ⟨H [] List.nil_prefix, fun d hd => H _ (List.cons_prefix_cons.mpr ⟨rfl, hd⟩)⟩
  · rintro ⟨h0, hs⟩ d hd
    rcases List.prefix_cons_iff.mp hd with rfl | ⟨t, rfl, ht⟩
    · exact h0
    · exact hs t ht

theorem forall_prefix_append {P : List α → Prop} {as bs : List α} :
    (∀ d, d <+: as ++ bs → P d) ↔ (∀ d, d <+: as → P d) ∧ ∀ d, d <+: bs → P (as ++ d) := by
  induction as generalizing P with
  | nil =>
    rw [forall_prefix_nil]
    exact ⟨fun H => ⟨H [] List.nil_prefix, H⟩, fun H => H.2⟩
  | cons a as ih =>
    rw [List.cons_append, forall_prefix_cons, forall_prefix_cons, ih, and_assoc]
    rfl

theorem exec_filter {h : Handler Op Ret σ} {q : Op → Bool}
    (hq : ∀ o s, q o = false → (h o s).2 = s) (os : List Op) (s : σ) :
    exec h (os.filter q) s = exec h os s := by
  induction os generalizing s with
  | nil => rfl
  | cons o os ih =>
    cases ho : q o with
    | false => rw [List.filter_cons_of_neg (by simp [ho]), exec_cons, hq o s ho, ih]
    | true => rw [List.filter_cons_of_pos ho, exec_cons, exec_cons, ih]

end Atomic
