import Detour.Lib.Program

/-! Programs whose operations can be answered in more than one way, and what holds in every
state that a run of one can visit. -/

namespace Atomic

variable {Op : Type} {Ret : Op → Type} {α β ε ι σ : Type}

/-- What an operation may answer in a state, and the state it may leave. -/
abbrev Env (Op : Type) (Ret : Op → Type) (σ : Type) := (o : Op) → σ → Ret o → σ → Prop

variable {E F : Env Op Ret σ}

namespace Prog

/-- What a run of a program can come to, at any point of it. -/
inductive Visits (E : Env Op Ret σ) : Prog Op Ret α → σ → Prog Op Ret α → σ → Prop
  | refl : Visits E p s p s
  | step : E o s r s' → Visits E (k r) s' q t → Visits E (.op o k) s q t

/-- Every state that a run visits satisfies `I`, and a run that ends does so as `Q` says. -/
def Keeps (E : Env Op Ret σ) (I : σ → Prop) (Q : α → σ → Prop) : Prog Op Ret α → σ → Prop
  | .done a, s => I s ∧ Q a s
  | .op o k, s => I s ∧ ∀ r s', E o s r s' → (k r).Keeps E I Q s'

theorem visits_after {h : Handler Op Ret σ} (hE : ∀ o s, E o s (h o s).1 (h o s).2) (n : Nat)
    (p : Prog Op Ret α) (s : σ) : Visits E p s (p.after h n s).1 (p.after h n s).2 := by
  induction n generalizing p s with
  | zero => exact .refl
  | succ n ih =>
    cases p with
    | done a => exact .refl
    | op o k => exact .step (hE o s) (ih _ _)

theorem visits_run {h : Handler Op Ret σ} (hE : ∀ o s, E o s (h o s).1 (h o s).2)
    (p : Prog Op Ret α) (s : σ) : Visits E p s (.done (p.run h s).1) (p.run h s).2 := by
  induction p generalizing s with
  | done a => exact .refl
  | op o k ih => exact .step (hE o s) (ih _ _)

theorem Visits.trans {p q r : Prog Op Ret α} {s t u : σ} (h : Visits E p s q t)
    (h' : Visits E q t r u) : Visits E p s r u := by
  induction h with
  | refl => exact h'
  | step he _ ih => exact .step he (ih h')

theorem Visits.mono {E' : Env Op Ret σ} {p q : Prog Op Ret α} {s t : σ} (h : Visits E p s q t)
    (himp : ∀ o s r t, E o s r t → E' o s r t) : Visits E' p s q t := by
  induction h with
  | refl => exact .refl
  | step he _ ih => exact .step (himp _ _ _ _ he) ih

theorem Visits.within {p q : Prog Op Ret α} (f : α → Prog Op Ret β) {s t : σ}
    (h : Visits E p s q t) : Visits E (p >>= f) s (q >>= f) t := by
  change Visits E (p.bind f) s (q.bind f) t
  induction h with
  | refl => exact .refl
  | step he _ ih => exact .step he ih

theorem Visits.bind {p : Prog Op Ret α} {f : α → Prog Op Ret β} {a : α} {q : Prog Op Ret β}
    {s t u : σ} (h : Visits E p s (.done a) t) (hf : Visits E (f a) t q u) :
    Visits E (p >>= f) s q u := (h.within f).trans hf

/-- An operation of a sequence is one of its first part, or comes after a whole run of it. -/
theorem visits_bind_iff {p : Prog Op Ret α} {f : α → Prog Op Ret β} {o : Op} {s t : σ} :
    (∃ k, Visits E (p >>= f) s (.op o k) t) ↔ (∃ k, Visits E p s (.op o k) t) ∨
      ∃ a u, Visits E p s (.done a) u ∧ ∃ k, Visits E (f a) u (.op o k) t := by
  constructor
  · rintro ⟨k, h⟩
    change Visits E (p.bind f) s (.op o k) t at h
    induction p generalizing s with
    | done a => exact .inr ⟨a, s, .refl, k, h⟩
    | op o' k' ih =>
      cases h with
      | refl => exact .inl ⟨k', .refl⟩
      | step he hv =>
        rcases ih _ hv with ⟨k'', h⟩ | ⟨a, u, h, hf⟩
        · exact .inl ⟨k'', .step he h⟩
        · exact .inr ⟨a, u, .step he h, hf⟩
  · rintro (⟨k, h⟩ | ⟨a, u, h, k, hf⟩)
    · generalize hq : Prog.op o k = q at h
      induction h with
      | refl =>
        subst hq
        exact ⟨_, .refl⟩
      | step he _ ih =>
        obtain ⟨k', h⟩ := ih hq
        exact ⟨k', .step he h⟩
    · exact ⟨k, h.bind hf⟩

theorem Visits.all {P : Op → Prop} {p : Prog Op Ret α} {o : Op} {k : Ret o → Prog Op Ret α}
    {s t : σ} (h : Visits E p s (.op o k) t) (hp : p.All P) : P o := by
  generalize hq : Prog.op o k = q at h
  induction h with
  | refl =>
    subst hq
    exact hp.1
  | step _ _ ih => exact ih (hp.2 _) hq

theorem Visits.translate {Op' : Type} {Ret' : Op' → Type} {E' : Env Op' Ret' σ}
    {impl : (o : Op) → Prog Op' Ret' (Ret o)}
    (himpl : ∀ o s r t, E o s r t → Visits E' (impl o) s (.done r) t) {p q : Prog Op Ret α}
    {s t : σ} (h : Visits E p s q t) : Visits E' (p.translate impl) s (q.translate impl) t := by
  induction h with
  | refl => exact .refl
  | step he _ ih => exact (himpl _ _ _ _ he).bind ih

variable {I J : σ → Prop} {Q S : α → σ → Prop} {p : Prog Op Ret α} {s : σ}

theorem Keeps.here (h : p.Keeps E I Q s) : I s := by
  cases p with
  | done a => exact h.1
  | op o k => exact h.1

theorem keeps_iff : p.Keeps E I Q s ↔
    ∀ q t, Visits E p s q t → I t ∧ ∀ a, q = .done a → Q a t := by
  constructor
  · intro h q t hv
    induction hv with
    | refl =>
      refine ⟨h.here, ?_⟩
      rintro a rfl
      exact h.2
    | step he _ ih => exact ih (h.2 _ _ he)
  · intro h
    induction p generalizing s with
    | done a =>
      obtain ⟨hi, hq⟩ := h _ _ .refl
      exact ⟨hi, hq a rfl⟩
    | op o k ih =>
      refine ⟨(h _ _ .refl).1, fun r s' he => ih r ?_⟩
      intro q t hv
      exact h q t (.step he hv)

theorem Keeps.mono (h : p.Keeps E I Q s) (hI : ∀ t, I t → J t) (hQ : ∀ a t, Q a t → S a t) :
    p.Keeps E J S s := by
  induction p generalizing s with
  | done a => exact ⟨hI s h.1, hQ a s h.2⟩
  | op o k ih => exact ⟨hI s h.1, fun r s' he => ih r (h.2 r s' he)⟩

theorem Keeps.and_here (h : p.Keeps E I Q s) : p.Keeps E I (fun a t => I t ∧ Q a t) s := by
  induction p generalizing s with
  | done a => exact ⟨h.1, h⟩
  | op o k ih => exact ⟨h.1, fun r s' he => ih r (h.2 r s' he)⟩

theorem Keeps.and (h : p.Keeps E I Q s) (h' : p.Keeps E J S s) :
    p.Keeps E (fun t => I t ∧ J t) (fun a t => Q a t ∧ S a t) s := by
  induction p generalizing s with
  | done a => exact ⟨⟨h.1, h'.1⟩, h.2, h'.2⟩
  | op o k ih => exact ⟨⟨h.1, h'.1⟩, fun r s' he => ih r (h.2 r s' he) (h'.2 r s' he)⟩

theorem Keeps.restrict (h : p.Keeps E I Q s) (hF : ∀ o s r s', F o s r s' → E o s r s') :
    p.Keeps F I Q s := by
  induction p generalizing s with
  | done a => exact h
  | op o k ih => exact ⟨h.1, fun r s' he => ih r (h.2 r s' (hF o s r s' he))⟩

theorem keeps_pure {a : α} (hI : I s) (hQ : Q a s) : (pure a : Prog Op Ret α).Keeps E I Q s :=
  ⟨hI, hQ⟩

theorem keeps_perform {o : Op} (hI : I s) (ho : ∀ r t, E o s r t → I t) :
    (perform o : Prog Op Ret _).Keeps E I (E o s) s :=
  ⟨hI, fun r t he => ⟨ho r t he, he⟩⟩

theorem Keeps.bind {f : α → Prog Op Ret β} {S : β → σ → Prop} (h : p.Keeps E I Q s)
    (hf : ∀ a t, I t → Q a t → (f a).Keeps E I S t) : (p >>= f).Keeps E I S s := by
  change (p.bind f).Keeps E I S s
  induction p generalizing s with
  | done a => exact hf a s h.1 h.2
  | op o k ih => exact ⟨h.1, fun r s' he => ih r (h.2 r s' he)⟩

/-- What holds of a program holds when its operations are carried out by programs that answer as
they may. -/
theorem Keeps.translate {Op' : Type} {Ret' : Op' → Type} {E' : Env Op' Ret' σ}
    {impl : (o : Op) → Prog Op' Ret' (Ret o)}
    (himpl : ∀ o s, I s → (impl o).Keeps E' I (E o s) s) (h : p.Keeps E I Q s) :
    (p.translate impl).Keeps E' I Q s := by
  induction p generalizing s with
  | done a => exact h
  | op o k ih =>
    apply (himpl o s h.1).bind
    intro r t _ he
    exact ih r (h.2 r t he)

theorem keeps_of_all {P : Op → Prop} (hp : p.All P)
    (hstep : ∀ o s r s', P o → I s → E o s r s' → I s') (hi : I s) :
    p.Keeps E I (fun _ => I) s := by
  induction p generalizing s with
  | done a => exact ⟨hi, hi⟩
  | op o k ih => exact ⟨hi, fun r s' he => ih r (hp.2 r) (hstep o s r s' hp.1 hi he)⟩

theorem keeps_true (p : Prog Op Ret α) (s : σ) : p.Keeps E (fun _ => True) (fun _ _ => True) s := by
  induction p generalizing s with
  | done a => exact ⟨trivial, trivial⟩
  | op o k ih => exact ⟨trivial, fun r t _ => ih r t⟩

theorem Keeps.run {h : Handler Op Ret σ} (hp : p.Keeps (fun o s r t => h o s = (r, t)) I Q s) :
    Q (p.run h s).1 (p.run h s).2 :=
  (keeps_iff.mp hp _ _ (visits_run (fun _ _ => rfl) p s)).2 _ rfl

def forEach (f : ι → Prog Op Ret Unit) : List ι → Prog Op Ret Unit
  | [] => pure ()
  | x :: xs => f x >>= fun _ => forEach f xs

theorem all_forEach {P : Op → Prop} {f : ι → Prog Op Ret Unit} (hf : ∀ x, (f x).All P)
    (xs : List ι) : (forEach f xs).All P := by
  induction xs with
  | nil => trivial
  | cons x xs ih => exact all_bind (hf x) fun _ => ih

end Prog

namespace Fallible

variable {I : σ → Prop} {s : σ}

def Goes (S : α → σ → Prop) (Q : Except ε β → σ → Prop) : Except ε α → σ → Prop
  | .ok a, t => S a t
  | .error e, t => Q (.error e) t

theorem keeps_bind {p : Fallible Op Ret ε α} {f : α → Fallible Op Ret ε β} {S : α → σ → Prop}
    {Q : Except ε β → σ → Prop} (h : (ExceptT.run p).Keeps E I (Goes S Q) s)
    (hf : ∀ a t, I t → S a t → (ExceptT.run (f a)).Keeps E I Q t) :
    (ExceptT.run (p >>= f)).Keeps E I Q s := by
  rw [ExceptT.run_bind]
  apply h.bind
  intro r t hi hr
  cases r with
  | ok a => exact hf a t hi hr
  | error e => exact ⟨hi, hr⟩

theorem visits_lift {p : Prog Op Ret α} {a : α} {t : σ} (h : Prog.Visits E p s (.done a) t) :
    Prog.Visits E (ExceptT.run (ExceptT.lift p : Fallible Op Ret ε α)) s (.done (.ok a)) t := by
  rw [ExceptT.run_lift, map_eq_pure_bind]
  exact h.bind .refl

theorem visits_bind_iff {p : Fallible Op Ret ε α} {f : α → Fallible Op Ret ε β} {o : Op} {t : σ} :
    (∃ k, Prog.Visits E (ExceptT.run (p >>= f)) s (.op o k) t) ↔
      (∃ k, Prog.Visits E (ExceptT.run p) s (.op o k) t) ∨
      ∃ a u, Prog.Visits E (ExceptT.run p) s (.done (.ok a)) u ∧
        ∃ k, Prog.Visits E (ExceptT.run (f a)) u (.op o k) t := by
  rw [ExceptT.run_bind, Prog.visits_bind_iff]
  refine or_congr_right ⟨?_, fun ⟨a, u, h, hf⟩ => ⟨.ok a, u, h, hf⟩⟩
  rintro ⟨r, u, h, k, hf⟩
  cases r with
  | ok a => exact ⟨a, u, h, k, hf⟩
  | error e => cases hf

theorem keeps_sys_bind {o : Op} {f : Ret o → Fallible Op Ret ε α} {Q : Except ε α → σ → Prop}
    (hi : I s) (hf : ∀ r t, E o s r t → (ExceptT.run (f r)).Keeps E I Q t) :
    (ExceptT.run (sys o >>= f)).Keeps E I Q s := ⟨hi, hf⟩

theorem keeps_last {p : Fallible Op Ret ε α} {f : α → Fallible Op Ret ε β}
    {Q : Except ε β → σ → Prop} (hQ : ∀ e t, Q (.error e) t)
    (hf : ∀ a t, (ExceptT.run (f a)).Keeps E (fun _ => True) Q t) :
    (ExceptT.run (p >>= f)).Keeps E (fun _ => True) Q s := by
  refine keeps_bind (S := fun _ _ => True) ?_ fun a t _ _ => hf a t
  refine (Prog.keeps_true (ExceptT.run p) s).mono (fun _ _ => trivial) fun r t _ => ?_
  cases r with
  | ok a => trivial
  | error e => exact hQ e t

theorem keeps_lift {p : Prog Op Ret α} {S : α → σ → Prop} {Q : Except ε β → σ → Prop}
    (h : p.Keeps E I S s) :
    (ExceptT.run (ExceptT.lift p : Fallible Op Ret ε α)).Keeps E I (Goes S Q) s := by
  rw [ExceptT.run_lift, map_eq_pure_bind]
  apply h.bind
  intro a t hi hs
  exact Prog.keeps_pure hi hs

def tryForEach (f : ι → Fallible Op Ret ε Unit) : List ι → Fallible Op Ret ε Unit
  | [] => pure ()
  | x :: xs => f x >>= fun _ => tryForEach f xs

theorem all_tryForEach {P : Op → Prop} {f : ι → Fallible Op Ret ε Unit}
    (hf : ∀ x, (ExceptT.run (f x)).All P) (xs : List ι) :
    (ExceptT.run (tryForEach f xs)).All P := by
  induction xs with
  | nil => trivial
  | cons x xs ih => exact all_bind (hf x) fun _ => ih

theorem tryForEach_singleton (f : ι → Fallible Op Ret ε Unit) (x : ι) :
    tryForEach f [x] = f x := by
  rw [tryForEach, tryForEach, bind_pure_unit]

theorem tryForEach_append (f : ι → Fallible Op Ret ε Unit) (xs ys : List ι) :
    tryForEach f (xs ++ ys) = tryForEach f xs >>= fun _ => tryForEach f ys := by
  induction xs with
  | nil => rw [List.nil_append, tryForEach, pure_bind]
  | cons x xs ih => simp only [List.cons_append, tryForEach, ih, bind_assoc]

theorem keeps_tryForEach {f : ι → Fallible Op Ret ε Unit} {J : List ι → σ → Prop}
    {Q : Except ε Unit → σ → Prop} {xs : List ι}
    (hend : ∀ t, J [] t → I t ∧ Q (.ok ()) t)
    (hstep : ∀ x xs t, J (x :: xs) t →
      (ExceptT.run (f x)).Keeps E I (Goes (fun _ => J xs) Q) t)
    (hs : J xs s) : (ExceptT.run (tryForEach f xs)).Keeps E I Q s := by
  induction xs generalizing s with
  | nil => exact hend s hs
  | cons x xs ih =>
    apply keeps_bind (hstep x xs s hs)
    intro _ t _ ht
    exact ih ht

end Fallible

end Atomic
