import Detour.Lib.RelyGuarantee

/-! What programs do as long as their operations are answered as expected. -/

namespace Atomic

variable {ι Op Op' : Type} {Ret : Op → Type} {Ret' : Op' → Type} {α β ε σ : Type}

namespace Prog

/-- As long as every answer is as `A` says, every operation is as `P` and the outcome as `Q`. -/
def Meets (A : (o : Op) → Ret o → Prop) (P : Op → Prop) (Q : α → Prop) : Prog Op Ret α → Prop
  | .done a => Q a
  | .op o k => P o ∧ ∀ r, A o r → (k r).Meets A P Q

variable {A : (o : Op) → Ret o → Prop} {P : Op → Prop} {Q S : α → Prop} {p : Prog Op Ret α}

theorem Meets.mono (h : p.Meets A P Q) (hQ : ∀ a, Q a → S a) : p.Meets A P S := by
  induction p with
  | done a => exact hQ a h
  | op o k ih => exact ⟨h.1, fun r hr => ih r (h.2 r hr)⟩

theorem Meets.imp {A' : (o : Op) → Ret o → Prop} {P' : Op → Prop} (h : p.Meets A P Q)
    (hA : ∀ o r, A' o r → A o r) (hP : ∀ o, P o → P' o) : p.Meets A' P' Q := by
  induction p with
  | done a => exact h
  | op o k ih => exact ⟨hP o h.1, fun r hr => ih r (h.2 r (hA o r hr))⟩

theorem meets_of_all (h : p.All P) : p.Meets A P fun _ => True := by
  induction p with
  | done a => trivial
  | op o k ih => exact ⟨h.1, fun r _ => ih r (h.2 r)⟩

theorem meets_bind {f : α → Prog Op Ret β} {S : β → Prop} (h : p.Meets A P Q)
    (hf : ∀ a, Q a → (f a).Meets A P S) : (p >>= f).Meets A P S := by
  change (p.bind f).Meets A P S
  induction p with
  | done a => exact hf a h
  | op o k ih => exact ⟨h.1, fun r hr => ih r (h.2 r hr)⟩

/-- Operations that are carried out by programs, each of which answers as expected. -/
theorem Meets.translate {A' : (o : Op') → Ret' o → Prop} {P' : Op' → Prop}
    {impl : (o : Op) → Prog Op' Ret' (Ret o)} (h : p.Meets A P Q)
    (himpl : ∀ o, P o → (impl o).Meets A' P' (A o)) : (p.translate impl).Meets A' P' Q := by
  induction p with
  | done a => exact h
  | op o k ih => exact meets_bind (himpl o h.1) fun r hr => ih r (h.2 r hr)

theorem Meets.visits {E : Env Op Ret σ} (hE : ∀ o s r t, E o s r t → A o r) {q : Prog Op Ret α}
    {s t : σ} (h : p.Meets A P Q) (hv : Visits E p s q t) : q.Meets A P Q := by
  induction hv with
  | refl => exact h
  | step he _ ih => exact ih (h.2 _ (hE _ _ _ _ he))

end Prog

namespace Fallible

variable {A : (o : Op) → Ret o → Prop} {P : Op → Prop}

def Unless (Q : α → Prop) : Except ε α → Prop
  | .ok a => Q a
  | .error _ => True

theorem meets_bind {p : Fallible Op Ret ε α} {f : α → Fallible Op Ret ε β} {S : α → Prop}
    {Q : Except ε β → Prop} (hQ : ∀ e, Q (.error e)) (h : (ExceptT.run p).Meets A P (Unless S))
    (hf : ∀ a, S a → (ExceptT.run (f a)).Meets A P Q) : (ExceptT.run (p >>= f)).Meets A P Q := by
  rw [ExceptT.run_bind]
  apply Prog.meets_bind h
  intro r hr
  cases r with
  | ok a => exact hf a hr
  | error e => exact hQ e

theorem meets_last {p : Fallible Op Ret ε α} {f : α → Fallible Op Ret ε β}
    {Q : Except ε β → Prop} (hQ : ∀ e, Q (.error e)) (h : (ExceptT.run p).All P)
    (hf : ∀ a, (ExceptT.run (f a)).Meets A P Q) : (ExceptT.run (p >>= f)).Meets A P Q := by
  apply meets_bind (S := fun _ => True) hQ _ fun a _ => hf a
  apply (Prog.meets_of_all h).mono
  intro r _
  cases r <;> trivial

theorem meets_lift {p : Prog Op Ret α} {S : α → Prop} (h : p.Meets A P S) :
    (ExceptT.run (ExceptT.lift p : Fallible Op Ret ε α)).Meets A P (Unless S) := by
  rw [ExceptT.run_lift, map_eq_pure_bind]
  exact Prog.meets_bind h fun _ ha => ha

end Fallible

/-- Programs beside each other, each answered as it expects as long as `I` holds. -/
theorem Pool.Runs.meets [DecidableEq ι] {E : ι → Env Op Ret σ} {B : σ → σ → Prop} {I : σ → Prop}
    {A : ι → (o : Op) → Ret o → Prop} {P : ι → Op → Prop} {Q : ι → α → Prop}
    {p q : Pool ι Op Ret α σ}
    (hE : ∀ i o s r t, E i o s r t → I s → P i o → A i o r ∧ I t)
    (hB : ∀ s t, B s t → I s → I t) (hr : Pool.Runs E B p q) (hI : I p.state)
    (hp : ∀ i, (p.prog i).Meets (A i) (P i) (Q i)) :
    I q.state ∧ ∀ i, (q.prog i).Meets (A i) (P i) (Q i) := by
  induction hr with
  | refl => exact ⟨hI, hp⟩
  | tail _ hm ih =>
    obtain ⟨hI, hp⟩ := ih
    cases hm with
    | background hb => exact ⟨hB _ _ hb hI, hp⟩
    | takes j ht =>
      cases ht with
      | mk r hop he =>
        have hj := hp j
        rw [hop] at hj
        obtain ⟨ha, hI'⟩ := hE j _ _ r _ he hI hj.1
        refine ⟨hI', fun i => ?_⟩
        by_cases hij : i = j
        · subst hij
          rw [Pool.act_prog_self]
          exact hj.2 r ha
        · rw [Pool.act_prog_ne hij]
          exact hp i

end Atomic
