import Detour.Lib.Environment

/-! Programs that keep to a protocol: which operations a phase permits, and which phases an
operation with its answer can lead to.  Where several phases are possible the proof chooses. -/

namespace Atomic

variable {Op Op' : Type} {Ret : Op → Type} {Ret' : Op' → Type} {α β ε φ ψ : Type}

structure Protocol (φ Op : Type) (Ret : Op → Type) where
  permits : φ → Op → Prop
  leads : φ → (o : Op) → Ret o → φ → Prop

namespace Prog

variable {P : Protocol φ Op Ret} {Q S : φ → α → Prop} {x : φ}

/-- Whatever the operations answer, the program keeps to the protocol and ends as `Q` says. -/
def Follows (P : Protocol φ Op Ret) (Q : φ → α → Prop) : Prog Op Ret α → φ → Prop
  | .done a, x => Q x a
  | .op o k, x => P.permits x o ∧ ∀ r, ∃ y, P.leads x o r y ∧ (k r).Follows P Q y

theorem Follows.mono {p : Prog Op Ret α} (hp : p.Follows P Q x) (h : ∀ y a, Q y a → S y a) :
    p.Follows P S x := by
  induction p generalizing x with
  | done a => exact h x a hp
  | op o k ih =>
    refine ⟨hp.1, fun r => ?_⟩
    obtain ⟨y, hlead, hk⟩ := hp.2 r
    exact ⟨y, hlead, ih r hk⟩

theorem Follows.bind {p : Prog Op Ret α} {f : α → Prog Op Ret β} {S : φ → β → Prop}
    (hp : p.Follows P Q x) (hf : ∀ y a, Q y a → (f a).Follows P S y) :
    (p >>= f).Follows P S x := by
  change (p.bind f).Follows P S x
  induction p generalizing x with
  | done a => exact hf x a hp
  | op o k ih =>
    refine ⟨hp.1, fun r => ?_⟩
    obtain ⟨y, hlead, hk⟩ := hp.2 r
    exact ⟨y, hlead, ih r hk⟩

theorem follows_of_all {T : Op → Prop} (hT : ∀ o, T o → P.permits x o ∧ ∀ r, P.leads x o r x)
    {p : Prog Op Ret α} (hp : p.All T) : p.Follows P (fun y _ => y = x) x := by
  induction p with
  | done a => rfl
  | op o k ih => exact ⟨(hT o hp.1).1, fun r => ⟨x, (hT o hp.1).2 r, ih r (hp.2 r)⟩⟩

/-- A program that keeps to a protocol of its own operations keeps to a lower one when every
operation is carried out by a program that ends in the phase chosen for its answer. -/
theorem Follows.translate {P' : Protocol ψ Op' Ret'} {impl : (o : Op) → Prog Op' Ret' (Ret o)}
    {e : φ → ψ} {Q : ψ → α → Prop}
    (himpl : ∀ x o, P.permits x o → ∀ next : Ret o → φ, (∀ r, P.leads x o r (next r)) →
      (impl o).Follows P' (fun y r => y = e (next r)) (e x))
    {p : Prog Op Ret α} (hp : p.Follows P (fun y => Q (e y)) x) :
    (p.translate impl).Follows P' Q (e x) := by
  induction p generalizing x with
  | done a => exact hp
  | op o k ih =>
    obtain ⟨hpermit, hgo⟩ := hp
    choose next hlead hk using hgo
    apply (himpl x o hpermit next hlead).bind
    rintro y r rfl
    exact ih r (hk r)

theorem Follows.visits {σ : Type} {E : Env Op Ret σ} {p q : Prog Op Ret α} {s t : σ}
    (hp : p.Follows P Q x) (hv : Visits E p s q t) : ∃ y, q.Follows P Q y := by
  induction hv generalizing x with
  | refl => exact ⟨x, hp⟩
  | step _ _ ih =>
    obtain ⟨_, -, hk⟩ := hp.2 _
    exact ih hk

end Prog

namespace Fallible

variable {P : Protocol φ Op Ret} {x : φ}

theorem follows_bind {p : Fallible Op Ret ε α} {f : α → Fallible Op Ret ε β} {S : φ → α → Prop}
    {Q : φ → Except ε β → Prop}
    (hp : (ExceptT.run p).Follows P (fun y r => match r with
      | .ok a => S y a
      | .error e => Q y (.error e)) x)
    (hf : ∀ y a, S y a → (ExceptT.run (f a)).Follows P Q y) :
    (ExceptT.run (p >>= f)).Follows P Q x := by
  rw [ExceptT.run_bind]
  apply hp.bind
  intro y r hr
  cases r with
  | ok a => exact hf y a hr
  | error e => exact hr

theorem follows_sys_bind {o : Op} {f : Ret o → Fallible Op Ret ε α} {Q : φ → Except ε α → Prop}
    (ho : P.permits x o) (hf : ∀ r, ∃ y, P.leads x o r y ∧ (ExceptT.run (f r)).Follows P Q y) :
    (ExceptT.run (sys o >>= f)).Follows P Q x := ⟨ho, hf⟩

end Fallible

end Atomic
