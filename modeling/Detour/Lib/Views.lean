import Detour.Lib.RelyGuarantee

/-! Programs that act on a part of a larger state. -/

namespace Atomic.Prog

variable {Op Op' : Type} {Ret : Op → Type} {Ret' : Op' → Type} {α β σ τ : Type}

section

variable {E : Env Op Ret σ} {R G : σ → σ → Prop} {Q : α → σ → Prop} {view : τ → σ}
  {E' : Env Op Ret τ} {R' G' : τ → τ → Prop} {I : τ → Prop}

/-- What is assured of the part holds in the whole, beside what the operations leave alone. -/
theorem Assures.of_view (hR : ∀ t t', R' t t' → R (view t) (view t'))
    (hRI : ∀ t t', I t → R' t t' → I t')
    (hE : ∀ o t r t', E' o t r t' → E o (view t) r (view t'))
    (hG : ∀ o t r t', E' o t r t' → I t → G (view t) (view t') → G' t t' ∧ I t')
    {p : Prog Op Ret α} {t : τ} (h : p.Assures E R G Q (view t)) (hI : I t) :
    p.Assures E' R' G' (fun a t => Q a (view t) ∧ I t) t := by
  induction p generalizing t with
  | done a => exact fun t' ht => ⟨h _ (hR _ _ ht), hRI _ _ hI ht⟩
  | op o k ih =>
    intro t' ht r u he
    obtain ⟨hg, hk⟩ := h _ (hR _ _ ht) r _ (hE _ _ _ _ he)
    obtain ⟨hg', hu⟩ := hG _ _ _ _ he (hRI _ _ hI ht) hg
    exact ⟨hg', ih r hk hu⟩

end

/-! ### Operations that are left out -/

variable {impl : (o : Op) → Prog Op' Ret' (Ret o)}

theorem translate_bind (p : Prog Op Ret α) (f : α → Prog Op Ret β) :
    (p >>= f).translate impl = p.translate impl >>= fun a => (f a).translate impl := by
  change (p.bind f).translate impl = _
  induction p with
  | done a => rfl
  | op o k ih =>
    change impl o >>= _ = (impl o >>= _) >>= _
    rw [bind_assoc]
    exact congrArg _ (funext ih)

theorem translate_perform (o : Op) : (perform o : Prog Op Ret _).translate impl = impl o :=
  bind_pure (impl o)

theorem translate_translate {Op'' : Type} {Ret'' : Op'' → Type}
    {impl' : (o : Op') → Prog Op'' Ret'' (Ret' o)} (p : Prog Op Ret α) :
    (p.translate impl).translate impl' = p.translate fun o => (impl o).translate impl' := by
  induction p with
  | done a => rfl
  | op o k ih =>
    change ((impl o) >>= _).translate impl' = _
    rw [translate_bind]
    exact congrArg _ (funext ih)

end Atomic.Prog
