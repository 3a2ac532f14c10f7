import Detour.Lib.Environment
import Detour.Lib.Interleave
import Mathlib.Order.Defs.Unbundled
import Mathlib.Logic.Relation

/-! Programs beside each other on one shared state: what each of them can rely on between its
operations, and what its own operations guarantee to the others. -/

namespace Atomic

variable {ι Op Op' : Type} {Ret : Op → Type} {Ret' : Op' → Type} {α β ε σ : Type}

namespace Prog

/-- Beside changes of the state that keep to `R`, every operation of a program keeps to `G`, and
where the program ends, `Q` holds from then on. -/
def Assures (E : Env Op Ret σ) (R G : σ → σ → Prop) (Q : α → σ → Prop) :
    Prog Op Ret α → σ → Prop
  | .done a, s => ∀ s', R s s' → Q a s'
  | .op o k, s => ∀ s', R s s' → ∀ r t, E o s' r t → G s' t ∧ (k r).Assures E R G Q t

variable {E : Env Op Ret σ} {R G : σ → σ → Prop} {Q S : α → σ → Prop} {p : Prog Op Ret α}
  {s t : σ}

theorem Assures.mono (h : p.Assures E R G Q s) (hQ : ∀ a t, Q a t → S a t) :
    p.Assures E R G S s := by
  induction p generalizing s with
  | done a => exact fun s' hs => hQ a s' (h s' hs)
  | op o k ih =>
    intro s' hs r t he
    obtain ⟨hg, hk⟩ := h s' hs r t he
    exact ⟨hg, ih r hk⟩

theorem assures_of_all {P : Op → Prop} {I : σ → Prop} (hp : p.All P) (hI : I s)
    (hR : ∀ t t', I t → R t t' → I t')
    (hE : ∀ o t r t', P o → I t → E o t r t' → G t t' ∧ I t') :
    p.Assures E R G (fun _ => I) s := by
  induction p generalizing s with
  | done a => exact fun s' hs => hR s s' hI hs
  | op o k ih =>
    intro s' hs r t he
    obtain ⟨hg, ht⟩ := hE o s' r t hp.1 (hR s s' hI hs) he
    exact ⟨hg, ih r (hp.2 r) ht⟩

variable [IsPreorder σ R]

theorem Assures.rely (h : p.Assures E R G Q s) (hR : R s t) : p.Assures E R G Q t := by
  cases p with
  | done a => exact fun s' hs => h s' (IsTrans.trans s t s' hR hs)
  | op o k => exact fun s' hs => h s' (IsTrans.trans s t s' hR hs)

theorem Assures.done {a : α} (h : (Prog.done a : Prog Op Ret α).Assures E R G Q s) : Q a s :=
  h s (Std.Refl.refl s)

theorem Assures.op {o : Op} {k : Ret o → Prog Op Ret α} {r : Ret o}
    (h : (Prog.op o k).Assures E R G Q s) (he : E o s r t) :
    G s t ∧ (k r).Assures E R G Q t := h s (Std.Refl.refl s) r t he

theorem assures_bind {f : α → Prog Op Ret β} {S : β → σ → Prop} (h : p.Assures E R G Q s)
    (hf : ∀ a t, Q a t → (f a).Assures E R G S t) : (p >>= f).Assures E R G S s := by
  change (p.bind f).Assures E R G S s
  induction p generalizing s with
  | done a => exact hf a s h.done
  | op o k ih =>
    intro s' hs r t he
    obtain ⟨hg, hk⟩ := h s' hs r t he
    exact ⟨hg, ih r hk⟩

/-- A program keeps to the same when its operations are carried out by programs that do. -/
theorem Assures.translate {E' : Env Op' Ret' σ} {impl : (o : Op) → Prog Op' Ret' (Ret o)}
    (h : p.Assures E R G Q s)
    (himpl : ∀ o s, (∀ s', R s s' → ∀ r t, E o s' r t → G s' t) →
      (impl o).Assures E' R G (fun r t => ∃ s' t', R s s' ∧ E o s' r t' ∧ R t' t) s) :
    (p.translate impl).Assures E' R G Q s := by
  induction p generalizing s with
  | done a => exact h
  | op o k ih =>
    apply assures_bind (himpl o s fun s' hs r t he => (h s' hs r t he).1)
    intro r t ht
    obtain ⟨s', t', hs, he, hR⟩ := ht
    exact ih r ((h s' hs r t' he).2.rely hR)

end Prog

namespace Fallible

variable {E : Env Op Ret σ} {R G : σ → σ → Prop} {s : σ}

theorem assures_sys_bind {o : Op} {f : Ret o → Fallible Op Ret ε α}
    {Q : Except ε α → σ → Prop}
    (h : ∀ s', R s s' → ∀ r t, E o s' r t → G s' t ∧ (ExceptT.run (f r)).Assures E R G Q t) :
    (ExceptT.run (sys o >>= f)).Assures E R G Q s := h

variable [IsPreorder σ R]

theorem assures_bind {p : Fallible Op Ret ε α} {f : α → Fallible Op Ret ε β}
    {S : α → σ → Prop} {Q : Except ε β → σ → Prop}
    (h : (ExceptT.run p).Assures E R G (Goes S Q) s)
    (hf : ∀ a t, S a t → (ExceptT.run (f a)).Assures E R G Q t)
    (hQ : ∀ e t t', Q (.error e) t → R t t' → Q (.error e) t') :
    (ExceptT.run (p >>= f)).Assures E R G Q s := by
  rw [ExceptT.run_bind]
  apply Prog.assures_bind h
  intro r t hr
  cases r with
  | ok a => exact hf a t hr
  | error e => exact fun t' ht => hQ e t t' hr ht

theorem assures_lift {p : Prog Op Ret α} {S : α → σ → Prop} {Q : Except ε β → σ → Prop}
    (h : p.Assures E R G S s) (hS : ∀ a t t', S a t → R t t' → S a t') :
    (ExceptT.run (ExceptT.lift p : Fallible Op Ret ε α)).Assures E R G (Goes S Q) s := by
  rw [ExceptT.run_lift, map_eq_pure_bind]
  apply Prog.assures_bind h
  exact fun a t ha t' ht => hS a t t' ha ht

end Fallible

/-! ### Runs of several programs -/

namespace Pool

variable [DecidableEq ι] {E : ι → Env Op Ret σ} {B : σ → σ → Prop}

def act (p : Pool ι Op Ret α σ) (i : ι) (o : Op) (rest : Prog Op Ret α) (t : σ) :
    Pool ι Op Ret α σ where
  prog := Function.update p.prog i rest
  taken := Function.update p.taken i (p.taken i ++ [o])
  state := t

theorem act_prog_self {p : Pool ι Op Ret α σ} {i : ι} {o : Op} {x : Prog Op Ret α} {t : σ} :
    (p.act i o x t).prog i = x := by
  change Function.update p.prog i x i = x
  rw [Function.update_self]

theorem act_prog_ne {p : Pool ι Op Ret α σ} {i j : ι} {o : Op} {x : Prog Op Ret α} {t : σ}
    (h : j ≠ i) : (p.act i o x t).prog j = p.prog j := by
  change Function.update p.prog i x j = p.prog j
  rw [Function.update_of_ne h]

inductive Takes (E : ι → Env Op Ret σ) (i : ι) :
    Pool ι Op Ret α σ → Pool ι Op Ret α σ → Prop
  | mk {p : Pool ι Op Ret α σ} {o : Op} {k : Ret o → Prog Op Ret α} {t : σ} (r : Ret o) :
    p.prog i = .op o k → E i o p.state r t → Takes E i p (p.act i o (k r) t)

inductive Moves (E : ι → Env Op Ret σ) (B : σ → σ → Prop) :
    Pool ι Op Ret α σ → Pool ι Op Ret α σ → Prop
  | takes {p q : Pool ι Op Ret α σ} (i : ι) : Takes E i p q → Moves E B p q
  | background {p : Pool ι Op Ret α σ} {t : σ} :
    B p.state t → Moves E B p { p with state := t }

abbrev Runs (E : ι → Env Op Ret σ) (B : σ → σ → Prop) :
    Pool ι Op Ret α σ → Pool ι Op Ret α σ → Prop := Relation.ReflTransGen (Moves E B)

variable {R G : ι → σ → σ → Prop} {Q : ι → α → σ → Prop} {p q : Pool ι Op Ret α σ}

theorem Runs.mono {E' : ι → Env Op Ret σ} (h : Runs E B p q)
    (hE : ∀ i o s r t, E i o s r t → E' i o s r t) : Runs E' B p q := by
  induction h with
  | refl => exact .refl
  | tail _ hm ih =>
    apply ih.tail
    cases hm with
    | background hb => exact .background hb
    | takes i ht =>
      cases ht with
      | mk r hp he => exact .takes i (.mk r hp (hE _ _ _ _ _ he))

/-- A program may be left alone for a while. -/
theorem exists_runs {i : ι} {x : Prog Op Ret α} {t : σ}
    (h : Prog.Visits (E i) (p.prog i) p.state x t) :
    ∃ q, Runs E B p q ∧ q.prog i = x ∧ q.state = t ∧ ∀ j, j ≠ i → q.prog j = p.prog j := by
  generalize hx : p.prog i = y, hs : p.state = s at h
  induction h generalizing p with
  | refl => exact ⟨p, .refl, hx, hs, fun _ _ => rfl⟩
  | @step o s r s' k x t he _ ih =>
    subst hs
    obtain ⟨q, hq, hdone, hstate, hother⟩ := ih (p := p.act i o (k r) s') act_prog_self rfl
    exact ⟨q, .head (.takes i (.mk r hx he)) hq, hdone, hstate,
      fun j hj => (hother j hj).trans (act_prog_ne hj)⟩

/-- While one program waits, another may go on. -/
theorem exists_runs_around {i j : ι} (hij : j ≠ i) {x y z : Prog Op Ret α} {s t u : σ}
    (hbegin : Prog.Visits (E i) (p.prog i) p.state x s)
    (hbeside : Prog.Visits (E j) (p.prog j) s y t) (hend : Prog.Visits (E i) x t z u) :
    ∃ q, Runs E B p q ∧ q.prog i = z ∧ q.prog j = y ∧ q.state = u := by
  obtain ⟨p₁, hr₁, rfl, rfl, hother₁⟩ := exists_runs (B := B) hbegin
  rw [← hother₁ j hij] at hbeside
  obtain ⟨p₂, hr₂, rfl, rfl, hother₂⟩ := exists_runs (B := B) hbeside
  rw [← hother₂ i hij.symm] at hend
  obtain ⟨p₃, hr₃, hz, hu, hother₃⟩ := exists_runs (B := B) hend
  exact ⟨p₃, (hr₁.trans hr₂).trans hr₃, hz, hother₃ j hij, hu⟩

/-- A program may go on, and then the state change by itself for a while. -/
theorem exists_runs_background {i : ι} {x : Prog Op Ret α} {s t : σ}
    (h : Prog.Visits (E i) (p.prog i) p.state x s) (hb : Relation.ReflTransGen B s t) :
    ∃ q, Runs E B p q ∧ q.prog i = x ∧ q.state = t ∧ ∀ j, j ≠ i → q.prog j = p.prog j := by
  induction hb with
  | refl => exact exists_runs h
  | @tail t u _ hb ih =>
    obtain ⟨q, hq, hx, rfl, hother⟩ := ih
    exact ⟨{ q with state := u }, hq.tail (.background hb), hx, rfl, hother⟩

/-- After each operation of a program the state may change by itself. -/
theorem exists_runs_beside {i : ι} {x : Prog Op Ret α} {t : σ}
    (h : Prog.Visits (fun o s r u => ∃ s', E i o s r s' ∧ Relation.ReflTransGen B s' u)
      (p.prog i) p.state x t) :
    ∃ q, Runs E B p q ∧ q.prog i = x ∧ q.state = t := by
  generalize hx : p.prog i = y, hs : p.state = s at h
  induction h generalizing p with
  | refl => exact ⟨p, .refl, hx, hs⟩
  | @step o s r u k x t he _ ih =>
    subst hs
    obtain ⟨s', he, hb⟩ := he
    have hact : Prog.Visits (E i) (p.prog i) p.state (k r) s' := by
      rw [hx]
      exact .step he .refl
    obtain ⟨q, hq, hrest, hstate, -⟩ := exists_runs_background hact hb
    obtain ⟨q', hq', hdone, hstate'⟩ := ih hrest hstate
    exact ⟨q', hq.trans hq', hdone, hstate'⟩

theorem exists_takes {i : ι} {a : α} {t : σ}
    (h : Prog.Visits (E i) (p.prog i) p.state (.done a) t) (hnext : (p.prog i).next ≠ none) :
    ∃ p' q, Takes E i p p' ∧ Runs E B p' q ∧ q.prog i = .done a ∧ q.state = t ∧
      ∀ j, j ≠ i → q.prog j = p.prog j := by
  generalize hx : p.prog i = y, hs : p.state = s at h
  cases h with
  | refl =>
    rw [hx] at hnext
    exact absurd rfl hnext
  | @step o _ r s' k _ _ he hv =>
    subst hs
    have hv' : Prog.Visits (E i) ((p.act i o (k r) s').prog i) s' (.done a) t := by
      rw [act_prog_self]
      exact hv
    obtain ⟨q, hq, hdone, hstate, hother⟩ := exists_runs (B := B) (p := p.act i o (k r) s') hv'
    exact ⟨_, q, .mk r hx he, hq, hdone, hstate, fun j hj => (hother j hj).trans (act_prog_ne hj)⟩

def Assured (E : ι → Env Op Ret σ) (R G : ι → σ → σ → Prop) (Q : ι → α → σ → Prop)
    (p : Pool ι Op Ret α σ) : Prop :=
  ∀ i, (p.prog i).Assures (E i) (R i) (G i) (Q i) p.state

theorem Runs.invariant {I : σ → Prop} (hE : ∀ i o s r t, E i o s r t → I s → I t)
    (hB : ∀ s t, B s t → I s → I t) (hr : Runs E B p q) (hp : I p.state) : I q.state := by
  induction hr with
  | refl => exact hp
  | tail _ hm ih =>
    cases hm with
    | takes i ht =>
      cases ht with
      | mk r _ he => exact hE i _ _ r _ he ih
    | background hb => exact hB _ _ hb ih

variable [∀ i, IsPreorder σ (R i)]

theorem Assured.moves (h : p.Assured E R G Q) (hB : ∀ i s t, B s t → R i s t)
    (hG : ∀ i j s t, i ≠ j → G j s t → R i s t) (hm : Moves E B p q) : q.Assured E R G Q := by
  intro i
  cases hm with
  | background hb => exact (h i).rely (hB i _ _ hb)
  | takes j ht =>
    cases ht with
    | mk r hp he =>
      have hj := h j
      rw [hp] at hj
      obtain ⟨hg, hk⟩ := hj.op he
      by_cases hij : i = j
      · subst hij
        rw [act_prog_self]
        exact hk
      · rw [act_prog_ne hij]
        exact (h i).rely (hG i j _ _ hij hg)

/-- Programs that guarantee to each other what they rely on are sure of it in every run. -/
theorem Assured.runs (h : p.Assured E R G Q) (hB : ∀ i s t, B s t → R i s t)
    (hG : ∀ i j s t, i ≠ j → G j s t → R i s t) (hr : Runs E B p q) : q.Assured E R G Q := by
  induction hr with
  | refl => exact h
  | tail _ hm ih => exact ih.moves hB hG hm

theorem Assured.invariant {I : σ → Prop} (h : p.Assured E R G Q)
    (hB : ∀ i s t, B s t → R i s t) (hG : ∀ i j s t, i ≠ j → G j s t → R i s t)
    (hGI : ∀ i s t, G i s t → I s → I t) (hBI : ∀ s t, B s t → I s → I t)
    (hr : Runs E B p q) (hp : I p.state) : I q.state := by
  induction hr with
  | refl => exact hp
  | @tail b _ hpre hm ih =>
    cases hm with
    | background hb => exact hBI _ _ hb ih
    | takes i ht =>
      cases ht with
      | mk r hop he =>
        have hi := h.runs hB hG hpre i
        rw [hop] at hi
        exact hGI i _ _ (hi.op he).1 ih

/-- A program that has not gone on can rely on all that has happened. -/
theorem Assured.untaken (h : p.Assured E R G Q) (hB : ∀ i s t, B s t → R i s t)
    (hG : ∀ i j s t, i ≠ j → G j s t → R i s t) (hr : Runs E B p q) (i : ι) :
    p.taken i <+: q.taken i ∧ (q.taken i = p.taken i → R i p.state q.state) := by
  induction hr with
  | refl => exact ⟨List.prefix_rfl, fun _ => Std.Refl.refl _⟩
  | @tail b _ hpre hm ih =>
    obtain ⟨htook, hrely⟩ := ih
    cases hm with
    | background hb => exact ⟨htook, fun ht => IsTrans.trans _ _ _ (hrely ht) (hB i _ _ hb)⟩
    | takes j ht =>
      cases ht with
      | @mk o k t r hop he =>
        by_cases hij : i = j
        · subst hij
          have htaken : (b.act i o (k r) t).taken i = b.taken i ++ [o] := Function.update_self ..
          rw [htaken]
          refine ⟨htook.trans (List.prefix_append _ _), fun heq => ?_⟩
          have hlen := htook.length_le
          rw [← heq, List.length_append, List.length_singleton] at hlen
          omega
        · have htaken : (b.act j o (k r) t).taken i = b.taken i := Function.update_of_ne hij ..
          rw [htaken]
          have hj := h.runs hB hG hpre j
          rw [hop] at hj
          exact ⟨htook, fun heq =>
            IsTrans.trans _ _ _ (hrely heq) (hG i j _ _ hij (hj.op he).1)⟩

omit [∀ i, IsPreorder σ (R i)] in
theorem Assured.update {i : ι} {S : α → σ → Prop} (h : p.Assured E R G Q)
    (hi : (p.prog i).Assures (E i) (R i) (G i) S p.state) :
    p.Assured E R G (Function.update Q i S) := by
  intro j
  by_cases hj : j = i
  · subst hj
    rw [Function.update_self]
    exact hi
  · rw [Function.update_of_ne hj]
    exact h j

omit [DecidableEq ι] in
theorem Assured.done (h : p.Assured E R G Q) {i : ι} {a : α} (hp : p.prog i = .done a) :
    Q i a p.state := by
  have hi := h i
  rw [hp] at hi
  exact hi.done

end Pool

end Atomic
