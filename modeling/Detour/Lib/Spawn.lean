import Detour.Lib.RelyGuarantee
import Mathlib.Data.List.Nodup

/-! A server that gives every request a task of its own, beside the others on one shared state. -/

namespace Atomic

variable {Req Op Resp σ : Type} {Ret : Op → Type}

/-- The requests so far, what is left of the task of each, and what has been sent. A task is told by
the position of its request. -/
structure Server (Req Op : Type) (Ret : Op → Type) (Resp σ : Type) where
  received : List Req
  tasks : Nat → Option (Prog Op Ret Resp)
  state : σ
  sent : List (Nat × Resp)

namespace Server

def start (s : σ) : Server Req Op Ret Resp σ := ⟨[], fun _ => none, s, []⟩

def put (x : Server Req Op Ret Resp σ) (i : Nat) (p : Option (Prog Op Ret Resp)) :
    Server Req Op Ret Resp σ := { x with tasks := Function.update x.tasks i p }

def receive (serve : Req → Prog Op Ret Resp) (x : Server Req Op Ret Resp σ) (req : Req) :
    Server Req Op Ret Resp σ :=
  { x.put x.received.length (some (serve req)) with received := x.received ++ [req] }

def send (x : Server Req Op Ret Resp σ) (i : Nat) (a : Resp) : Server Req Op Ret Resp σ :=
  { x.put i none with sent := x.sent ++ [(i, a)] }

/-- A request comes in, a task takes its next operation, or it has come to its end and its response
is sent or lost. `B` is what happens beside the tasks. -/
inductive Step (serve : Req → Prog Op Ret Resp) (E : Nat → Env Op Ret σ) (B : σ → σ → Prop) :
    Server Req Op Ret Resp σ → Server Req Op Ret Resp σ → Prop
  | receive {x : Server Req Op Ret Resp σ} (req : Req) : Step serve E B x (x.receive serve req)
  | takes {x : Server Req Op Ret Resp σ} {i : Nat} {o : Op} {k : Ret o → Prog Op Ret Resp} {t : σ}
    (r : Ret o) : x.tasks i = some (.op o k) → E i o x.state r t →
    Step serve E B x { x.put i (some (k r)) with state := t }
  | send {x : Server Req Op Ret Resp σ} {i : Nat} {a : Resp} : x.tasks i = some (.done a) →
    Step serve E B x (x.send i a)
  | lose {x : Server Req Op Ret Resp σ} {i : Nat} {a : Resp} : x.tasks i = some (.done a) →
    Step serve E B x (x.put i none)
  | background {x : Server Req Op Ret Resp σ} {t : σ} : B x.state t →
    Step serve E B x { x with state := t }

abbrev Runs (serve : Req → Prog Op Ret Resp) (E : Nat → Env Op Ret σ) (B : σ → σ → Prop) :
    Server Req Op Ret Resp σ → Server Req Op Ret Resp σ → Prop :=
  Relation.ReflTransGen (Step serve E B)

/-! ### What every task is sure of -/

/-- Every task is assured of its outcome, and so is every request that may still come. No response
is sent twice. -/
structure Assured (serve : Req → Prog Op Ret Resp) (E : Nat → Env Op Ret σ)
    (R G : Nat → σ → σ → Prop) (Q : Nat → Req → Resp → σ → Prop)
    (x : Server Req Op Ret Resp σ) : Prop where
  coming : ∀ i req, x.received.length ≤ i →
    (serve req).Assures (E i) (R i) (G i) (Q i req) x.state
  running : ∀ i p, x.tasks i = some p → ∃ req, x.received[i]? = some req ∧
    p.Assures (E i) (R i) (G i) (Q i req) x.state
  sent : ∀ i a, (i, a) ∈ x.sent → x.tasks i = none ∧ ∃ req, x.received[i]? = some req ∧
    (Prog.done a : Prog Op Ret Resp).Assures (E i) (R i) (G i) (Q i req) x.state
  once : (x.sent.map Prod.fst).Nodup

variable {serve : Req → Prog Op Ret Resp} {E : Nat → Env Op Ret σ} {B : σ → σ → Prop}
  {R G : Nat → σ → σ → Prop} {Q : Nat → Req → Resp → σ → Prop} {x y : Server Req Op Ret Resp σ}
  {i : Nat} {a : Resp}

theorem assured_start {s : σ} (h : ∀ i req, (serve req).Assures (E i) (R i) (G i) (Q i req) s) :
    (start s : Server Req Op Ret Resp σ).Assured serve E R G Q where
  coming i req _ := h i req
  running _ _ hp := nomatch hp
  sent _ _ ha := absurd ha List.not_mem_nil
  once := List.nodup_nil

theorem Assured.receive (h : x.Assured serve E R G Q) (req : Req) :
    (x.receive serve req).Assured serve E R G Q := by
  have hlater {i : Nat} {req' : Req} (hreq : x.received[i]? = some req') :
      (x.received ++ [req])[i]? = some req' ∧ i ≠ x.received.length := by
    have hlt := (List.getElem?_eq_some_iff.mp hreq).1
    exact ⟨(List.getElem?_append_left hlt).trans hreq, Nat.ne_of_lt hlt⟩
  constructor
  · intro i req' hi
    apply h.coming
    change (x.received ++ [req]).length ≤ i at hi
    rw [List.length_append] at hi
    omega
  · intro i p hp
    change Function.update x.tasks x.received.length (some (serve req)) i = some p at hp
    by_cases hi : i = x.received.length
    · subst hi
      rw [Function.update_self] at hp
      cases hp
      exact ⟨req, List.getElem?_concat_length, h.coming _ req (Nat.le_refl _)⟩
    · rw [Function.update_of_ne hi] at hp
      obtain ⟨req', hreq, hp⟩ := h.running i p hp
      exact ⟨req', (hlater hreq).1, hp⟩
  · intro i a ha
    obtain ⟨hnone, req', hreq, hq⟩ := h.sent i a ha
    refine ⟨?_, req', (hlater hreq).1, hq⟩
    change Function.update x.tasks x.received.length (some (serve req)) i = none
    rw [Function.update_of_ne (hlater hreq).2, hnone]
  · exact h.once

theorem Assured.lose (h : x.Assured serve E R G Q) (i : Nat) :
    (x.put i none).Assured serve E R G Q where
  coming := h.coming
  running j p hp := by
    change Function.update x.tasks i none j = some p at hp
    by_cases hj : j = i
    · subst hj
      rw [Function.update_self] at hp
      cases hp
    · rw [Function.update_of_ne hj] at hp
      exact h.running j p hp
  sent j a ha := by
    obtain ⟨hnone, hreq⟩ := h.sent j a ha
    refine ⟨?_, hreq⟩
    change Function.update x.tasks i none j = none
    by_cases hj : j = i
    · rw [hj, Function.update_self]
    · rw [Function.update_of_ne hj, hnone]
  once := h.once

theorem Assured.send (h : x.Assured serve E R G Q) (ha : x.tasks i = some (.done a)) :
    (x.send i a).Assured serve E R G Q where
  coming := h.coming
  running := (h.lose i).running
  sent j b hb := by
    rcases List.mem_append.mp hb with hb | hb
    · exact (h.lose i).sent j b hb
    · cases List.mem_singleton.mp hb
      obtain ⟨req, hreq, hq⟩ := h.running i _ ha
      exact ⟨Function.update_self .., req, hreq, hq⟩
  once := by
    change ((x.sent ++ [(i, a)]).map Prod.fst).Nodup
    rw [List.map_append, List.nodup_append]
    refine ⟨h.once, List.nodup_singleton i, ?_⟩
    intro j hj k hk
    obtain rfl : k = i := List.mem_singleton.mp hk
    rintro rfl
    obtain ⟨⟨j, b⟩, hb, rfl⟩ := List.mem_map.mp hj
    rw [(h.sent _ b hb).1] at ha
    cases ha

section

variable [∀ i, IsPreorder σ (R i)]

theorem Assured.background {t : σ} (h : x.Assured serve E R G Q) (hR : ∀ i, R i x.state t) :
    ({ x with state := t } : Server Req Op Ret Resp σ).Assured serve E R G Q where
  coming i req hi := (h.coming i req hi).rely (hR i)
  running i p hp := by
    obtain ⟨req, hreq, hq⟩ := h.running i p hp
    exact ⟨req, hreq, hq.rely (hR i)⟩
  sent i a ha := by
    obtain ⟨hnone, req, hreq, hq⟩ := h.sent i a ha
    exact ⟨hnone, req, hreq, hq.rely (hR i)⟩
  once := h.once

theorem Assured.takes {o : Op} {k : Ret o → Prog Op Ret Resp} {t : σ} {r : Ret o}
    (h : x.Assured serve E R G Q) (hp : x.tasks i = some (.op o k)) (he : E i o x.state r t)
    (hG : ∀ i j s t, i ≠ j → G j s t → R i s t) :
    ({ x.put i (some (k r)) with state := t } : Server Req Op Ret Resp σ).Assured
      serve E R G Q := by
  obtain ⟨req, hreq, hq⟩ := h.running i _ hp
  obtain ⟨hg, hk⟩ := hq.op he
  have hlt := (List.getElem?_eq_some_iff.mp hreq).1
  constructor
  · intro j req' hj
    have hij : j ≠ i := fun hij => absurd (hij ▸ hj) (Nat.not_le.mpr hlt)
    exact (h.coming j req' hj).rely (hG j i _ _ hij hg)
  · intro j p hj
    change Function.update x.tasks i (some (k r)) j = some p at hj
    by_cases hij : j = i
    · subst hij
      rw [Function.update_self] at hj
      cases hj
      exact ⟨req, hreq, hk⟩
    · rw [Function.update_of_ne hij] at hj
      obtain ⟨req', hreq', hp'⟩ := h.running j p hj
      exact ⟨req', hreq', hp'.rely (hG j i _ _ hij hg)⟩
  · intro j b hb
    obtain ⟨hnone, req', hreq', hq'⟩ := h.sent j b hb
    have hij : j ≠ i := by
      rintro rfl
      rw [hp] at hnone
      cases hnone
    refine ⟨?_, req', hreq', hq'.rely (hG j i _ _ hij hg)⟩
    change Function.update x.tasks i (some (k r)) j = none
    rw [Function.update_of_ne hij, hnone]
  · exact h.once

theorem Assured.step (h : x.Assured serve E R G Q) (hB : ∀ i s t, B s t → R i s t)
    (hG : ∀ i j s t, i ≠ j → G j s t → R i s t) (hs : Step serve E B x y) :
    y.Assured serve E R G Q := by
  cases hs with
  | receive req => exact h.receive req
  | takes r hp he => exact h.takes hp he hG
  | send ha => exact h.send ha
  | lose _ => exact h.lose _
  | background hb => exact h.background fun i => hB i _ _ hb

/-- Tasks that guarantee to each other what they rely on are sure of it in every run. -/
theorem Assured.runs (h : x.Assured serve E R G Q) (hB : ∀ i s t, B s t → R i s t)
    (hG : ∀ i j s t, i ≠ j → G j s t → R i s t) (hr : Runs serve E B x y) :
    y.Assured serve E R G Q := by
  induction hr with
  | refl => exact h
  | tail _ hs ih => exact ih.step hB hG hs

theorem Assured.invariant {I : σ → Prop} (h : x.Assured serve E R G Q)
    (hB : ∀ i s t, B s t → R i s t) (hG : ∀ i j s t, i ≠ j → G j s t → R i s t)
    (hGI : ∀ i s t, G i s t → I s → I t) (hBI : ∀ s t, B s t → I s → I t)
    (hr : Runs serve E B x y) (hx : I x.state) : I y.state := by
  induction hr with
  | refl => exact hx
  | @tail z _ hpre hs ih =>
    have hz := h.runs hB hG hpre
    cases hs with
    | receive req => exact ih
    | send _ => exact ih
    | lose _ => exact ih
    | background hb => exact hBI _ _ hb ih
    | takes r hp he =>
      obtain ⟨req, -, hq⟩ := hz.running _ _ hp
      exact hGI _ _ _ (hq.op he).1 ih

omit [∀ i, IsPreorder σ (R i)] in
/-- Of the tasks that are still to come, other things may be told at any time. -/
theorem Assured.since {S : Nat → Req → Resp → σ → Prop} (h : x.Assured serve E R G Q)
    (hcoming : ∀ i req, x.received.length ≤ i →
      (serve req).Assures (E i) (R i) (G i) (S i req) x.state) :
    x.Assured serve E R G fun i req a s => x.received.length ≤ i → S i req a s where
  coming i req hi := (hcoming i req hi).mono fun _ _ h _ => h
  running i p hp := by
    obtain ⟨req, hreq, hq⟩ := h.running i p hp
    have hlt := (List.getElem?_eq_some_iff.mp hreq).1
    exact ⟨req, hreq, hq.mono fun _ _ _ hi => absurd hi (Nat.not_le.mpr hlt)⟩
  sent i a ha := by
    obtain ⟨hnone, req, hreq, hq⟩ := h.sent i a ha
    have hlt := (List.getElem?_eq_some_iff.mp hreq).1
    exact ⟨hnone, req, hreq, hq.mono fun _ _ _ hi => absurd hi (Nat.not_le.mpr hlt)⟩
  once := h.once

theorem Assured.response (h : x.Assured serve E R G Q) (ha : (i, a) ∈ x.sent) :
    ∃ req, x.received[i]? = some req ∧ Q i req a x.state := by
  obtain ⟨-, req, hreq, hq⟩ := h.sent i a ha
  exact ⟨req, hreq, hq.done⟩

end

/-! ### Only tasks act -/

structure Owned (M : Nat → σ → Prop) (x : Server Req Op Ret Resp σ) : Prop where
  tasks : ∀ i p, x.tasks i = some p → i < x.received.length
  marked : ∀ i, M i x.state → i < x.received.length

variable {M : Nat → σ → Prop}

theorem owned_start {s : σ} (h : ∀ i, ¬M i s) : (start s : Server Req Op Ret Resp σ).Owned M where
  tasks _ _ hp := nomatch hp
  marked i hi := absurd hi (h i)

theorem Owned.put {p : Option (Prog Op Ret Resp)} (h : x.Owned M) (hi : i < x.received.length) :
    (x.put i p).Owned M where
  tasks j q hj := by
    change Function.update x.tasks i p j = some q at hj
    by_cases hij : j = i
    · rwa [hij]
    · rw [Function.update_of_ne hij] at hj
      exact h.tasks j q hj
  marked := h.marked

theorem Owned.receive (h : x.Owned M) (req : Req) : (x.receive serve req).Owned M := by
  have hlater {j : Nat} (hj : j < x.received.length) : j < (x.received ++ [req]).length := by
    rw [List.length_append]
    omega
  constructor
  · intro j q hj
    change Function.update x.tasks x.received.length (some (serve req)) j = some q at hj
    change j < (x.received ++ [req]).length
    by_cases hij : j = x.received.length
    · rw [hij, List.length_append]
      exact Nat.lt_succ_self _
    · rw [Function.update_of_ne hij] at hj
      exact hlater (h.tasks j q hj)
  · exact fun j hj => hlater (h.marked j hj)

theorem Owned.runs (h : x.Owned M) (hB : ∀ j s t, B s t → M j t → M j s)
    (hE : ∀ i o s r t j, E i o s r t → M j t → M j s ∨ j = i) (hr : Runs serve E B x y) :
    y.Owned M := by
  induction hr with
  | refl => exact h
  | @tail z _ _ hs ih =>
    cases hs with
    | receive req => exact ih.receive req
    | @send i _ ha =>
      have hput := ih.put (p := none) (ih.tasks i _ ha)
      exact ⟨hput.tasks, hput.marked⟩
    | lose ha => exact ih.put (ih.tasks _ _ ha)
    | background hb => exact ⟨ih.tasks, fun j hj => ih.marked j (hB j _ _ hb hj)⟩
    | @takes i _ k _ r hp he =>
      have hput := ih.put (p := some (k r)) (ih.tasks i _ hp)
      refine ⟨hput.tasks, fun j hj => ?_⟩
      rcases hE _ _ _ _ _ j he hj with hj | rfl
      · exact ih.marked j hj
      · exact ih.tasks _ _ hp

/-! ### A task alone -/

variable (serve B) in
theorem exists_runs {p q : Prog Op Ret Resp} {t : σ} (hp : x.tasks i = some p)
    (h : Prog.Visits (E i) p x.state q t) :
    ∃ y, Runs serve E B x y ∧ y.tasks i = some q ∧ y.state = t ∧ y.received = x.received ∧
      y.sent = x.sent ∧ ∀ j, j ≠ i → y.tasks j = x.tasks j := by
  generalize hs : x.state = s at h
  induction h generalizing x with
  | refl => exact ⟨x, .refl, hp, hs, rfl, rfl, fun _ _ => rfl⟩
  | @step o s r s' k q t he _ ih =>
    subst hs
    have htask : ({ x.put i (some (k r)) with state := s' } : Server Req Op Ret Resp σ).tasks i =
        some (k r) := Function.update_self ..
    obtain ⟨y, hy, hq, ht, hreceived, hsent, hother⟩ := ih htask rfl
    refine ⟨y, .head (.takes r hp he) hy, hq, ht, hreceived, hsent, fun j hj => ?_⟩
    rw [hother j hj]
    exact Function.update_of_ne hj ..

variable (serve B) in
theorem exists_sent {p : Prog Op Ret Resp} {t : σ} (hp : x.tasks i = some p)
    (h : Prog.Visits (E i) p x.state (.done a) t) :
    ∃ y, Runs serve E B x y ∧ y.sent = x.sent ++ [(i, a)] ∧ y.state = t ∧
      y.received = x.received ∧ ∀ j, j ≠ i → y.tasks j = x.tasks j := by
  obtain ⟨y, hy, hdone, ht, hreceived, hsent, hother⟩ := exists_runs serve B hp h
  refine ⟨y.send i a, hy.tail (.send hdone), congrArg (· ++ [(i, a)]) hsent, ht, hreceived,
    fun j hj => ?_⟩
  rw [← hother j hj]
  exact Function.update_of_ne hj ..

variable (serve B) in
/-- While one task waits, another may come to its end. -/
theorem exists_sent_around {j : Nat} (hij : j ≠ i) {p q r : Prog Op Ret Resp} {s t u : σ}
    {b : Resp} (hp : x.tasks i = some p) (hr : x.tasks j = some r)
    (hbegin : Prog.Visits (E i) p x.state q s) (hbeside : Prog.Visits (E j) r s (.done a) t)
    (hend : Prog.Visits (E i) q t (.done b) u) :
    ∃ y, Runs serve E B x y ∧ y.sent = x.sent ++ [(j, a), (i, b)] ∧ y.state = u ∧
      y.received = x.received ∧ ∀ k, k ≠ i → k ≠ j → y.tasks k = x.tasks k := by
  obtain ⟨y₁, hy₁, hq, rfl, hreceived₁, hsent₁, hother₁⟩ := exists_runs serve B hp hbegin
  obtain ⟨y₂, hy₂, hsent₂, rfl, hreceived₂, hother₂⟩ :=
    exists_sent serve B ((hother₁ j hij).trans hr) hbeside
  obtain ⟨y, hy₃, hsent₃, hu, hreceived₃, hother₃⟩ :=
    exists_sent serve B ((hother₂ i hij.symm).trans hq) hend
  refine ⟨y, (hy₁.trans hy₂).trans hy₃, ?_, hu,
    hreceived₃.trans (hreceived₂.trans hreceived₁), fun k hi hj => ?_⟩
  · rw [hsent₃, hsent₂, hsent₁, List.append_assoc]
    rfl
  · rw [hother₃ k hi, hother₂ k hj, hother₁ k hi]

end Server

end Atomic
