import Detour.Core.Lookups
import Mathlib.Data.List.Sort
import Mathlib.SetTheory.Cardinal.Order

/-! Purging makes no difference to what lookups return. -/

namespace Detour.Core

open Detour.Rust ExpiringTable

variable {c d : Cache} {now t capacity : Nat}

/-! ### Two caches -/

/-- Two caches with the same entries that have not expired. -/
structure Alike (capacity now : Nat) (c d : Cache) : Prop where
  live : SameLive (Entry.remaining now) c.entries d.entries
  left : c.capacity = capacity ∧ size c.entries ≤ capacity
  right : d.capacity = capacity ∧ size d.entries ≤ capacity

theorem remaining_le (h : now ≤ t) (e : Entry) : e.remaining t ≤ e.remaining now := by
  unfold Entry.remaining
  omega

theorem remaining_pos {e : Entry} : 0 < e.remaining now ↔ now - e.storedAt < e.ttl := by
  unfold Entry.remaining
  omega

theorem Alike.later (h : Alike capacity now c d) (ht : now ≤ t) : Alike capacity t c d :=
  ⟨h.live.later (remaining_le ht), h.left, h.right⟩

theorem Alike.getAt (h : Alike capacity now c d) (k : Key) : c.getAt k now = d.getAt k now := by
  apply Option.ext
  intro m
  rw [getAt_eq_some, getAt_eq_some]
  apply exists_congr
  intro e
  constructor
  · rintro ⟨hl, hlt, hm⟩
    exact ⟨(h.live k e (remaining_pos.mpr hlt)).mp hl, hlt, hm⟩
  · rintro ⟨hl, hlt, hm⟩
    exact ⟨(h.live k e (remaining_pos.mpr hlt)).mpr hl, hlt, hm⟩

theorem Alike.clear (h : Alike capacity now c d) : Alike capacity now c.clear d.clear :=
  ⟨fun _ _ _ => Iff.rfl, ⟨h.left.1, Nat.zero_le _⟩, ⟨h.right.1, Nat.zero_le _⟩⟩

theorem Alike.purge (h : Alike capacity now c d) :
    Alike capacity now (c.purgeExpired now) d := by
  refine ⟨fun k e he => ?_, ⟨h.left.1, (size_retain_le _).trans h.left.2⟩, h.right⟩
  have hkept : SameLive (Entry.remaining now) c.entries (c.purgeExpired now).entries :=
    sameLive_retain fun e he => decide_eq_true (remaining_pos.mp he)
  exact (hkept k e he).symm.trans (h.live k e he)

/-! ### Runs -/

inductive CacheOp
  | insert (key : Key) (message : Message)
  | get (key : Key)
  | clear
  | purge
  deriving DecidableEq

def CacheOp.isPurge (o : CacheOp) : Bool := o = .purge

def CacheOp.result (now : Nat) (c : Cache) : CacheOp → List (Option Message)
  | .get key => [c.getAt key now]
  | _ => []

theorem Alike.result (h : Alike capacity now c d) (o : CacheOp) :
    o.result now c = o.result now d := by
  cases o with
  | get k => exact congrArg (fun r => [r]) (h.getAt k)
  | insert | clear | purge => rfl

section Iteration

/-! The table is iterated in a fixed order on entries. -/

variable [LinearOrder (Item Key Entry)]

def Cache.iter (c : Cache) : List (Item Key Entry) := c.entries.entries.mergeSort (· ≤ ·)

def CacheOp.apply (now : Nat) (c : Cache) : CacheOp → Cache
  | .insert key message => (c.insertAt c.iter key message now).2
  | .get _ => c
  | .clear => c.clear
  | .purge => c.purgeExpired now

def run (c : Cache) : List (Nat × CacheOp) → Cache
  | [] => c
  | (now, o) :: ops => run (o.apply now c) ops

def results (c : Cache) : List (Nat × CacheOp) → List (Option Message)
  | [] => []
  | (now, o) :: ops => o.result now c ++ results (o.apply now c) ops

theorem iter_perm (c : Cache) : c.iter.Perm c.entries.entries := List.mergeSort_perm _ _

theorem iter_congr (h : c.entries.entries.Perm d.entries.entries) : c.iter = d.iter :=
  List.Perm.eq_of_pairwise' (List.pairwise_mergeSort' (· ≤ ·) _)
    (List.pairwise_mergeSort' (· ≤ ·) _) ((iter_perm c).trans (h.trans (iter_perm d).symm))

theorem Alike.insert (h : Alike capacity now c d) (hpos : 0 < capacity) (k : Key) (m : Message) :
    Alike capacity now (c.insertAt c.iter k m now).2 (d.insertAt d.iter k m now).2 := by
  cases hl : cacheableTtl m with
  | none =>
    rw [insertAt_rejected hl, insertAt_rejected hl]
    exact h
  | some l =>
    rw [insertAt_accepted hl, insertAt_accepted hl, h.left.1, h.right.1]
    exact ⟨h.live.insertBounded (iter_perm c) (iter_perm d) iter_congr h.left.2 h.right.2 k _,
      ⟨rfl, size_insertBounded_le (iter_perm c) hpos h.left.2⟩,
      ⟨rfl, size_insertBounded_le (iter_perm d) hpos h.right.2⟩⟩

theorem Alike.apply (h : Alike capacity now c d) (hpos : 0 < capacity) {o : CacheOp}
    (ho : o ≠ .purge) : Alike capacity now (o.apply now c) (o.apply now d) := by
  cases o with
  | insert k m => exact h.insert hpos k m
  | get k => exact h
  | clear => exact h.clear
  | purge => exact absurd rfl ho

theorem Alike.run {ops : List (Nat × CacheOp)} (h : Alike capacity now c d) (hpos : 0 < capacity)
    (hnow : ∀ o ∈ ops, now ≤ o.1) (hops : ops.Pairwise fun a b => a.1 ≤ b.1) :
    results c ops = results d (ops.filter fun o => !o.2.isPurge) ∧
      ∀ t, now ≤ t → (∀ o ∈ ops, o.1 ≤ t) → Alike capacity t (Core.run c ops)
        (Core.run d (ops.filter fun o => !o.2.isPurge)) := by
  induction ops generalizing c d now with
  | nil => exact ⟨rfl, fun t ht _ => h.later ht⟩
  | cons x ops ih =>
    obtain ⟨time, o⟩ := x
    obtain ⟨hle, htail⟩ := List.pairwise_cons.mp hops
    have hhere := h.later (hnow _ List.mem_cons_self)
    by_cases ho : o = .purge
    · subst ho
      obtain ⟨hres, hrun⟩ := ih hhere.purge hle htail
      refine ⟨hres, fun t ht hall => ?_⟩
      exact hrun t (hall _ List.mem_cons_self) fun x hx => hall x (List.mem_cons_of_mem _ hx)
    · have hkeep : ((time, o) :: ops).filter (fun o => !o.2.isPurge) =
          (time, o) :: ops.filter (fun o => !o.2.isPurge) := by
        apply List.filter_cons_of_pos
        simp [CacheOp.isPurge, ho]
      obtain ⟨hres, hrun⟩ := ih (hhere.apply hpos ho) hle htail
      rw [hkeep, results, results, hres, hhere.result o]
      refine ⟨rfl, fun t ht hall => ?_⟩
      exact hrun t (hall _ List.mem_cons_self) fun x hx => hall x (List.mem_cons_of_mem _ hx)

/-- A run with purges returns the same for every lookup as the run without them, and the entries
that have not expired are the same at the end of both. -/
theorem purging_unobservable {ops : List (Nat × CacheOp)} (hpos : 0 < capacity)
    (hops : ops.Pairwise fun a b => a.1 ≤ b.1) :
    results (Cache.new capacity) ops =
        results (Cache.new capacity) (ops.filter fun o => !o.2.isPurge) ∧
      ∀ now, (∀ o ∈ ops, o.1 ≤ now) → ∀ k e, now - e.storedAt < e.ttl →
        ((run (Cache.new capacity) ops).entries.lookup k = some e ↔
          (run (Cache.new capacity) (ops.filter fun o => !o.2.isPurge)).entries.lookup k =
            some e) := by
  have hnew : Alike capacity 0 (Cache.new capacity) (Cache.new capacity) :=
    ⟨fun _ _ _ => Iff.rfl, ⟨rfl, Nat.zero_le _⟩, ⟨rfl, Nat.zero_le _⟩⟩
  obtain ⟨hres, hrun⟩ := hnew.run hpos (fun _ _ => Nat.zero_le _) hops
  refine ⟨hres, fun now hall k e hlt => ?_⟩
  exact (hrun now (Nat.zero_le now) hall).live k e (remaining_pos.mpr hlt)

end Iteration

open Classical in
noncomputable abbrev someOrder : LinearOrder (Item Key Entry) := linearOrderOfSTO WellOrderingRel

def plainOps : List (Nat × CacheOp) :=
  [(0, .insert (Key.new plainName 1) plainResponse), (3600 * SECOND, .purge),
    (3601 * SECOND, .get (Key.new plainName 1))]

theorem plainOps_purged : @results someOrder (Cache.new 1) plainOps =
      @results someOrder (Cache.new 1) (plainOps.filter fun o => !o.2.isPurge) ∧
    ∀ now, (∀ o ∈ plainOps, o.1 ≤ now) → ∀ k e, now - e.storedAt < e.ttl →
      ((@run someOrder (Cache.new 1) plainOps).entries.lookup k = some e ↔
        (@run someOrder (Cache.new 1)
          (plainOps.filter fun o => !o.2.isPurge)).entries.lookup k = some e) :=
  @purging_unobservable 1 someOrder plainOps (by decide) (by decide +kernel)

end Detour.Core
