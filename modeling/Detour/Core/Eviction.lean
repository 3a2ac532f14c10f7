import Detour.Core.Lookups

/-! The cache never outgrows its capacity, and what it drops to make room is closest to expiry. -/

namespace Detour.Core

open Detour.Rust ExpiringTable

variable {c c' : Cache} {k v : Key} {e : Entry} {t now capacity : Nat} {m : Message}
  {h : List Event} {items : List (Item Key Entry)} {l : Nat}

/-! ### The bound -/

theorem insertAt_capacity (c : Cache) (items : List (Item Key Entry)) (k : Key) (m : Message)
    (t : Nat) : (c.insertAt items k m t).2.capacity = c.capacity := by
  cases hl : cacheableTtl m with
  | none => rw [insertAt_rejected hl]
  | some l => rw [insertAt_accepted hl]

theorem size_insertAt_le (hitems : items.Perm c.entries.entries) (hpos : 0 < c.capacity)
    (hsize : size c.entries ≤ c.capacity) (k : Key) (m : Message) (t : Nat) :
    size (c.insertAt items k m t).2.entries ≤ c.capacity := by
  cases hl : cacheableTtl m with
  | none =>
    rw [insertAt_rejected hl]
    exact hsize
  | some l =>
    rw [insertAt_accepted hl]
    exact size_insertBounded_le hitems hpos hsize

theorem Run.capacity_eq (hr : Run capacity h c now) : c.capacity = capacity := by
  induction hr with
  | new now => rfl
  | insert name type message time _ _ _ ih => exact (insertAt_capacity ..).trans ih
  | get name type time _ _ ih => exact ih
  | purge time _ _ ih => exact ih
  | clear _ ih => exact ih

theorem Run.size_le (hr : Run capacity h c now) (hpos : 0 < capacity) :
    size c.entries ≤ capacity := by
  induction hr with
  | new now => exact Nat.zero_le _
  | insert name type message time hr _ hitems ih =>
    obtain rfl := hr.capacity_eq
    exact size_insertAt_le hitems hpos ih _ message time
  | get name type time _ _ ih => exact ih
  | purge time _ _ ih => exact (size_retain_le _).trans ih
  | clear _ ih => exact Nat.zero_le _

/-! ### The victim -/

structure Evictable (c : Cache) (t : Nat) (v : Key) (e : Entry) : Prop where
  full : size c.entries = c.capacity
  held : c.entries.lookup v = some e
  least : ∀ k e', c.entries.lookup k = some e' → e.remaining t ≤ e'.remaining t
  expiredFirst : t - e.storedAt < e.ttl → ∀ k e', c.entries.lookup k = some e' →
    t - e'.storedAt < e'.ttl

inductive Admits (c : Cache) (k : Key) (e : Entry) (c' : Cache) : Prop
  | keeping : c'.entries.lookup k = some e →
    (∀ k', k' ≠ k → c'.entries.lookup k' = c.entries.lookup k') → Admits c k e c'
  | dropping (v : Key) (old : Entry) : k ∉ c.entries → Evictable c e.storedAt v old →
    c'.entries.lookup k = some e → c'.entries.lookup v = none →
    (∀ k', k' ≠ k → k' ≠ v → c'.entries.lookup k' = c.entries.lookup k') → Admits c k e c'

/-- What an insertion into a cache comes to. -/
inductive Inserts (c : Cache) (k : Key) (m : Message) (t : Nat) : Option Nat × Cache → Prop
  | rejected : Inserts c k m t (none, c)
  | accepted (ttl : Nat) (c' : Cache) : c'.capacity = c.capacity → size c'.entries ≤ c.capacity →
    Admits c k ⟨m, t, ttl⟩ c' → Inserts c k m t (some ttl, c')

theorem expiredFirst_of_least (hleast : ∀ k e', c.entries.lookup k = some e' →
    e.remaining t ≤ e'.remaining t) (hlive : t - e.storedAt < e.ttl) (k : Key) (e' : Entry)
    (hl : c.entries.lookup k = some e') : t - e'.storedAt < e'.ttl := by
  have hle := hleast k e' hl
  unfold Entry.remaining at hle
  omega

theorem insertBounded_admits (hitems : items.Perm c.entries.entries)
    (hsize : size c.entries ≤ c.capacity) : Admits c k ⟨m, t, l⟩
      ⟨insertBounded (Entry.remaining t) items c.capacity k ⟨m, t, l⟩ c.entries, c.capacity⟩ := by
  have hself : (insertBounded (Entry.remaining t) items c.capacity k ⟨m, t, l⟩ c.entries).lookup k =
      some ⟨m, t, l⟩ := by
    rw [lookup_insertBounded, if_pos rfl]
  cases hv : victim (Entry.remaining t) items c.capacity k c.entries with
  | none =>
    refine .keeping hself fun k' hne => ?_
    dsimp only
    rw [lookup_insertBounded, if_neg hne.symm, hv, if_neg nofun]
  | some v =>
    obtain ⟨hfull, hnew, e, hheld, hleast⟩ := victim_eq_some hitems hv
    have hne : k ≠ v := by
      rintro rfl
      exact victim_ne_self hitems hv
    refine .dropping v e hnew ⟨hsize.antisymm hfull, hheld, hleast, ?_⟩ hself ?_ ?_
    · exact expiredFirst_of_least hleast
    · dsimp only
      rw [lookup_insertBounded, if_neg hne, hv, if_pos rfl]
    · intro k' hk hv'
      dsimp only
      have hne' : some v ≠ some k' := fun heq => hv' (Option.some.inj heq).symm
      rw [lookup_insertBounded, if_neg hk.symm, hv, if_neg hne']

/-- After any history the cache holds no more than its capacity, and an insertion drops an entry
only when there is no room, and then the one closest to expiry. -/
theorem capacity_and_victim (hpos : 1 ≤ capacity) (hr : Run capacity h c now) :
    size c.entries ≤ capacity ∧ ∀ items k m t, items.Perm c.entries.entries →
      Inserts c k m t (c.insertAt items k m t) := by
  have hsize := hr.size_le hpos
  refine ⟨hsize, fun items k m t hitems => ?_⟩
  rw [← hr.capacity_eq] at hsize hpos
  cases hl : cacheableTtl m with
  | none =>
    rw [insertAt_rejected hl]
    exact .rejected
  | some l =>
    rw [insertAt_accepted hl]
    exact .accepted l _ rfl (size_insertBounded_le hitems hpos hsize)
      (insertBounded_admits hitems hsize)

theorem plain_replaced : size plainCache.entries ≤ 1 ∧
    Inserts plainCache (Key.new plainName 28) plainResponse SECOND (plainCache.insertAt
      plainCache.entries.entries (Key.new plainName 28) plainResponse SECOND) :=
  ⟨(capacity_and_victim (by decide) plain_run).1,
    (capacity_and_victim (by decide) plain_run).2 _ _ _ _ (.refl _)⟩

end Detour.Core
