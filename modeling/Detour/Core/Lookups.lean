import Detour.Core.Cache
import Mathlib.Algebra.Group.Nat.Defs

/-! What a lookup in the cache returns, by what was done to the cache before. -/

namespace Detour.Core

open Detour.Rust ExpiringTable

/-! ### Lifetimes and TTLs -/

inductive Lifetime (m : Message) : Nat → Prop
  | nxDomain : m.responseCode = .nxDomain → Lifetime m (30 * SECOND)
  | empty : m.responseCode = .noError → m.answers = [] → Lifetime m (30 * SECOND)
  | answers (r : Record) : m.responseCode = .noError → r ∈ m.answers →
    (∀ r' ∈ m.answers, r.ttl ≤ r'.ttl) →
    Lifetime m (max (5 * SECOND) (min (3600 * SECOND) (r.ttl.toNat * SECOND)))

/-- The TTL is lowered by some seconds, and nothing else is changed. -/
def Record.Lowered (secs : Nat) (r r' : Record) : Prop :=
  r' = { r with ttl := r'.ttl } ∧ r'.ttl.toNat = r.ttl.toNat - secs

def Message.Lowered (secs : Nat) (m m' : Message) : Prop :=
  List.Forall₂ (Record.Lowered secs) m.answers m'.answers ∧
    List.Forall₂ (Record.Lowered secs) m.nameServers m'.nameServers ∧
      m' = { m with answers := m'.answers, nameServers := m'.nameServers }

variable {m m' : Message} {r r' : Record} {secs l : Nat}

theorem clamp_eq (n : Nat) :
    clamp n MIN_TTL MAX_TTL = max (5 * SECOND) (min (3600 * SECOND) n) := by
  unfold clamp MIN_TTL MAX_TTL SECOND
  split_ifs <;> omega

theorem cacheableTtl_iff : cacheableTtl m = some l ↔ Lifetime m l := by
  constructor
  · intro h
    unfold cacheableTtl at h
    split at h
    next hcode =>
      cases h
      exact .nxDomain hcode
    next hcode =>
      split at h
      next hnil =>
        cases h
        exact .empty hcode hnil
      next hne =>
        obtain ⟨min, hmin, rfl⟩ := Option.map_eq_some_iff.mp h
        obtain ⟨hmem, hleast⟩ := List.min?_eq_some_iff.mp hmin
        obtain ⟨r, hr, rfl⟩ := List.mem_map.mp hmem
        rw [clamp_eq]
        refine .answers r hcode hr fun r' hr' => ?_
        exact hleast _ (List.mem_map_of_mem hr')
    next => cases h
  · intro h
    unfold cacheableTtl
    cases h with
    | nxDomain hcode =>
      rw [hcode]
      rfl
    | empty hcode hnil =>
      rw [hcode]
      simp only [hnil, if_true]
      rfl
    | answers r hcode hr hleast =>
      have hmin : (m.answers.map fun r => r.ttl.toNat).min? = some r.ttl.toNat := by
        apply List.min?_eq_some_iff.mpr
        refine ⟨List.mem_map_of_mem hr, ?_⟩
        rintro _ hmem
        obtain ⟨r', hr', rfl⟩ := List.mem_map.mp hmem
        exact hleast r' hr'
      rw [hcode]
      simp only [if_neg (List.ne_nil_of_mem hr), hmin, Option.map_some, clamp_eq]

theorem Lifetime.le (h : Lifetime m l) : l ≤ MAX_TTL := by
  cases h <;> simp only [MAX_TTL, SECOND] <;> omega

theorem spend_ttl (hs : secs < 2 ^ 32) (r : Record) :
    (r.spend secs.toUInt32).ttl.toNat = r.ttl.toNat - secs := by
  have hsecs : secs.toUInt32.toNat = secs := Nat.mod_eq_of_lt hs
  unfold Record.spend
  by_cases h : secs.toUInt32 ≤ r.ttl
  · have hle := UInt32.le_iff_toNat_le.mp h
    simp only [if_pos h, UInt32.toNat_sub_of_le _ _ h, hsecs]
  · have hlt := UInt32.le_iff_toNat_le.not.mp h
    rw [hsecs] at hlt
    simp only [if_neg h]
    change 0 = _
    omega

theorem lowered_iff (hs : secs < 2 ^ 32) : r.Lowered secs r' ↔ r' = r.spend secs.toUInt32 := by
  constructor
  · rintro ⟨heq, httl⟩
    rw [← spend_ttl hs] at httl
    rw [heq, UInt32.toNat_inj.mp httl]
    rfl
  · rintro rfl
    exact ⟨rfl, spend_ttl hs r⟩

theorem forall₂_lowered (hs : secs < 2 ^ 32) {rs rs' : List Record} :
    List.Forall₂ (Record.Lowered secs) rs rs' ↔ rs' = rs.map (Record.spend secs.toUInt32) := by
  constructor
  · intro h
    induction h with
    | nil => rfl
    | cons hr _ ih =>
      rw [(lowered_iff hs).mp hr, ih]
      rfl
  · rintro rfl
    induction rs with
    | nil => exact .nil
    | cons r rs ih => exact .cons ((lowered_iff hs).mpr rfl) ih

theorem message_lowered_iff (hs : secs < 2 ^ 32) : m.Lowered secs m' ↔ m' = { m with
    answers := m.answers.map (Record.spend secs.toUInt32)
    nameServers := m.nameServers.map (Record.spend secs.toUInt32) } := by
  unfold Message.Lowered
  rw [forall₂_lowered hs, forall₂_lowered hs]
  constructor
  · rintro ⟨ha, hn, heq⟩
    rw [heq, ha, hn]
  · rintro rfl
    exact ⟨rfl, rfl, rfl⟩

/-! ### One operation -/

variable {c : Cache} {k : Key} {e : Entry} {t now : Nat} {name : Name} {type : RecordType}
  {items : List (Item Key Entry)}

theorem getAt_eq_some : c.getAt k t = some m ↔ ∃ e, c.entries.lookup k = some e ∧
    t - e.storedAt < e.ttl ∧ m = { e.message with
      answers := e.message.answers.map (Record.spend ((t - e.storedAt) / SECOND).toUInt32)
      nameServers :=
        e.message.nameServers.map (Record.spend ((t - e.storedAt) / SECOND).toUInt32) } := by
  unfold Cache.getAt
  cases hl : c.entries.lookup k with
  | none => simp
  | some e =>
    simp only [Option.bind_eq_bind, Option.bind_some, Option.some.injEq, exists_eq_left',
      checkedSub]
    by_cases hlt : t - e.storedAt < e.ttl
    · have hpos : e.ttl - (t - e.storedAt) ≠ 0 := by omega
      simp only [if_pos (Nat.le_of_lt hlt), Option.bind_some, if_neg hpos, Option.some.injEq, hlt,
        true_and]
      exact eq_comm
    · simp only [hlt, false_and, iff_false]
      split
      next hle =>
        have hzero : e.ttl - (t - e.storedAt) = 0 := by omega
        simp [hzero]
      next => nofun

theorem insertAt_rejected (h : cacheableTtl m = none) :
    c.insertAt items k m t = (none, c) := by
  rw [Cache.insertAt, h]

theorem insertAt_accepted (h : cacheableTtl m = some l) : c.insertAt items k m t = (some l,
    ⟨insertBounded (Entry.remaining t) items c.capacity k ⟨m, t, l⟩ c.entries, c.capacity⟩) := by
  rw [Cache.insertAt, h]
  unfold insertBounded victim
  by_cases hfull : c.capacity ≤ size c.entries ∧ k ∉ c.entries
  · simp only [if_pos hfull]
    rfl
  · simp only [if_neg hfull]
    rfl

/-! ### Runs -/

/-- What was done to a cache; an insertion also says what it returned and which key it dropped. -/
inductive Event
  | insert (name : Name) (type : RecordType) (message : Message) (time : Nat) (ttl : Option Nat)
    (dropped : Option Key)
  | get (name : Name) (type : RecordType) (time : Nat)
  | purge (time : Nat)
  | clear

/-- The last accepted insertion under a key since the last clear, unless a later one dropped it.
The latest event comes first. -/
def stored (k : Key) : List Event → Option Entry
  | [] => none
  | .insert name type message time (some ttl) dropped :: h =>
    if Key.new name type = k then some ⟨message, time, ttl⟩
    else if dropped = some k then none
    else stored k h
  | .insert _ _ _ _ none _ :: h => stored k h
  | .get _ _ _ :: h => stored k h
  | .purge _ :: h => stored k h
  | .clear :: _ => none

inductive Run (capacity : Nat) : List Event → Cache → Nat → Prop
  | new (now : Nat) : Run capacity [] (Cache.new capacity) now
  | insert {h : List Event} {c : Cache} {now : Nat} (name : Name) (type : RecordType)
    (message : Message) (time : Nat) {items : List (Item Key Entry)} :
    Run capacity h c now → now ≤ time → items.Perm c.entries.entries →
    Run capacity (.insert name type message time
      (c.insertAt items (Key.new name type) message time).1
      (victim (Entry.remaining time) items c.capacity (Key.new name type) c.entries) :: h)
      (c.insertAt items (Key.new name type) message time).2 time
  | get {h : List Event} {c : Cache} {now : Nat} (name : Name) (type : RecordType) (time : Nat) :
    Run capacity h c now → now ≤ time → Run capacity (.get name type time :: h) c time
  | purge {h : List Event} {c : Cache} {now : Nat} (time : Nat) :
    Run capacity h c now → now ≤ time →
    Run capacity (.purge time :: h) (c.purgeExpired time) time
  | clear {h : List Event} {c : Cache} {now : Nat} :
    Run capacity h c now → Run capacity (.clear :: h) c.clear now

structure Holds (h : List Event) (c : Cache) (now : Nat) : Prop where
  sound : ∀ k e, c.entries.lookup k = some e → stored k h = some e
  expired : ∀ k e, stored k h = some e → c.entries.lookup k = none →
    e.ttl ≤ now - e.storedAt
  lifetime : ∀ k e, stored k h = some e → Lifetime e.message e.ttl

variable {h : List Event} {capacity : Nat}

theorem Holds.later (hc : Holds h c now) (ht : now ≤ t) : Holds h c t := by
  refine ⟨hc.sound, fun k e hs hl => ?_, hc.lifetime⟩
  have hold := hc.expired k e hs hl
  omega

theorem Holds.rejected (hc : Holds h c now) (dropped : Option Key) :
    Holds (.insert name type m t none dropped :: h) c now :=
  ⟨hc.sound, hc.expired, hc.lifetime⟩

theorem Holds.accepted (hc : Holds h c now) (hl : cacheableTtl m = some l) {dropped : Option Key}
    {entries : Table Key Entry} (hentries : ∀ k, entries.lookup k =
      if Key.new name type = k then some ⟨m, t, l⟩
      else if dropped = some k then none else c.entries.lookup k) :
    Holds (.insert name type m t (some l) dropped :: h) ⟨entries, c.capacity⟩ now := by
  constructor
  · intro k e hk
    rw [hentries] at hk
    rw [stored]
    split_ifs at hk ⊢
    · exact hk
    · exact hc.sound k e hk
  · intro k e hs hk
    rw [hentries] at hk
    rw [stored] at hs
    split_ifs at hk hs
    exact hc.expired k e hs hk
  · intro k e hs
    rw [stored] at hs
    split_ifs at hs
    · cases hs
      exact cacheableTtl_iff.mp hl
    · exact hc.lifetime k e hs

theorem Holds.purged (hc : Holds h c now) : Holds (.purge now :: h) (c.purgeExpired now) now := by
  refine ⟨fun k e hk => hc.sound k e (lookup_retain.mp hk).1, fun k e hs hk => ?_, hc.lifetime⟩
  have hs' : stored k h = some e := hs
  cases hl : c.entries.lookup k with
  | none => exact hc.expired k e hs' hl
  | some e' =>
    obtain rfl : e' = e := Option.some.inj ((hc.sound k e' hl).symm.trans hs')
    by_contra hlive
    have hkept : (c.purgeExpired now).entries.lookup k = some e' :=
      lookup_retain.mpr ⟨hl, decide_eq_true (Nat.lt_of_not_le hlive)⟩
    rw [hk] at hkept
    cases hkept

theorem Holds.empty (hs : ∀ k, stored k h = none) : Holds h ⟨∅, capacity⟩ now := by
  constructor
  · intro k e hl
    rw [AList.lookup_empty] at hl
    cases hl
  · intro k e hk
    rw [hs k] at hk
    cases hk
  · intro k e hk
    rw [hs k] at hk
    cases hk

theorem Run.holds (hr : Run capacity h c now) : Holds h c now := by
  induction hr with
  | new now => exact Holds.empty fun _ => rfl
  | insert name type message time _ ht _ ih =>
    cases hl : cacheableTtl message with
    | none =>
      rw [insertAt_rejected hl]
      exact (ih.later ht).rejected _
    | some l =>
      rw [insertAt_accepted hl]
      exact (ih.later ht).accepted hl fun k => lookup_insertBounded
  | get name type time _ ht ih => exact ⟨ih.sound, (ih.later ht).expired, ih.lifetime⟩
  | purge time _ ht ih => exact (ih.later ht).purged
  | clear _ ih => exact Holds.empty fun _ => rfl

/-! ### Lookups -/

/-- What lookups return from now on, and which responses are stored and for how long. -/
structure Refines (h : List Event) (c : Cache) (now : Nat) : Prop where
  hit : ∀ name type t m, now ≤ t → (c.getAt (Key.new name type) t = some m ↔
    ∃ e, stored (Key.new name type) h = some e ∧ t - e.storedAt < e.ttl ∧
      e.message.Lowered ((t - e.storedAt) / SECOND) m)
  accepted : ∀ items k m t l, (c.insertAt items k m t).1 = some l ↔ Lifetime m l
  rejected : ∀ items k m t, m.responseCode ≠ .noError → m.responseCode ≠ .nxDomain →
    c.insertAt items k m t = (none, c)

/-- Lookups in a cache refine the history of it, whatever the order in which it is iterated. -/
theorem lookups_refine (hr : Run capacity h c now) : Refines h c now := by
  constructor
  · intro name type t m ht
    have hc := hr.holds.later ht
    rw [getAt_eq_some]
    constructor
    · rintro ⟨e, hl, hlt, rfl⟩
      have hs := hc.sound _ e hl
      have hmax := (hc.lifetime _ e hs).le
      refine ⟨e, hs, hlt, (message_lowered_iff ?_).mpr rfl⟩
      unfold MAX_TTL SECOND at *
      omega
    · rintro ⟨e, hs, hlt, hlow⟩
      have hmax := (hc.lifetime _ e hs).le
      rw [message_lowered_iff (by unfold MAX_TTL SECOND at *; omega)] at hlow
      refine ⟨e, ?_, hlt, hlow⟩
      cases hl : c.entries.lookup (Key.new name type) with
      | none => exact absurd (hc.expired _ e hs hl) (Nat.not_le_of_lt hlt)
      | some e' =>
        rw [← hs]
        exact (hc.sound _ e' hl).symm
  · intro items k m t l
    rw [← cacheableTtl_iff]
    cases hl : cacheableTtl m with
    | none => rw [insertAt_rejected hl]
    | some l' => rw [insertAt_accepted hl]
  · intro items k m t hno hnx
    have hnone : cacheableTtl m = none := by
      unfold cacheableTtl
      split
      next h => exact absurd h hnx
      next h => exact absurd h hno
      next => rfl
    exact insertAt_rejected hnone

/-! ### A cache with one entry -/

def plainName : Name := ⟨[ascii "example", ascii "com"], by decide⟩

def plainResponse : Message := { Message.new with
  messageType := .response
  answers := [⟨plainName, 1, IN, 300, [93, 184, 216, 34]⟩]
  additionals := [⟨plainName, 1, IN, 300, [93, 184, 216, 35]⟩] }

def plainCache : Cache := ((Cache.new 1).insertAt [] (Key.new plainName 1) plainResponse 0).2

def plainHistory : List Event :=
  [.insert plainName 1 plainResponse 0 (some (300 * SECOND)) none]

theorem plainResponse_accepted (c : Cache) (items : List (Item Key Entry)) (k : Key) (t : Nat) :
    (c.insertAt items k plainResponse t).1 = some (300 * SECOND) := by
  have httl : cacheableTtl plainResponse = some (300 * SECOND) := by decide +kernel
  rw [insertAt_accepted httl]

theorem plain_run : Run 1 plainHistory plainCache 0 := by
  have hrun := Run.insert plainName 1 plainResponse 0 (Run.new 0 : Run 1 [] (Cache.new 1) 0)
    (Nat.le_refl 0) (.refl [])
  have hdropped : victim (Entry.remaining 0) [] (Cache.new 1).capacity (Key.new plainName 1)
      (Cache.new 1).entries = none := by
    decide +kernel
  rw [plainResponse_accepted, hdropped] at hrun
  exact hrun

def replacedHistory : List Event :=
  [.get plainName 1 (2 * SECOND),
    .insert plainName 28 plainResponse SECOND (some (300 * SECOND)) (some (Key.new plainName 1)),
    .get plainName 1 0] ++ plainHistory

def replacedCache : Cache :=
  (plainCache.insertAt plainCache.entries.entries (Key.new plainName 28) plainResponse SECOND).2

theorem replaced_run : Run 1 replacedHistory replacedCache (2 * SECOND) := by
  have hrun := Run.insert plainName 28 plainResponse SECOND
    (Run.get plainName 1 0 plain_run (Nat.le_refl 0)) (Nat.zero_le SECOND) (.refl _)
  have hdropped : victim (Entry.remaining SECOND) plainCache.entries.entries plainCache.capacity
      (Key.new plainName 28) plainCache.entries = some (Key.new plainName 1) := by
    decide +kernel
  rw [plainResponse_accepted, hdropped] at hrun
  exact Run.get plainName 1 (2 * SECOND) hrun (Nat.le_mul_of_pos_left SECOND (by decide))

theorem plain_refines : Refines replacedHistory replacedCache (2 * SECOND) :=
  lookups_refine replaced_run

/-! ### All the TTLs -/

def Message.CountedDown (secs : Nat) (m m' : Message) : Prop :=
  List.Forall₂ (Record.Lowered secs) m.answers m'.answers ∧
    List.Forall₂ (Record.Lowered secs) m.nameServers m'.nameServers ∧
      List.Forall₂ (Record.Lowered secs) m.additionals m'.additionals ∧
        m' = { m with
          answers := m'.answers
          nameServers := m'.nameServers
          additionals := m'.additionals }

theorem lowered_self : r.Lowered secs r ↔ secs = 0 ∨ r.ttl = 0 := by
  have hzero : r.ttl = 0 ↔ r.ttl.toNat = 0 := UInt32.toNat_inj.symm
  rw [hzero]
  constructor
  · rintro ⟨-, httl⟩
    omega
  · intro h
    exact ⟨rfl, by omega⟩

theorem forall₂_lowered_self {rs : List Record} :
    List.Forall₂ (Record.Lowered secs) rs rs ↔ secs = 0 ∨ ∀ r ∈ rs, r.ttl = 0 := by
  rw [List.forall₂_same]
  simp only [lowered_self]
  constructor
  · intro h
    by_cases hs : secs = 0
    · exact .inl hs
    · exact .inr fun r hr => (h r hr).resolve_left hs
  · rintro (hs | h)
    · exact fun r _ => .inl hs
    · exact fun r hr => .inr (h r hr)

/-- The TTLs of the additional section are handed out as they were stored. -/
theorem hit_countedDown_iff (hr : Run capacity h c now) (hl : c.entries.lookup k = some e)
    (hit : c.getAt k t = some m) : e.message.CountedDown ((t - e.storedAt) / SECOND) m ↔
      t - e.storedAt < SECOND ∨ ∀ r ∈ e.message.additionals, r.ttl = 0 := by
  obtain ⟨e', hl', hlt, hm⟩ := getAt_eq_some.mp hit
  obtain rfl : e = e' := Option.some.inj (hl.symm.trans hl')
  have hmax := (hr.holds.lifetime k e (hr.holds.sound k e hl)).le
  have hsecs : (t - e.storedAt) / SECOND < 2 ^ 32 := by
    unfold MAX_TTL SECOND at *
    omega
  obtain ⟨ha, hn, -⟩ := (message_lowered_iff hsecs).mpr hm
  have hadd : m.additionals = e.message.additionals := by rw [hm]
  have hzero : (t - e.storedAt) / SECOND = 0 ↔ t - e.storedAt < SECOND :=
    Nat.div_eq_zero_iff_lt (by decide)
  rw [← hzero, ← forall₂_lowered_self, Message.CountedDown, hadd]
  constructor
  · exact fun h => h.2.2.1
  · intro h
    refine ⟨ha, hn, h, ?_⟩
    rw [hm]

def plainEntry : Entry := ⟨plainResponse, 0, 300 * SECOND⟩

theorem plain_lookup : plainCache.entries.lookup (Key.new plainName 1) = some plainEntry := by
  decide +kernel

theorem plain_early : plainEntry.message.CountedDown ((500000000 - 0) / SECOND) plainResponse ↔
    500000000 - 0 < SECOND ∨ ∀ r ∈ plainResponse.additionals, r.ttl = 0 :=
  hit_countedDown_iff (e := plainEntry) plain_run plain_lookup (by decide +kernel)

/-- After a hundred seconds the address in the additional section still has its TTL of 300. -/
theorem plain_late : ¬∀ (capacity : Nat) (h : List Event) (c : Cache) (now : Nat) (k : Key)
    (e : Entry) (t : Nat) (m : Message), Run capacity h c now → c.entries.lookup k = some e →
    c.getAt k t = some m → e.message.CountedDown ((t - e.storedAt) / SECOND) m := by
  intro hall
  have hcounted := hall 1 plainHistory plainCache 0 (Key.new plainName 1) plainEntry
    (100 * SECOND) { plainResponse with
      answers := [⟨plainName, 1, IN, 200, [93, 184, 216, 34]⟩] } plain_run plain_lookup
    (by decide +kernel)
  obtain ⟨-, -, hadditionals, -⟩ := hcounted
  obtain ⟨⟨-, httl⟩, -⟩ := List.forall₂_cons.mp hadditionals
  revert httl
  decide +kernel

end Detour.Core
