import Mathlib.Data.List.AList
import Mathlib.Data.List.MinMax

/-! Tables of bounded size that make room by dropping an entry with the least life left. -/

namespace ExpiringTable

variable {κ ε : Type}

abbrev Item (κ ε : Type) := (_ : κ) × ε

abbrev Table (κ ε : Type) := AList fun _ : κ => ε

def size (t : Table κ ε) : Nat := t.entries.length

def retain (p : ε → Bool) (t : Table κ ε) : Table κ ε :=
  ⟨t.entries.filter fun i => p i.2, t.nodupKeys.sublist List.filter_sublist⟩

def least (life : ε → Nat) (items : List (Item κ ε)) : Option κ :=
  (items.argmin fun i => life i.2).map Sigma.fst

variable {t u : Table κ ε} {k k' : κ} {e : ε} {life : ε → Nat} {items : List (Item κ ε)}
  {bound : Nat} {p : ε → Bool}

theorem size_retain_le (t : Table κ ε) : size (retain p t) ≤ size t := List.length_filter_le _ _

theorem least_eq_some (hk : least life items = some k) : ∃ e, ⟨k, e⟩ ∈ items ∧
    ∀ i ∈ items, life e ≤ life i.2 := by
  obtain ⟨⟨k', e⟩, hi, rfl⟩ := Option.map_eq_some_iff.mp hk
  refine ⟨e, List.argmin_mem hi, fun i hmem => ?_⟩
  exact List.le_of_mem_argmin (f := fun i : Item κ ε => life i.2) hmem hi

theorem least_eq_none : least life items = none ↔ items = [] := by
  simp [least]

variable [DecidableEq κ]

def eraseOpt (k : Option κ) (t : Table κ ε) : Table κ ε := k.elim t t.erase

def victim (life : ε → Nat) (items : List (Item κ ε)) (bound : Nat) (k : κ) (t : Table κ ε) :
    Option κ :=
  if bound ≤ size t ∧ k ∉ t then least life items else none

def insertBounded (life : ε → Nat) (items : List (Item κ ε)) (bound : Nat) (k : κ) (e : ε)
    (t : Table κ ε) : Table κ ε :=
  (eraseOpt (victim life items bound k t) t).insert k e

/-! ### Lookups -/

theorem lookup_eq_some : t.lookup k = some e ↔ ⟨k, e⟩ ∈ t.entries := AList.mem_lookup_iff

theorem lookup_retain : (retain p t).lookup k = some e ↔ t.lookup k = some e ∧ p e = true := by
  rw [lookup_eq_some, lookup_eq_some, retain, List.mem_filter]

theorem lookup_eraseOpt {v : Option κ} :
    (eraseOpt v t).lookup k = if v = some k then none else t.lookup k := by
  cases v with
  | none => rfl
  | some v =>
    by_cases h : v = k
    · subst h
      rw [if_pos rfl]
      exact AList.lookup_erase v t
    · rw [if_neg (by simpa using h)]
      exact AList.lookup_erase_ne (fun heq => h heq.symm)

theorem lookup_insertBounded : (insertBounded life items bound k e t).lookup k' =
    if k = k' then some e
    else if victim life items bound k t = some k' then none else t.lookup k' := by
  unfold insertBounded
  by_cases h : k = k'
  · subst h
    rw [if_pos rfl, AList.lookup_insert]
  · rw [if_neg h, AList.lookup_insert_ne fun heq => h heq.symm, lookup_eraseOpt]

/-! ### Sizes -/

theorem size_insert_of_mem (h : k ∈ t) : size (t.insert k e) = size t := by
  have hkeys := congrArg List.length (AList.keys_insert (a := k) (b := e) t)
  have hpos : 0 < t.keys.length := List.length_pos_of_mem h
  rw [List.length_cons, List.length_erase_of_mem (AList.mem_keys.mp h)] at hkeys
  simp only [AList.keys, List.keys, List.length_map] at hkeys hpos
  unfold size
  omega

theorem size_insert_of_notMem (h : k ∉ t) : size (t.insert k e) = size t + 1 := by
  rw [size, AList.entries_insert_of_notMem h]
  rfl

theorem size_erase_of_mem (h : k ∈ t) : size (t.erase k) + 1 = size t := by
  have hkeys := congrArg List.length (AList.keys_erase k t)
  have hpos : 0 < t.keys.length := List.length_pos_of_mem h
  rw [List.length_erase_of_mem (AList.mem_keys.mp h)] at hkeys
  simp only [AList.keys, List.keys, List.length_map] at hkeys hpos
  unfold size
  omega

/-! ### The victim -/

theorem victim_eq_some (hitems : items.Perm t.entries)
    (hv : victim life items bound k t = some k') : bound ≤ size t ∧ k ∉ t ∧
      ∃ e, t.lookup k' = some e ∧ ∀ k'' e'', t.lookup k'' = some e'' → life e ≤ life e'' := by
  unfold victim at hv
  split at hv
  next hfull =>
    obtain ⟨e, hmem, hleast⟩ := least_eq_some hv
    refine ⟨hfull.1, hfull.2, e, lookup_eq_some.mpr (hitems.mem_iff.mp hmem), ?_⟩
    intro k'' e'' hl
    exact hleast ⟨k'', e''⟩ (hitems.mem_iff.mpr (lookup_eq_some.mp hl))
  next => cases hv

theorem victim_ne_self (hitems : items.Perm t.entries) :
    victim life items bound k t ≠ some k := by
  intro hv
  obtain ⟨-, hnot, e, hl, -⟩ := victim_eq_some hitems hv
  exact hnot (AList.lookup_isSome.mp (by rw [hl]; rfl))

theorem exists_victim (life : ε → Nat) (hitems : items.Perm t.entries) (hpos : 0 < bound)
    (hfull : bound ≤ size t) (hk : k ∉ t) : ∃ k', victim life items bound k t = some k' := by
  rw [victim, if_pos ⟨hfull, hk⟩]
  apply Option.ne_none_iff_exists'.mp
  rw [Ne, least_eq_none]
  rintro rfl
  rw [size, ← hitems.length_eq] at hfull
  exact absurd (Nat.lt_of_lt_of_le hpos hfull) (Nat.lt_irrefl 0)

theorem size_insertBounded_le (hitems : items.Perm t.entries) (hpos : 0 < bound)
    (hsize : size t ≤ bound) : size (insertBounded life items bound k e t) ≤ bound := by
  unfold insertBounded
  by_cases hk : k ∈ t
  · have hv : victim life items bound k t = none := by
      rw [victim, if_neg fun h => h.2 hk]
    rw [hv]
    exact (size_insert_of_mem hk).trans_le hsize
  · by_cases hfull : bound ≤ size t
    · obtain ⟨v, hv⟩ := exists_victim life hitems hpos hfull hk
      obtain ⟨-, -, e', hl, -⟩ := victim_eq_some hitems hv
      have hmem : v ∈ t := AList.lookup_isSome.mp (by rw [hl]; rfl)
      have herase := size_erase_of_mem hmem
      have hk' : k ∉ t.erase v := fun h => hk (AList.mem_erase.mp h).2
      rw [hv]
      change size ((t.erase v).insert k e) ≤ bound
      rw [size_insert_of_notMem hk']
      omega
    · have hv : victim life items bound k t = none := by
        rw [victim, if_neg fun h => hfull h.1]
      rw [hv]
      change size (t.insert k e) ≤ bound
      rw [size_insert_of_notMem hk]
      omega

/-! ### Two tables with the same live entries -/

def SameLive (life : ε → Nat) (t u : Table κ ε) : Prop :=
  ∀ k e, 0 < life e → (t.lookup k = some e ↔ u.lookup k = some e)

variable {items' : List (Item κ ε)}

theorem SameLive.symm (h : SameLive life t u) : SameLive life u t :=
  fun k e he => (h k e he).symm

theorem sameLive_retain (hp : ∀ e, 0 < life e → p e = true) : SameLive life t (retain p t) := by
  intro k e he
  rw [lookup_retain]
  exact (and_iff_left (hp e he)).symm

theorem SameLive.later {life' : ε → Nat} (h : SameLive life t u) (hlife : ∀ e, life' e ≤ life e) :
    SameLive life' t u := fun k e he => h k e (Nat.lt_of_lt_of_le he (hlife e))

/-- A victim with life left has none without beside it, so the other table, which is no larger,
is the same. -/
theorem SameLive.perm_of_victim (hs : SameLive life t u) (hitems : items.Perm t.entries)
    (hu : size u ≤ bound) (hv : victim life items bound k t = some k')
    (hl : t.lookup k' = some e) (he : 0 < life e) : t.entries.Perm u.entries := by
  obtain ⟨hfull, -, e', hl', hleast⟩ := victim_eq_some hitems hv
  obtain rfl : e = e' := Option.some.inj (hl.symm.trans hl')
  have hsub : t.entries ⊆ u.entries := by
    rintro ⟨k'', e''⟩ hmem
    have hl'' := lookup_eq_some.mpr hmem
    have hlive := Nat.lt_of_lt_of_le he (hleast k'' e'' hl'')
    exact lookup_eq_some.mp ((hs k'' e'' hlive).mp hl'')
  exact (List.subperm_of_subset t.nodupKeys.nodup hsub).perm_of_length_le (hu.trans hfull)

theorem victim_congr (h : t.entries.Perm u.entries) :
    victim life items bound k t = victim life items bound k u := by
  have hsize : size t = size u := h.length_eq
  exact if_congr (by rw [hsize, AList.mem_of_perm h]) rfl rfl

theorem SameLive.insertBounded (hs : SameLive life t u) (ht : items.Perm t.entries)
    (hu : items'.Perm u.entries) (hsame : t.entries.Perm u.entries → items = items')
    (htb : size t ≤ bound) (hub : size u ≤ bound) (k : κ) (e : ε) :
    SameLive life (ExpiringTable.insertBounded life items bound k e t)
      (ExpiringTable.insertBounded life items' bound k e u) := by
  intro k' e' he'
  rw [lookup_insertBounded, lookup_insertBounded]
  by_cases hk : k = k'
  · rw [if_pos hk, if_pos hk]
  · rw [if_neg hk, if_neg hk]
    by_cases hperm : t.entries.Perm u.entries
    · rw [hsame hperm, victim_congr hperm]
      split
      next => exact Iff.rfl
      next => exact hs k' e' he'
    · -- what either of them drops has no life left
      have hvt : t.lookup k' = some e' → victim life items bound k t ≠ some k' :=
        fun hl hv => hperm (hs.perm_of_victim ht hub hv hl he')
      have hvu : u.lookup k' = some e' → victim life items' bound k u ≠ some k' :=
        fun hl hv => hperm (hs.symm.perm_of_victim hu htb hv hl he').symm
      constructor
      · intro h
        split at h
        next => cases h
        next =>
          have hl := (hs k' e' he').mp h
          rw [if_neg (hvu hl)]
          exact hl
      · intro h
        split at h
        next => cases h
        next =>
          have hl := (hs k' e' he').mpr h
          rw [if_neg (hvt hl)]
          exact hl

end ExpiringTable
