import Detour.FilterRoute.Rules

/-! What the calls of the filter route leave. -/

namespace Detour.FilterRoute

open Atomic Detour.Rust Detour.ResolvConf Detour.Tunnel

variable {w t u : World} {uid : UInt32} {port : UInt16}

def filterKey : Nft.Family × String := (.ip, NFT_TABLE)

def SameBut (w t : World) : Prop :=
  ∃ table files, t = { w with tables := Function.update w.tables filterKey table, files := files }

theorem SameBut.refl (w : World) : SameBut w w :=
  ⟨w.tables filterKey, w.files, by rw [Function.update_eq_self]⟩

theorem SameBut.trans {a b c : World} (h : SameBut a b) (h' : SameBut b c) : SameBut a c := by
  obtain ⟨table, files, rfl⟩ := h
  obtain ⟨table', files', rfl⟩ := h'
  exact ⟨table', files', by simp⟩

theorem SameBut.sameNet (h : SameNet w t) : SameBut w t := by
  obtain ⟨files, rfl⟩ := h
  exact ⟨w.tables filterKey, files, by rw [Function.update_eq_self]⟩

def FilterSane (w : World) : Prop :=
  ∀ t, w.tables filterKey = some t → ∃ g port, t = filterTable g port

theorem filterSane_of_none (h : w.tables filterKey = none) : FilterSane w := by
  intro t ht
  rw [h] at ht
  cases ht

theorem filterSane_of_some {g : CgroupId} (h : w.tables filterKey = some (filterTable g port)) :
    FilterSane w := by
  intro t ht
  exact ⟨g, port, Option.some.inj (ht.symm.trans h)⟩

def Keeping (w t : World) : Prop := SameBut w t ∧ FilterSane t

theorem keeps_down (hw : FilterSane w) :
    down.Keeps dependable (Keeping w) (fun _ t => t.tables filterKey = none) w := by
  have hgone : ∀ out t, dependable (.exec (.nftDelete .ip NFT_TABLE)) w out t →
      SameBut w t ∧ t.tables filterKey = none := by
    intro out t he
    have hnone : Function.update w.tables filterKey none filterKey = none :=
      Function.update_self ..
    rw [dependable_deletes rfl he, clear_nftDelete]
    exact ⟨⟨none, w.files, rfl⟩, hnone⟩
  refine ⟨⟨SameBut.refl w, hw⟩, fun out t he => ?_⟩
  obtain ⟨hs, hnone⟩ := hgone out t he
  exact ⟨⟨hs, filterSane_of_none hnone⟩, hnone⟩

def Ends (uid : UInt32) (port : UInt16) (w : World) : Except FilterError Unit → World → Prop
  | .ok _, t => ∃ g, w.cgroups (sliceCgroup uid).1 = some g ∧
    t.tables filterKey = some (filterTable g port)
  | .error _, t => t.tables filterKey = none ∨ uid = 0 ∧ t = w

def Cleared (w t : World) : Prop := SameBut w t ∧ t.tables filterKey = none

theorem Cleared.keeping (h : Cleared w t) : Keeping w t := ⟨h.1, filterSane_of_none h.2⟩

theorem Cleared.files (h : Cleared w t) (files : Tunnel.Path → Option Content) :
    Cleared w { t with files := files } :=
  ⟨h.1.trans (.sameNet ⟨files, rfl⟩), h.2⟩

theorem effect_nftLoad (hf : t.files nftPath = some (.ruleset (nftRuleset uid port)))
    (hn : t.tables filterKey = none) :
    Command.effect t (.nftLoad nftPath) = (t.cgroups (sliceCgroup uid).1).map fun g =>
      { t with tables := Function.update t.tables filterKey (some (filterTable g port)) } := by
  have hkey : ∀ g : CgroupId, ((filterTable g port).family, (filterTable g port).name) =
      filterKey := fun _ => rfl
  rw [Command.effect, hf]
  simp only [nftRuleset_eq, resolve_filterTable, Option.map_map, Function.comp_def, hkey, hn]

theorem keeps_install (ht : Cleared w t)
    (hf : t.files nftPath = some (.ruleset (nftRuleset uid port))) :
    (ExceptT.run (install (step (.nftLoad nftPath)))).Keeps dependable (Keeping w)
      (Ends uid port w) t := by
  have hcgroups : t.cgroups = w.cgroups := by
    obtain ⟨⟨_, _, rfl⟩, -⟩ := ht
    rfl
  refine Fallible.keeps_sys_bind ht.keeping fun out u he => ?_
  rcases he with ⟨⟨rfl, hr⟩ | ⟨⟨stderr, rfl⟩, heff⟩, -⟩
  · match out with
    | .notSpawned source => exact ⟨ht.keeping, .inl ht.2⟩
    | .exited true stderr => exact absurd rfl (hr stderr)
    | .exited false stderr =>
      apply Fallible.keeps_bind (S := fun _ v => v.tables filterKey = none)
      · apply Fallible.keeps_lift
        apply (keeps_down ht.keeping.2).mono
        · rintro v ⟨hv, hvs⟩
          exact ⟨ht.1.trans hv, hvs⟩
        · exact fun _ _ h => h
      · intro _ v hv hnone
        exact ⟨hv, .inl hnone⟩
  · obtain ⟨g, hg, rfl⟩ := Option.map_eq_some_iff.mp ((effect_nftLoad hf ht.2).symm.trans heff)
    have hthere : Function.update t.tables filterKey (some (filterTable g port)) filterKey =
        some (filterTable g port) := Function.update_self ..
    rw [hcgroups] at hg
    exact ⟨⟨ht.1.trans ⟨_, t.files, rfl⟩, filterSane_of_some hthere⟩, g, hg, hthere⟩

theorem keeps_orIo {k : FilterM Unit} {r : Except ErrorKind Unit} (ht : Cleared w t)
    (hk : r = .ok () → (ExceptT.run k).Keeps dependable (Keeping w) (Ends uid port w) t) :
    (ExceptT.run (orIo r >>= fun _ => k)).Keeps dependable (Keeping w) (Ends uid port w) t := by
  cases r with
  | ok a => exact hk rfl
  | error e => exact ⟨ht.keeping, .inl ht.2⟩

theorem keeps_up (hw : FilterSane w) (uid : UInt32) (port : UInt16) :
    (ExceptT.run (up uid port)).Keeps dependable (Keeping w) (Ends uid port w) w := by
  unfold up
  split
  next hroot => exact ⟨⟨SameBut.refl w, hw⟩, .inr ⟨hroot, rfl⟩⟩
  · apply Fallible.keeps_bind (Fallible.keeps_lift (keeps_down hw))
    intro _ d hd hnone
    have hcleared : Cleared w d := ⟨hd.1, hnone⟩
    apply Fallible.keeps_sys_bind hd
    rintro r d ⟨rfl, -⟩
    apply keeps_orIo hcleared
    intro _
    apply Fallible.keeps_sys_bind hd
    intro r x he
    have hx : Cleared w x := by
      rcases he.1 with ⟨_, _, rfl⟩ | ⟨_, rfl⟩
      · exact hcleared
      · exact hcleared.files _
    apply keeps_orIo hx
    intro _
    apply Fallible.keeps_sys_bind hx.keeping
    intro r y he
    have hy : Cleared w y := by
      rcases he.1 with ⟨_, rfl⟩ | ⟨_, _, _, _, rfl⟩
      · exact hx.files _
      · exact hx.files _
    apply keeps_orIo hy
    intro hok
    have hf : y.files nftPath = some (.ruleset (nftRuleset uid port)) := by
      rcases he.1 with ⟨_, rfl⟩ | ⟨_, _, hr, _, _⟩
      · simp
      · rw [hr] at hok
        cases hok
    rw [upSteps, Fallible.tryForEach_singleton]
    exact keeps_install hy hf

end Detour.FilterRoute
