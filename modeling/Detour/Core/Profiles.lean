import Detour.Core.Config
import Detour.Core.Matching

/-! App profiles: domains that are forced over DoH while a profile is active. -/

namespace Detour.Core

open Detour.Rust

structure AppProfile where
  /-- Stable identifier used in the UI and IPC. -/
  id : Text
  /-- Domains and suffixes forced over DoH while this profile is active. -/
  domains : List Bytes
  deriving DecidableEq

structure Settings extends Config where
  policy : Policy
  profiles : List AppProfile
  deriving DecidableEq

def Settings.profile (c : Settings) (id : Text) : Option AppProfile :=
  c.profiles.find? fun p => p.id == id

def Settings.policyFor (c : Settings) (profileId : Option Text) : Policy :=
  match profileId.bind c.profile with
  -- Add to the user's own always-DoH list, never replace it.
  | some profile => c.policy.setForceDoh (c.policy.forceDoh ++ profile.domains)
  | none => c.policy

/-! ### Normalising twice -/

theorem trimEndMatches_idem (s : Bytes) :
    trimEndMatches dot (trimEndMatches dot s) = trimEndMatches dot s :=
  List.rdropWhile_idempotent _ s

theorem trimEndMatches_lowerBytes (s : Bytes) :
    trimEndMatches dot (lowerBytes s) = lowerBytes (trimEndMatches dot s) := by
  have hdot : ((· == dot) : UInt8 → Bool) ∘ lowerByte = (· == dot) := by
    funext b
    have hiff := lowerByte_eq_dot b
    rw [lowerByte_dot] at hiff
    exact Bool.eq_iff_iff.mpr (by simpa using hiff)
  unfold trimEndMatches lowerBytes List.rdropWhile
  rw [← List.map_reverse, List.dropWhile_map, hdot, List.map_reverse]

theorem lowerBytes_idem (s : Bytes) : lowerBytes (lowerBytes s) = lowerBytes s := by
  have hbyte : ∀ b, lowerByte (lowerByte b) = lowerByte b := by
    intro b
    unfold lowerByte
    split <;> grind
  rw [lowerBytes, lowerBytes, List.map_map]
  exact List.map_congr_left fun b _ => hbyte b

theorem normaliseStr_idem (s : Bytes) : normaliseStr (normaliseStr s) = normaliseStr s := by
  unfold normaliseStr
  rw [trimEndMatches_lowerBytes, trimEndMatches_idem, lowerBytes_idem]

variable {n : Name} {name s : Bytes} {c : Settings} {id : Text} {p : AppProfile}

theorem suffixMatches_normaliseStr (name s : Bytes) :
    suffixMatches name (normaliseStr s) = suffixMatches name s := by
  simp only [suffixMatches, normaliseStr_idem]

/-! ### Routing -/

def Policy.ForcesLocal (p : Policy) (n : Name) : Prop :=
  (p.forceLocal.any fun s => suffixMatches (normalise n) s) = true ∨
    isBuiltinLocal (normalise n) = true

def Policy.ForcesDoh (p : Policy) (n : Name) : Prop :=
  (p.forceDoh.any fun s => suffixMatches (normalise n) s) = true

def AppProfile.Matches (p : AppProfile) (n : Name) : Prop :=
  ∃ s ∈ p.domains, suffixMatches (normalise n) s = true

theorem route_doh_iff (p : Policy) (n : Name) : p.route n = .doh ↔
    ¬p.ForcesLocal n ∧ (p.ForcesDoh n ∨ p.defaultDoh = true) := by
  unfold Policy.route Policy.ForcesLocal Policy.ForcesDoh
  dsimp only
  split
  · rename_i h
    exact ⟨nofun, fun hn => absurd (.inl h) hn.1⟩
  · rename_i hforce
    split
    · rename_i h
      exact ⟨nofun, fun hn => absurd (.inr h) hn.1⟩
    · rename_i hbuiltin
      have hlocal := not_or.mpr ⟨hforce, hbuiltin⟩
      split
      · rename_i h
        exact ⟨fun _ => ⟨hlocal, .inl h⟩, fun _ => rfl⟩
      · rename_i h
        split
        · rename_i hdefault
          exact ⟨fun _ => ⟨hlocal, .inr hdefault⟩, fun _ => rfl⟩
        · rename_i hdefault
          exact ⟨nofun, fun hn => hn.2.elim (fun hf => absurd hf h) fun hd => absurd hd hdefault⟩

theorem policyFor_none (h : c.profile id = none) : c.policyFor (some id) = c.policy := by
  rw [Settings.policyFor, Option.bind_some, h]

theorem policyFor_some (h : c.profile id = some p) : c.policyFor (some id) =
    { c.policy with forceDoh := (c.policy.forceDoh ++ p.domains).map normaliseStr } := by
  rw [Settings.policyFor, Option.bind_some, h]
  rfl

theorem policyFor_route_iff (h : c.profile id = some p) :
    (c.policyFor (some id)).route n = .doh ↔ ¬c.policy.ForcesLocal n ∧
      (c.policy.ForcesDoh n ∨ p.Matches n ∨ c.policy.defaultDoh = true) := by
  have hdoh : Policy.ForcesDoh { c.policy with
      forceDoh := (c.policy.forceDoh ++ p.domains).map normaliseStr } n ↔
        c.policy.ForcesDoh n ∨ p.Matches n := by
    unfold Policy.ForcesDoh AppProfile.Matches
    simp only [List.any_map, Function.comp_def, suffixMatches_normaliseStr, List.any_append,
      Bool.or_eq_true, List.any_eq_true]
  rw [policyFor_some h, route_doh_iff, hdoh, or_assoc]
  rfl

/-- A profile only adds DoH, and only for its domains. -/
theorem policyFor_only_adds (c : Settings) (id : Text) (n : Name) :
    ((c.policyFor (some id)).route n ≠ c.policy.route n →
      (∃ p, c.profile id = some p ∧ p.Matches n) ∧ ¬c.policy.ForcesLocal n ∧
        c.policy.route n = .systemUpstream ∧ (c.policyFor (some id)).route n = .doh) ∧
    (∀ p, c.profile id = some p → p.Matches n → ¬c.policy.ForcesLocal n →
      (c.policyFor (some id)).route n = .doh) ∧
    ((c.policyFor (some id)).forceDoh.take c.policy.forceDoh.length).map
      (suffixMatches (normalise n)) = c.policy.forceDoh.map (suffixMatches (normalise n)) := by
  cases hp : c.profile id with
  | none =>
    rw [policyFor_none hp]
    exact ⟨fun h => absurd rfl h, nofun, by rw [List.take_length]⟩
  | some p =>
    have hroute := policyFor_route_iff hp (n := n)
    have hbase := route_doh_iff c.policy n
    refine ⟨fun hne => ?_, ?_, ?_⟩
    · cases hnew : (c.policyFor (some id)).route n with
      | doh =>
        rw [hnew] at hne
        obtain ⟨hlocal, hdoh⟩ := hroute.mp hnew
        have hold : c.policy.route n ≠ .doh := fun h => hne h.symm
        have hno : ¬(c.policy.ForcesDoh n ∨ c.policy.defaultDoh = true) := fun h =>
          hold (hbase.mpr ⟨hlocal, h⟩)
        have hmatch : p.Matches n := by
          rcases hdoh with h | h | h
          · exact absurd (.inl h) hno
          · exact h
          · exact absurd (.inr h) hno
        refine ⟨⟨p, rfl, hmatch⟩, hlocal, ?_, rfl⟩
        cases hr : c.policy.route n with
        | doh => exact absurd hr hold
        | systemUpstream => rfl
      | systemUpstream =>
        -- what went to DoH before still goes there
        rw [hnew] at hne
        cases hold : c.policy.route n with
        | systemUpstream => exact absurd hold.symm hne
        | doh =>
          obtain ⟨hlocal, hdoh⟩ := hbase.mp hold
          have hnew' := hroute.mpr ⟨hlocal, hdoh.imp_right .inr⟩
          rw [hnew] at hnew'
          cases hnew'
    · rintro p' hp' hmatch hlocal
      obtain rfl := Option.some.inj hp'
      exact hroute.mpr ⟨hlocal, .inr (.inl hmatch)⟩
    · rw [policyFor_some hp]
      dsimp only
      rw [List.map_append, List.take_left' (List.length_map _), List.map_map]
      exact List.map_congr_left fun s _ => suffixMatches_normaliseStr _ s

end Detour.Core
