import Detour.Tunnel.Marking
import Detour.Tunnel.Up

/-! What the steps of `up` make, and that none of them takes anything away. -/

namespace Detour.Tunnel

open Atomic Detour.Rust Detour.ResolvConf

variable {w w' : World} {c : Command} {uid : UInt32} {dir : Path}

/-! ### The commands of `up` -/

def Command.adds : Command → Bool
  | .linkAdd | .wgSetconf _ | .addressAdd _ | .linkSetUp _ | .routeAddDefault
  | .routeAddUnreachable | .ruleAdd | .routeAddUnreachable6 | .ruleAdd6 | .nftLoad _ => true
  | _ => false

structure Grows (w w' : World) : Prop where
  link : ∀ l, w.link = some l → ∃ l', w'.link = some l' ∧ l.addresses ⊆ l'.addresses ∧
    (l.up = true → l'.up = true) ∧ (l.conf.isSome → l'.conf.isSome)
  defaultRoute : w.defaultRoute = true → w'.defaultRoute = true
  unreachable : w.unreachable = true → w'.unreachable = true
  unreachable6 : w.unreachable6 = true → w'.unreachable6 = true
  rules : w.rules ≤ w'.rules
  rules6 : w.rules6 ≤ w'.rules6

theorem Grows.refl (w : World) : Grows w w where
  link l hl := ⟨l, hl, List.Subset.refl _, id, id⟩
  defaultRoute := id
  unreachable := id
  unreachable6 := id
  rules := Nat.le_refl _
  rules6 := Nat.le_refl _

structure Frame (w w' : World) : Prop where
  ipv6 : w'.ipv6 = w.ipv6
  cgroups : w'.cgroups = w.cgroups
  files : w'.files = w.files

theorem Command.effect_frame (he : c.effect w = some w') : Frame w w' := by
  cases c with
  | nftLoad path =>
    simp only [Command.effect] at he
    split at he
    next text ht =>
      obtain ⟨new, -, rfl⟩ := Option.map_eq_some_iff.mp he
      exact ⟨rfl, rfl, rfl⟩
    next => cases he
  | _ =>
    simp only [Command.effect] at he
    repeat' split at he
    all_goals cases he
    all_goals exact ⟨rfl, rfl, rfl⟩

theorem Command.effect_grows (hc : c.adds = true) (he : c.effect w = some w') : Grows w w' := by
  cases c with
  | linkAdd =>
    simp only [Command.effect] at he
    split at he
    next hnone =>
      cases he
      exact { Grows.refl w with link := fun l hl => by rw [hnone] at hl; cases hl }
    next => cases he
  | wgSetconf path =>
    simp only [Command.effect] at he
    split at he
    next l bytes hl _ =>
      cases he
      refine { Grows.refl w with link := ?_ }
      intro l' hl'
      cases hl.symm.trans hl'
      exact ⟨_, rfl, List.Subset.refl _, id, fun _ => rfl⟩
    next => cases he
  | addressAdd addr =>
    simp only [Command.effect] at he
    split at he
    next l hl =>
      split at he
      next => cases he
      next =>
        cases he
        refine { Grows.refl w with link := ?_ }
        intro l' hl'
        cases hl.symm.trans hl'
        exact ⟨_, rfl, List.subset_append_left _ _, id, id⟩
    next => cases he
  | linkSetUp mtu =>
    simp only [Command.effect] at he
    split at he
    next l hl =>
      cases he
      refine { Grows.refl w with link := ?_ }
      intro l' hl'
      cases hl.symm.trans hl'
      exact ⟨_, rfl, List.Subset.refl _, fun _ => rfl, id⟩
    next => cases he
  | routeAddDefault =>
    simp only [Command.effect] at he
    split at he
    next =>
      split at he
      next =>
        cases he
        exact { Grows.refl w with defaultRoute := fun _ => rfl }
      next => cases he
    next => cases he
  | routeAddUnreachable =>
    simp only [Command.effect] at he
    split at he
    next => cases he
    next =>
      cases he
      exact { Grows.refl w with unreachable := fun _ => rfl }
  | routeAddUnreachable6 =>
    simp only [Command.effect] at he
    split at he
    next => cases he
    next =>
      cases he
      exact { Grows.refl w with unreachable6 := fun _ => rfl }
  | ruleAdd =>
    cases he
    exact { Grows.refl w with rules := Nat.le_succ _ }
  | ruleAdd6 =>
    cases he
    exact { Grows.refl w with rules6 := Nat.le_succ _ }
  | nftLoad path =>
    simp only [Command.effect] at he
    split at he
    next =>
      obtain ⟨new, -, rfl⟩ := Option.map_eq_some_iff.mp he
      exact { Grows.refl w with }
    next => cases he
  | _ => cases hc

/-! ### What a step makes -/

def Made (w : World) : Command → Prop
  | .linkAdd => w.link.isSome
  | .wgSetconf _ => ∃ l, w.link = some l ∧ l.conf.isSome
  | .addressAdd addr => ∃ l, w.link = some l ∧ addr ∈ l.addresses
  | .linkSetUp _ => ∃ l, w.link = some l ∧ l.up = true
  | .routeAddDefault => w.defaultRoute = true
  | .routeAddUnreachable => w.unreachable = true
  | .ruleAdd => 0 < w.rules
  | .routeAddUnreachable6 => w.unreachable6 = true
  | .ruleAdd6 => 0 < w.rules6
  | _ => True

theorem Made.mono (hg : Grows w w') (hm : Made w c) : Made w' c := by
  cases c with
  | linkAdd =>
    obtain ⟨l, hl⟩ := Option.isSome_iff_exists.mp hm
    obtain ⟨l', hl', -⟩ := hg.link l hl
    exact Option.isSome_iff_exists.mpr ⟨l', hl'⟩
  | wgSetconf path =>
    obtain ⟨l, hl, hconf⟩ := hm
    obtain ⟨l', hl', -, -, hconf'⟩ := hg.link l hl
    exact ⟨l', hl', hconf' hconf⟩
  | addressAdd addr =>
    obtain ⟨l, hl, haddr⟩ := hm
    obtain ⟨l', hl', haddr', -⟩ := hg.link l hl
    exact ⟨l', hl', haddr' haddr⟩
  | linkSetUp mtu =>
    obtain ⟨l, hl, hup⟩ := hm
    obtain ⟨l', hl', -, hup', -⟩ := hg.link l hl
    exact ⟨l', hl', hup' hup⟩
  | routeAddDefault => exact hg.defaultRoute hm
  | routeAddUnreachable => exact hg.unreachable hm
  | ruleAdd => exact Nat.lt_of_lt_of_le hm hg.rules
  | routeAddUnreachable6 => exact hg.unreachable6 hm
  | ruleAdd6 => exact Nat.lt_of_lt_of_le hm hg.rules6
  | _ => trivial

theorem Command.effect_made (he : c.effect w = some w') : Made w' c := by
  cases c with
  | ruleAdd =>
    cases he
    exact Nat.succ_pos _
  | ruleAdd6 =>
    cases he
    exact Nat.succ_pos _
  | nftLoad | nftDelete | ruleDel | ruleDel6 | routeFlush | routeFlush6 | linkDel => trivial
  | wgSetconf path | linkSetUp mtu =>
    simp only [Command.effect] at he
    split at he <;> cases he
    exact ⟨_, rfl, rfl⟩
  | addressAdd addr =>
    simp only [Command.effect] at he
    repeat' split at he
    all_goals cases he
    exact ⟨_, rfl, List.mem_append_right _ List.mem_cons_self⟩
  | linkAdd | routeAddDefault | routeAddUnreachable | routeAddUnreachable6 =>
    simp only [Command.effect] at he
    repeat' split at he
    all_goals cases he
    all_goals rfl

/-! ### Running one of them -/

variable {s : Step} {E : Env Op Op.Ret World} {I : World → Prop}

theorem keeps_run (hw : I w) (hI : ∀ out t, E (.exec s.command) w out t → I t) :
    (ExceptT.run (run s)).Keeps E I
      (fun r t => ∃ out, E (.exec s.command) w out t ∧ r = settle s out) w := by
  apply Fallible.keeps_sys_bind hw
  intro out t he
  exact Prog.keeps_pure (hI out t he) ⟨out, he, rfl⟩

theorem settle_cases {out : Output} {t : World} (h : (Op.exec s.command).answers w out t) :
    (t = w ∧ (settle s out = .ok () → s.optional = true)) ∨
      (s.command.effect w = some t ∧ settle s out = .ok ()) := by
  rcases h with ⟨rfl, hr⟩ | ⟨⟨stderr, rfl⟩, he⟩
  · refine .inl ⟨rfl, fun hok => ?_⟩
    match out with
    | .notSpawned _ => cases hok
    | .exited true stderr => exact absurd rfl (hr stderr)
    | .exited false stderr =>
      simp only [settle] at hok
      split at hok
      next hopt => exact hopt
      next => cases hok
  · exact .inr ⟨he, rfl⟩

end Detour.Tunnel
