import Detour.Tunnel.Steps

/-! What is left after `down`. -/

namespace Detour.Tunnel

open Atomic Detour.Rust Detour.ResolvConf

variable {w w' : World} {c : Command} {I : World → Prop}

/-! ### An environment that can be relied on -/

def Command.HasObject (w : World) : Command → Prop
  | .nftDelete family table => (w.tables (family, table)).isSome
  | .ruleDel => 0 < w.rules
  | .ruleDel6 => 0 < w.rules6
  | .routeFlush => w.defaultRoute = true ∨ w.unreachable = true
  | .routeFlush6 => w.unreachable6 = true
  | .linkDel => w.link.isSome
  | _ => False

def Command.HasIpv6 (w : World) (c : Command) : Prop :=
  (c = .routeAddUnreachable6 ∨ c = .ruleAdd6) ∧ w.ipv6 = true ∧ (c.effect w).isSome

/-- A deletion succeeds when its object is there, and a step of IPv6 where IPv6 is enabled. -/
def dependable : Env Op Op.Ret World := fun o w r w' =>
  o.answers w r w' ∧ match o, r with
    | .exec c, r => c.HasObject w ∨ c.HasIpv6 w → ∃ stderr, r = .exited true stderr
    | _, _ => True

/-! ### One step -/

def Command.deletes : Command → Bool
  | .nftDelete _ _ | .ruleDel | .ruleDel6 | .routeFlush | .routeFlush6 | .linkDel => true
  | _ => false

def Command.clear (w : World) (c : Command) : World := (c.effect w).getD w

theorem Command.effect_of_not_hasObject (hc : c.deletes = true) (ho : ¬c.HasObject w) :
    c.clear w = w := by
  cases c with
  | nftDelete family table =>
    have hnone : ¬(w.tables (family, table)).isSome = true := ho
    simp [Command.clear, Command.effect, hnone]
  | ruleDel =>
    have hnone : ¬0 < w.rules := ho
    simp [Command.clear, Command.effect, hnone]
  | ruleDel6 =>
    have hnone : ¬0 < w.rules6 := ho
    simp [Command.clear, Command.effect, hnone]
  | routeFlush =>
    have hnone : ¬(w.defaultRoute = true ∨ w.unreachable = true) := ho
    simp only [not_or, Bool.not_eq_true] at hnone
    simp [Command.clear, Command.effect, World.ext_iff, hnone.1, hnone.2]
  | routeFlush6 =>
    have hnone : ¬w.unreachable6 = true := ho
    simp only [Bool.not_eq_true] at hnone
    simp [Command.clear, Command.effect, World.ext_iff, hnone]
  | linkDel =>
    have hnone : w.link = none := Option.not_isSome_iff_eq_none.mp ho
    simp [Command.clear, Command.effect, hnone]
  | _ => cases hc

theorem dependable_deletes {r : Output} (hc : c.deletes = true)
    (h : dependable (.exec c) w r w') : w' = c.clear w := by
  obtain ⟨⟨rfl, hr⟩ | ⟨-, he⟩, hsure⟩ := h
  · refine (Command.effect_of_not_hasObject hc fun ho => ?_).symm
    obtain ⟨stderr, hs⟩ := hsure (.inl ho)
    exact hr stderr hs
  · rw [Command.clear, he]
    rfl

theorem keeps_tryRun {s : Step} (hc : s.command.deletes = true) (hw : I w)
    (hw' : I (s.command.clear w)) :
    (tryRun s).Keeps dependable I (fun _ t => t = s.command.clear w) w := by
  have hgone : ∀ out t, dependable (.exec s.command) w out t → t = s.command.clear w :=
    fun out t h => dependable_deletes hc h
  apply (keeps_run hw fun out t h => hgone out t h ▸ hw').bind
  rintro _ t hi ⟨out, h, -⟩
  exact Prog.keeps_pure hi (hgone out t h)

/-! ### The whole -/

theorem keeps_forEach {ss : List Step} (hc : ∀ s ∈ ss, s.command.deletes = true)
    (hi : ∀ ds, ds <+: ss → I (ds.foldl (fun u s => s.command.clear u) w)) :
    (Prog.forEach tryRun ss).Keeps dependable I
      (fun _ t => t = ss.foldl (fun u s => s.command.clear u) w) w := by
  induction ss generalizing w with
  | nil => exact Prog.keeps_pure (hi [] List.nil_prefix) rfl
  | cons s ss ih =>
    rw [forall_prefix_cons] at hi
    apply (keeps_tryRun (hc s List.mem_cons_self) hi.1 (hi.2 [] List.nil_prefix)).bind
    rintro _ t - rfl
    exact ih (fun s' hs' => hc s' (List.mem_cons_of_mem _ hs')) hi.2

def World.cleared (w : World) : World := { w with
  link := none
  defaultRoute := false
  unreachable := false
  unreachable6 := false
  rules := 0
  rules6 := 0
  tables := Function.update w.tables tunnelKey none }

/-- Packets are marked only while there is a rule for them and a route of last resort, of IPv6
too where there is IPv6. -/
def Guarded (w : World) : Prop := (w.tables tunnelKey).isSome →
  (0 < w.rules ∧ w.unreachable = true) ∧ (w.ipv6 = true → 0 < w.rules6 ∧ w.unreachable6 = true)

structure Beside (w t : World) : Prop where
  ipv6 : t.ipv6 = w.ipv6
  cgroups : t.cgroups = w.cgroups
  tables : ∀ key, key ≠ tunnelKey → t.tables key = w.tables key

/-! What each deletion leaves. -/

theorem clear_nftDelete (family : Nft.Family) (table : String) :
    Command.clear w (.nftDelete family table) =
      { w with tables := Function.update w.tables (family, table) none } := by
  by_cases ht : (w.tables (family, table)).isSome
  · simp [Command.clear, Command.effect, ht]
  · have hnone : w.tables (family, table) = none := Option.not_isSome_iff_eq_none.mp ht
    have hsame : Function.update w.tables (family, table) none = w.tables := by
      rw [← hnone, Function.update_eq_self]
    simp [Command.clear, Command.effect, hnone, hsame]

theorem clear_ruleDel : Command.clear w .ruleDel = { w with rules := w.rules - 1 } := by
  by_cases h : 0 < w.rules
  · simp [Command.clear, Command.effect, h]
  · simp [Command.clear, Command.effect, World.ext_iff, Nat.eq_zero_of_not_pos h]

theorem clear_ruleDel6 : Command.clear w .ruleDel6 = { w with rules6 := w.rules6 - 1 } := by
  by_cases h : 0 < w.rules6
  · simp [Command.clear, Command.effect, h]
  · simp [Command.clear, Command.effect, World.ext_iff, Nat.eq_zero_of_not_pos h]

theorem clear_routeFlush :
    Command.clear w .routeFlush = { w with defaultRoute := false, unreachable := false } := rfl

theorem clear_routeFlush6 :
    Command.clear w .routeFlush6 = { w with unreachable6 := false } := rfl

theorem clear_linkDel (hd : w.defaultRoute = false) :
    Command.clear w .linkDel = { w with link := none } := by
  cases hl : w.link with
  | none => simp [Command.clear, Command.effect, World.ext_iff, hl]
  | some l => simp [Command.clear, Command.effect, hl, hd]

theorem guarded_of_unmarked (h : w.tables tunnelKey = none) : Guarded w := by
  intro hsome
  rw [h] at hsome
  cases hsome

theorem Beside.refl (w : World) : Beside w w := ⟨rfl, rfl, fun _ _ => rfl⟩

theorem Beside.trans {a b c : World} (h : Beside a b) (h' : Beside b c) : Beside a c where
  ipv6 := h'.ipv6.trans h.ipv6
  cgroups := h'.cgroups.trans h.cgroups
  tables key hk := (h'.tables key hk).trans (h.tables key hk)

/-- With one rule at most of each kind, `down` leaves nothing of the tunnel. -/
theorem keeps_down (hg : Guarded w) (h4 : w.rules ≤ 1) (h6 : w.rules6 ≤ 1) :
    down.Keeps dependable (fun t => Guarded t ∧ Beside w t) (fun _ t => t = w.cleared) w := by
  have hend : downSteps.foldl (fun u s => s.command.clear u) w = w.cleared := by
    simp only [downSteps, optional, List.foldl_cons, List.foldl_nil, clear_nftDelete,
      clear_ruleDel, clear_ruleDel6, clear_routeFlush, clear_routeFlush6]
    rw [clear_linkDel rfl, World.cleared]
    simp only [Nat.sub_eq_zero_of_le h4, Nat.sub_eq_zero_of_le h6]
    rfl
  rw [← hend]
  apply keeps_forEach (by decide)
  simp only [downSteps, optional, forall_prefix_cons, forall_prefix_nil, List.foldl_cons,
    List.foldl_nil, clear_nftDelete, clear_ruleDel, clear_ruleDel6, clear_routeFlush,
    clear_routeFlush6]
  have hgone : Function.update w.tables tunnelKey none tunnelKey = none := Function.update_self ..
  have hothers : ∀ key, key ≠ tunnelKey →
      Function.update w.tables tunnelKey none key = w.tables key :=
    fun key hk => Function.update_of_ne hk ..
  -- the table goes first, and after it there is nothing to guard
  refine ⟨⟨hg, Beside.refl w⟩, ?_, ?_, ?_, ?_, ?_, ?_⟩
  all_goals try rw [clear_linkDel rfl]
  all_goals exact ⟨guarded_of_unmarked hgone, rfl, rfl, hothers⟩

end Detour.Tunnel
