import Detour.Gui.Slice

/-! When an app that was launched in the slice is in the cgroup that the rules name. -/

namespace Detour.Gui

open Atomic Detour.Rust Detour.Tunnel

/-! ### Runs -/

inductive GuiCall
  | tunnelUp
  | tunnelDown
  | filterRouteOn
  | filterRouteOff
  | launchInTunnel (app : Text)

def GuiCall.prog : GuiCall → GuiM String
  | .tunnelUp => Gui.tunnelUp
  | .tunnelDown => Gui.tunnelDown
  | .filterRouteOn => Gui.filterRouteOn
  | .filterRouteOff => Gui.filterRouteOff
  | .launchInTunnel app => Gui.launchInTunnel app

variable {uid : UInt32} {d e : Desktop} {w t : World} {m : Member} {g : CgroupId}

structure Fresh (uid : UInt32) (d : Desktop) : Prop where
  clean : Clean d.world
  filter : d.world.tables FilterRoute.filterKey = none
  members : d.members = []
  cgroups : d.world.cgroups (slicePath uid) = none
  filterHeld : d.filterHeld = false

/-- The states between the calls; anything in the slice may exit. -/
inductive Reached (uid : UInt32) : Desktop → Prop
  | boot {d : Desktop} : Fresh uid d → Reached uid d
  | call {d e : Desktop} {c : GuiCall} {r : Except String String} :
    Reached uid d → Prog.Visits (gui uid) (ExceptT.run c.prog) d (.done r) e → Reached uid e
  | exit {d : Desktop} (m : Member) : Reached uid d → Reached uid (d.keepOnly uid (· ≠ m))

theorem Fresh.inv (h : Fresh uid d) : Inv uid d where
  settled := by
    refine ⟨h.clean.tidy, ?_, FilterRoute.filterSane_of_none h.filter⟩
    intro t ht
    rw [h.clean.tables] at ht
    cases ht
  empty := iff_of_true h.members h.cgroups
  next := by
    rw [h.cgroups]
    nofun
  up := by
    rw [h.clean.link]
    nofun
  tunnel := by
    rw [h.clean.tables]
    nofun
  filter := by
    rw [h.filter]
    nofun
  held := by
    rw [h.filterHeld]
    nofun
  root _ := h.filter

theorem keeps_inv {p : Prog GuiOp GuiOp.Ret α} (h : Inv uid d) :
    p.Keeps (gui uid) (Inv uid) (fun _ => Inv uid) d :=
  Prog.keeps_of_all p.all_true (fun _ _ _ _ _ hi he => hi.step he) h

theorem Reached.inv (h : Reached uid d) : Inv uid d := by
  induction h with
  | boot hf => exact hf.inv
  | call _ hv ih => exact (Prog.keeps_iff.mp (keeps_inv ih) _ _ hv).1
  | exit m _ ih => exact ih.keepOnly _

/-! ### A launch -/

structure SameRules (d e : Desktop) : Prop where
  tables : e.world.tables = d.world.tables
  filterOn : e.filterOn = d.filterOn
  tunnelHeld : e.tunnelHeld = d.tunnelHeld
  filterHeld : e.filterHeld = d.filterHeld

theorem SameRules.refl (d : Desktop) : SameRules d d := ⟨rfl, rfl, rfl, rfl⟩

theorem SameRules.enter {c : Desktop} (h : SameRules c d) (m : Member) :
    SameRules c (d.enter uid m) := by
  unfold Desktop.enter
  split
  next => exact ⟨h.tables, h.filterOn, h.tunnelHeld, h.filterHeld⟩
  next => exact ⟨h.tables, h.filterOn, h.tunnelHeld, h.filterHeld⟩

theorem mem_enter (d : Desktop) (m : Member) : m ∈ (d.enter uid m).members := by
  unfold Desktop.enter
  split
  next => exact List.mem_singleton_self m
  next => exact List.mem_cons_self

theorem mem_enter_of_mem {m' : Member} (h : m' ∈ d.members) : m' ∈ (d.enter uid m).members := by
  unfold Desktop.enter
  rw [if_neg (List.ne_nil_of_mem h)]
  exact List.mem_cons_of_mem m h

structure Anchored (c d : Desktop) : Prop where
  same : SameRules c d
  anchor : .anchor ∈ d.members

theorem Anchored.enter {c : Desktop} (h : Anchored c d) (m : Member) :
    Anchored c (d.enter uid m) := ⟨h.same.enter m, mem_enter_of_mem h.anchor⟩

theorem Anchored.keepOnly {c : Desktop} (h : Anchored c d) {keep : Member → Bool}
    (hk : keep .anchor = true) : Anchored c (d.keepOnly uid keep) := by
  have hmem : .anchor ∈ d.members.filter keep := List.mem_filter.mpr ⟨h.anchor, hk⟩
  unfold Desktop.keepOnly
  rw [if_neg (List.ne_nil_of_mem hmem)]
  exact ⟨⟨h.same.tables, h.same.filterOn, h.same.tunnelHeld, h.same.filterHeld⟩, hmem⟩

def GuiOp.Launching : GuiOp → Prop
  | .helper _ | .stopAnchor => False
  | _ => True

theorem Anchored.moved {c : Desktop} {K : (Member → Bool) → Prop}
    (hK : ∀ keep, K keep → keep .anchor = true) (h : Anchored c d) (hm : Moved uid K d e) :
    Anchored c e := by
  induction hm with
  | refl => exact h
  | enter m _ ih => exact ih.enter m
  | keepOnly hk _ ih => exact ih.keepOnly (hK _ hk)

theorem Anchored.step {c : Desktop} {o : GuiOp} {r : o.Ret} (ho : o.Launching)
    (h : Anchored c d) (he : gui uid o d r e) : Anchored c e := by
  rcases gui_cases he with hm | ⟨c, config, success, w, rfl, -⟩
  · refine h.moved (fun keep hk => hk.resolve_left ?_) hm
    rintro rfl
    exact ho
  · cases ho

/-! What follows the checks. -/

theorem keeps_ensureAnchor (d : Desktop) :
    (ExceptT.run ensureAnchor).Keeps (gui uid) (SameRules d)
      (Fallible.Goes (fun _ => Anchored d) fun (_ : Except String String) => SameRules d) d := by
  refine Fallible.keeps_sys_bind (SameRules.refl d) ?_
  rintro active _ ⟨rfl, hactive⟩
  cases active with
  | true => exact ⟨.refl _, .refl _, hactive rfl⟩
  | false =>
    refine Fallible.keeps_sys_bind (.refl _) ?_
    rintro (_ | _) e he
    · obtain rfl : e = _ := he
      exact ⟨.refl _, .refl _⟩
    · obtain ⟨-, rfl⟩ := he
      exact ⟨SameRules.enter (.refl _) _, SameRules.enter (.refl _) _, mem_enter _ _⟩

theorem keeps_launchInside (d : Desktop) (entry : TunnelApp) (label : String) :
    (ExceptT.run (launchInside entry label)).Keeps (gui uid) (SameRules d)
      (fun _ => SameRules d) d := by
  apply Fallible.keeps_bind (keeps_ensureAnchor d)
  intro _ e _ he
  have hanchored : ∀ (o : GuiOp) (t : Desktop) (r : o.Ret) (t' : Desktop), o.Launching →
      Anchored d t → gui uid o t r t' → Anchored d t' := fun o t r t' ho h hs => h.step ho hs
  refine (Prog.keeps_of_all ?_ hanchored he).mono (fun _ h => h.same) fun _ _ h => h.same
  apply Fallible.all_bind (Fallible.all_lift (all_pruneIdleHolds trivial fun _ => trivial))
  intro _
  split
  next => exact all_launchFlatpak trivial trivial trivial trivial label
  next => exact all_launchScope trivial label

theorem keeps_launchInTunnel (d : Desktop) (app : Text) :
    (ExceptT.run (launchInTunnel app)).Keeps (gui uid) (SameRules d)
      (fun r e => SameRules d e ∧ ∀ msg, r = .ok msg → d.world.link.isSome) d := by
  refine Fallible.keeps_sys_bind (.refl d) ?_
  rintro found _ rfl
  match found with
  | .error why => exact ⟨.refl _, .refl _, nofun⟩
  | .ok none => exact ⟨.refl _, .refl _, nofun⟩
  | .ok (some entry) =>
    refine Fallible.keeps_sys_bind (.refl _) ?_
    rintro up e ⟨rfl, hup⟩
    cases up with
    | false => exact ⟨.refl _, .refl _, nofun⟩
    | true =>
      have hlink := hup.mp rfl
      refine Fallible.keeps_sys_bind (.refl _) ?_
      rintro ⟨inside, outside⟩ _ rfl
      cases outside with
      | true => exact ⟨.refl _, .refl _, nofun⟩
      | false =>
        cases inside with
        | true => exact ⟨.refl _, .refl _, fun _ _ => hlink⟩
        | false =>
          exact (keeps_launchInside _ entry _).mono (fun _ h => h)
            fun _ _ h => ⟨h, fun _ _ => hlink⟩

/-! ### Coverage -/

def Desktop.cgroupOf (uid : UInt32) (d : Desktop) (m : Member) : Option CgroupId :=
  if m ∈ d.members then d.world.cgroups (slicePath uid) else none

/-- The rules match what is in a cgroup, the redirect when it was asked for last. -/
def Desktop.Covers (d : Desktop) (g : CgroupId) : Prop :=
  FilterRoute.TunnelUp d.world g ∧ (d.filterOn → ∃ port,
    d.world.tables FilterRoute.filterKey = some (FilterRoute.filterTable g port))

theorem Inv.tunnelUp_iff (h : Inv uid d) (hup : (d.world.tables tunnelKey).isSome)
    (hg : d.world.cgroups (slicePath uid) = some g) :
    FilterRoute.TunnelUp d.world g ↔ d.tunnelHeld := by
  obtain ⟨t, ht⟩ := Option.isSome_iff_exists.mp hup
  obtain ⟨g', rfl, -, hheld⟩ := h.tunnel t ht
  rw [hheld, hg, Option.some.injEq]
  constructor
  · rintro ⟨gs, heq, hmem⟩
    exact tunnelTable_singleton g (Option.some.inj (ht.symm.trans heq)) hmem
  · rintro rfl
    exact ⟨[g], ht, List.mem_singleton_self g⟩

theorem Inv.redirect_iff (h : Inv uid d) (hg : d.world.cgroups (slicePath uid) = some g) :
    (∃ port, d.world.tables FilterRoute.filterKey = some (FilterRoute.filterTable g port)) ↔
      d.filterHeld := by
  constructor
  · rintro ⟨port, ht⟩
    obtain ⟨g', port', heq, -, hheld⟩ := h.filter _ ht
    obtain ⟨rfl, -⟩ := FilterRoute.filterTable_inj.mp heq
    exact hheld.mpr hg
  · intro hh
    obtain ⟨t, ht⟩ := Option.isSome_iff_exists.mp (h.held hh)
    obtain ⟨g', port, rfl, -, hheld⟩ := h.filter t ht
    cases hg.symm.trans (hheld.mp hh)
    exact ⟨port, ht⟩

theorem Inv.covers_iff (h : Inv uid d) (hup : (d.world.tables tunnelKey).isSome)
    (hm : m ∈ d.members) : (∃ g, d.cgroupOf uid m = some g ∧ d.Covers g) ↔
      d.tunnelHeld ∧ (d.filterOn → d.filterHeld) := by
  have hne : d.world.cgroups (slicePath uid) ≠ none := by
    intro hnone
    rw [h.empty.mpr hnone] at hm
    cases hm
  obtain ⟨g, hg⟩ := Option.ne_none_iff_exists'.mp hne
  rw [Desktop.cgroupOf, if_pos hm, hg]
  simp only [Option.some.injEq, exists_eq_left', Desktop.Covers, h.tunnelUp_iff hup hg,
    h.redirect_iff hg]

/-- Where a launch returns, an app in the slice is covered exactly if the slice has been held
since the rules were loaded. -/
theorem launch_covered_iff (hd : Reached uid d) {app : Text} {msg : String}
    (hv : Prog.Visits (gui uid) (ExceptT.run (launchInTunnel app)) d (.done (.ok msg)) e)
    {pid : Nat} {hold : Option Text} (hm : .app pid hold ∈ e.members) :
    (∃ g, e.cgroupOf uid (.app pid hold) = some g ∧ e.Covers g) ↔
      d.tunnelHeld ∧ (d.filterOn → d.filterHeld) := by
  have hinv : Inv uid e := (Reached.call (c := .launchInTunnel app) hd hv).inv
  obtain ⟨-, hend⟩ := Prog.keeps_iff.mp (keeps_launchInTunnel d app) _ _ hv
  obtain ⟨⟨htables, hon, htunnel, hfilter⟩, hlink⟩ := hend _ rfl
  have hup : (e.world.tables tunnelKey).isSome := by
    rw [htables]
    exact hd.inv.up (hlink msg rfl)
  rw [hinv.covers_iff hup hm, hon, htunnel, hfilter]

/-! ### Runs in which everything succeeds -/

def plainApp : TunnelApp := ⟨"curl".toList, "curl".toList, [], none⟩

def obligingGui (uid : UInt32) : Handler GuiOp GuiOp.Ret Desktop
  | .configExists, d => (.ok true, d)
  | .isActive, d => (decide (.anchor ∈ d.members), d)
  | .runAnchor, d =>
    if .anchor ∈ d.members then (.error "", d) else (.ok (), d.enter uid .anchor)
  | .helper c, d =>
    (if ((c.prog uid plainConfig).run obliging d.world).1 then .ok "" else .error "",
      d.record ((c.prog uid plainConfig).run obliging d.world).1
        ((c.prog uid plainConfig).run obliging d.world).2 c)
  | .stopAnchor, d => ((), d.keepOnly uid (· ≠ .anchor))
  | .idleHolds, d => ([], d)
  | .stopUnit unit, d => ((), d.keepOnly uid (Member.outside unit))
  | .filterRunning, d => (true, d)
  | .tunnelApp _, d => (.ok (some plainApp), d)
  | .isUp, d => (d.world.link.isSome, d)
  | .presence _, d => (⟨false, false⟩, d)
  | .holdExists unit, d => (decide (.hold unit ∈ d.members), d)
  | .runHold _, d => (.ok (), d)
  | .spawn _, d => (.ok (), d)
  | .captureFlatpak _ _, d => (.ok 0, d)
  | .runScope _, d =>
    if d.members.any (fun m => m matches .app 1000 _) then (.error "", d)
    else (.ok (), d.enter uid (.app 1000 none))

theorem obligingGui_gui (o : GuiOp) (d : Desktop) :
    gui uid o d (obligingGui uid o d).1 (obligingGui uid o d).2 := by
  cases o with
  | isActive => exact ⟨rfl, of_decide_eq_true⟩
  | runAnchor =>
    rw [obligingGui]
    by_cases hthere : .anchor ∈ d.members
    · rw [if_pos hthere]
      rfl
    · rw [if_neg hthere]
      exact ⟨hthere, rfl⟩
  | helper c =>
    refine .inr ⟨plainConfig, _, _, Prog.visits_run obliging_dependable _ _, ?_, rfl⟩
    rw [obligingGui]
    cases ((c.prog uid plainConfig).run obliging d.world).1 <;> rfl
  | stopAnchor => exact .inr rfl
  | idleHolds => exact ⟨rfl, nofun⟩
  | stopUnit unit => exact .inr rfl
  | isUp => exact ⟨rfl, Iff.rfl⟩
  | holdExists unit => exact .inl ⟨rfl, decide_eq_true_iff⟩
  | captureFlatpak id unit => exact ⟨[], rfl, fun n hn => (Except.ok.inj hn).symm⟩
  | runScope entry =>
    rw [obligingGui]
    by_cases hthere : d.members.any (fun m => m matches .app 1000 _) = true
    · rw [if_pos hthere]
      exact .inl rfl
    · rw [if_neg hthere]
      refine .inr ⟨1000, rfl, fun h hmem => hthere ?_, rfl⟩
      exact List.any_eq_true.mpr ⟨_, hmem, rfl⟩
  | configExists | filterRunning | tunnelApp app | presence entry | runHold unit | spawn entry =>
    rfl

def freshDesktop : Desktop where
  world := { freshWorld with cgroups := fun _ => none }
  members := []
  next := 1
  filterOn := false
  tunnelHeld := false
  filterHeld := false

def afterCalls (cs : List GuiCall) : Desktop :=
  cs.foldl (fun d c => ((ExceptT.run c.prog).run (obligingGui 1000) d).2) freshDesktop

theorem reached_foldl (hd : Reached uid d) (cs : List GuiCall) : Reached uid
    (cs.foldl (fun d c => ((ExceptT.run c.prog).run (obligingGui uid) d).2) d) := by
  induction cs generalizing d with
  | nil => exact hd
  | cons c cs ih => exact ih (.call hd (Prog.visits_run obligingGui_gui _ _))

theorem reached_afterCalls (cs : List GuiCall) : Reached 1000 (afterCalls cs) :=
  reached_foldl (.boot ⟨⟨rfl, rfl, rfl, rfl, rfl, rfl, rfl⟩, rfl, rfl, rfl, rfl⟩) cs

def launch (d : Desktop) : Except String String × Desktop :=
  (ExceptT.run (launchInTunnel plainApp.name)).run (obligingGui 1000) d

theorem visits_launch (d : Desktop) : Prog.Visits (gui 1000)
    (ExceptT.run (launchInTunnel plainApp.name)) d (.done (launch d).1) (launch d).2 :=
  Prog.visits_run obligingGui_gui _ _

theorem plain_covered : (∃ g, (launch (afterCalls [.tunnelUp])).2.cgroupOf 1000 (.app 1000 none) =
      some g ∧ (launch (afterCalls [.tunnelUp])).2.Covers g) ↔
    (afterCalls [.tunnelUp]).tunnelHeld ∧
      ((afterCalls [.tunnelUp]).filterOn → (afterCalls [.tunnelUp]).filterHeld) := by
  have hok : (launch (afterCalls [.tunnelUp])).1 = .ok "Launched curl inside the tunnel." := by
    decide +kernel
  have hv := visits_launch (afterCalls [.tunnelUp])
  rw [hok] at hv
  exact launch_covered_iff (reached_afterCalls _) hv (by decide +kernel)

def restarted : Desktop := afterCalls [.tunnelUp, .filterRouteOn, .tunnelDown, .tunnelUp]

/-- The tunnel goes down and up again while the redirect stays: that names the slice that went with
the anchor. -/
theorem restarted_uncovered : ¬∀ (uid : UInt32) (d e : Desktop) (app : Text) (msg : String)
    (pid : Nat) (hold : Option Text), Reached uid d →
    Prog.Visits (gui uid) (ExceptT.run (launchInTunnel app)) d (.done (.ok msg)) e →
    .app pid hold ∉ d.members → .app pid hold ∈ e.members →
    ∃ g, e.cgroupOf uid (.app pid hold) = some g ∧ e.Covers g := by
  intro hall
  have hok : (launch restarted).1 = .ok "Launched curl inside the tunnel." := by decide +kernel
  have hv := visits_launch restarted
  rw [hok] at hv
  have hmem : .app 1000 none ∈ (launch restarted).2.members := by decide +kernel
  have hcovers := hall 1000 restarted _ _ _ 1000 none (reached_afterCalls _) hv
    (by decide +kernel) hmem
  have hinv : Inv 1000 (launch restarted).2 :=
    (Reached.call (c := .launchInTunnel plainApp.name) (reached_afterCalls _) hv).inv
  have hheld := (hinv.covers_iff (by decide +kernel) hmem).mp hcovers
  exact absurd hheld (by decide +kernel)

end Detour.Gui
