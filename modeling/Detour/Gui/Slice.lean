import Detour.Gui.Commands

/-! The slice while the commands of the control panel run: what is in it, which cgroup it is, and
which cgroup the loaded rules name. -/

namespace Detour.Gui

open Atomic Detour.Rust Detour.Tunnel

inductive Member
  | anchor
  | hold (unit : Text)
  | app (pid : Nat) (hold : Option Text)
  deriving DecidableEq

structure Desktop where
  world : World
  members : List Member
  /-- The cgroup that the slice gets the next time it is created. -/
  next : CgroupId
  /-- The last thing the helper was asked to do about the redirect was to put it up. -/
  filterOn : Bool
  /-- The rule that marks is loaded, and something has been in the slice ever since. -/
  tunnelHeld : Bool
  /-- The redirect is loaded, and something has been in the slice ever since. -/
  filterHeld : Bool

variable (uid : UInt32)

def slicePath : String := (sliceCgroup uid).1

def Desktop.create (d : Desktop) (m : Member) : Desktop := { d with
  members := [m]
  world := { d.world with
    cgroups := Function.update d.world.cgroups (slicePath uid) (some d.next) }
  next := d.next + 1 }

def Desktop.vanish (d : Desktop) : Desktop := { d with
  members := []
  world := { d.world with cgroups := Function.update d.world.cgroups (slicePath uid) none }
  tunnelHeld := false
  filterHeld := false }

def Desktop.enter (d : Desktop) (m : Member) : Desktop :=
  if d.members = [] then d.create uid m else { d with members := m :: d.members }

def Desktop.keepOnly (d : Desktop) (keep : Member → Bool) : Desktop :=
  if d.members.filter keep = [] then d.vanish uid
  else { d with members := d.members.filter keep }

/-! ### What may be answered -/

def HelperCall.prog (config : WgConfig) : HelperCall → Prog Op Op.Ret Bool
  | .tunnelUp => (Call.up config uid "/run/detour").prog >>= fun r => pure r.isOk
  | .tunnelDown => Call.down.prog >>= fun _ => pure true
  | .filterUp port => ExceptT.run (FilterRoute.up uid port) >>= fun r => pure r.isOk
  | .filterDown => FilterRoute.down >>= fun _ => pure true

def Desktop.record (d : Desktop) (success : Bool) (w : World) : HelperCall → Desktop
  | .tunnelUp => { d with world := w, tunnelHeld := success }
  | .tunnelDown => { d with world := w, tunnelHeld := false }
  | .filterUp _ => { d with world := w, filterOn := true, filterHeld := success }
  | .filterDown => { d with world := w, filterOn := false, filterHeld := false }

def Member.outside (unit : Text) : Member → Bool
  | .anchor => true
  | .hold u => u ≠ unit
  | .app _ h => h ≠ some unit

def gui : Env GuiOp GuiOp.Ret Desktop
  | .isActive, d, r, d' => d' = d ∧ (r = true → .anchor ∈ d.members)
  | .runAnchor, d, .ok (), d' => .anchor ∉ d.members ∧ d' = d.enter uid .anchor
  | .runAnchor, d, .error _, d' => d' = d
  -- it may not come to run, as when authentication is cancelled
  | .helper c, d, r, d' => (r.isOk = false ∧ d' = d) ∨ ∃ config success w,
    Prog.Visits dependable (c.prog uid config) d.world (.done success) w ∧
      r.isOk = success ∧ d' = d.record success w c
  | .stopAnchor, d, _, d' => d' = d ∨ d' = d.keepOnly uid (· ≠ .anchor)
  | .idleHolds, d, r, d' => d' = d ∧
    ∀ unit ∈ r, .hold unit ∈ d.members ∧ ∀ pid, .app pid (some unit) ∉ d.members
  | .stopUnit unit, d, _, d' => d' = d ∨ d' = d.keepOnly uid (Member.outside unit)
  | .isUp, d, r, d' => d' = d ∧ (r = true ↔ d.world.link.isSome)
  -- a scope that was asked for may come at any time
  | .holdExists unit, d, r, d' => (d' = d ∧ (r = true ↔ .hold unit ∈ d.members)) ∨
    (r = true ∧ .hold unit ∉ d.members ∧ d' = d.enter uid (.hold unit))
  | .captureFlatpak _ unit, d, r, d' => ∃ pids : List Nat,
    d' = pids.foldl (fun e pid => e.enter uid (.app pid (some unit))) d ∧
      ∀ n, r = .ok n → n = pids.length
  | .runScope _, d, r, d' => d' = d ∨ ∃ pid, r = .ok () ∧ (∀ h, .app pid h ∉ d.members) ∧
    d' = d.enter uid (.app pid none)
  | .configExists, d, _, d' | .filterRunning, d, _, d' | .tunnelApp _, d, _, d' => d' = d
  | .presence _, d, _, d' | .runHold _, d, _, d' | .spawn _, d, _, d' => d' = d

/-! ### What always holds -/

/-- A loaded rule names a cgroup that the slice was once; the slice still is that cgroup exactly
if it has been held since. -/
def Desktop.Names (d : Desktop) (held : Bool) (g : CgroupId) : Prop :=
  g < d.next ∧ (held ↔ d.world.cgroups (slicePath uid) = some g)

structure Inv (d : Desktop) : Prop where
  settled : FilterRoute.Settled d.world
  empty : d.members = [] ↔ d.world.cgroups (slicePath uid) = none
  next : ∀ g, d.world.cgroups (slicePath uid) = some g → g < d.next
  up : d.world.link.isSome → (d.world.tables tunnelKey).isSome
  tunnel : ∀ t, d.world.tables tunnelKey = some t →
    ∃ g, t = tunnelTable [g] ∧ d.Names uid d.tunnelHeld g
  filter : ∀ t, d.world.tables FilterRoute.filterKey = some t →
    ∃ g port, t = FilterRoute.filterTable g port ∧ d.Names uid d.filterHeld g
  held : d.filterHeld → (d.world.tables FilterRoute.filterKey).isSome
  /-- Nothing is redirected in root's slice. -/
  root : uid = 0 → d.world.tables FilterRoute.filterKey = none

variable {uid} {d e : Desktop} {w t : World} {m : Member} {g : CgroupId} {held : Bool}

/-! ### The slice -/

theorem settled_cgroups (h : FilterRoute.Settled w) (f : String → Option CgroupId) :
    FilterRoute.Settled { w with cgroups := f } :=
  ⟨⟨h.tidy.guarded, h.tidy.rules, h.tidy.rules6⟩, h.sane, h.filter⟩

theorem create_cgroup (d : Desktop) (m : Member) :
    (d.create uid m).world.cgroups (slicePath uid) = some d.next := Function.update_self ..

theorem vanish_cgroup (d : Desktop) :
    (d.vanish uid).world.cgroups (slicePath uid) = none := Function.update_self ..

theorem Desktop.Names.create (h : d.Names uid held g)
    (hnone : d.world.cgroups (slicePath uid) = none) (m : Member) :
    (d.create uid m).Names uid held g := by
  obtain ⟨hlt, hheld⟩ := h
  refine ⟨Nat.lt_succ_of_lt hlt, ?_⟩
  rw [hnone] at hheld
  rw [create_cgroup]
  constructor
  · intro hh
    cases hheld.mp hh
  · intro heq
    cases heq
    exact absurd hlt (Nat.lt_irrefl _)

theorem Desktop.Names.vanish (h : d.Names uid held g) : (d.vanish uid).Names uid false g := by
  refine ⟨h.1, ?_⟩
  rw [vanish_cgroup]
  exact iff_of_false Bool.false_ne_true nofun

theorem Inv.create (h : Inv uid d) (hnil : d.members = []) (m : Member) :
    Inv uid (d.create uid m) := by
  have hnone : d.world.cgroups (slicePath uid) = none := h.empty.mp hnil
  constructor
  · exact settled_cgroups h.settled _
  · rw [create_cgroup]
    exact iff_of_false (List.cons_ne_nil m []) nofun
  · intro g hg
    rw [create_cgroup] at hg
    cases hg
    exact Nat.lt_succ_self d.next
  · exact h.up
  · intro x hx
    obtain ⟨g, rfl, hg⟩ := h.tunnel x hx
    exact ⟨g, rfl, hg.create hnone m⟩
  · intro x hx
    obtain ⟨g, port, rfl, hg⟩ := h.filter x hx
    exact ⟨g, port, rfl, hg.create hnone m⟩
  · exact h.held
  · exact h.root

theorem Inv.vanish (h : Inv uid d) : Inv uid (d.vanish uid) := by
  constructor
  · exact settled_cgroups h.settled _
  · rw [vanish_cgroup]
    exact iff_of_true rfl rfl
  · intro g hg
    rw [vanish_cgroup] at hg
    cases hg
  · exact h.up
  · intro x hx
    obtain ⟨g, rfl, hg⟩ := h.tunnel x hx
    exact ⟨g, rfl, hg.vanish⟩
  · intro x hx
    obtain ⟨g, port, rfl, hg⟩ := h.filter x hx
    exact ⟨g, port, rfl, hg.vanish⟩
  · nofun
  · exact h.root

theorem Inv.members (h : Inv uid d) (hne : d.members ≠ []) {ms : List Member} (hms : ms ≠ []) :
    Inv uid { d with members := ms } :=
  { h with empty := iff_of_false hms fun hnone => hne (h.empty.mpr hnone) }

theorem Inv.enter (h : Inv uid d) (m : Member) : Inv uid (d.enter uid m) := by
  unfold Desktop.enter
  split
  next hnil => exact h.create hnil m
  next hne => exact h.members hne (List.cons_ne_nil m _)

theorem Inv.keepOnly (h : Inv uid d) (keep : Member → Bool) :
    Inv uid (d.keepOnly uid keep) := by
  unfold Desktop.keepOnly
  split
  next => exact h.vanish
  next hne =>
    refine h.members ?_ hne
    intro hnil
    rw [hnil] at hne
    exact hne rfl

/-! ### The helper -/

theorem Inv.world (h : Inv uid d) (hw : FilterRoute.Settled w)
    (hcgroups : w.cgroups = d.world.cgroups)
    (hup : w.link.isSome → (w.tables tunnelKey).isSome)
    (htunnel : ∀ x, w.tables tunnelKey = some x →
      ∃ g, x = tunnelTable [g] ∧ d.Names uid tunnelHeld g)
    (hfilter : ∀ x, w.tables FilterRoute.filterKey = some x →
      ∃ g port, x = FilterRoute.filterTable g port ∧ d.Names uid filterHeld g)
    (hheld : filterHeld → (w.tables FilterRoute.filterKey).isSome)
    (hroot : uid = 0 → w.tables FilterRoute.filterKey = none) :
    Inv uid ⟨w, d.members, d.next, filterOn, tunnelHeld, filterHeld⟩ where
  settled := hw
  empty := by rw [hcgroups]; exact h.empty
  next := by rw [hcgroups]; exact h.next
  up := hup
  tunnel := by unfold Desktop.Names; rw [hcgroups]; exact htunnel
  filter := by unfold Desktop.Names; rw [hcgroups]; exact hfilter
  held := hheld
  root := hroot

theorem Inv.names_here (h : Inv uid d) (hg : d.world.cgroups (slicePath uid) = some g) :
    d.Names uid true g := ⟨h.next g hg, iff_of_true rfl hg⟩

theorem Inv.beside (h : Inv uid d) (hw : FilterRoute.Settled w) (hb : Tunnel.Beside d.world w)
    (hup : w.link.isSome → (w.tables tunnelKey).isSome)
    (htunnel : ∀ x, w.tables tunnelKey = some x →
      ∃ g, x = tunnelTable [g] ∧ d.Names uid tunnelHeld g) :
    Inv uid ⟨w, d.members, d.next, d.filterOn, tunnelHeld, d.filterHeld⟩ := by
  have hsame := hb.tables FilterRoute.filterKey FilterRoute.filterKey_ne
  apply h.world hw hb.cgroups hup htunnel
  · rw [hsame]
    exact h.filter
  · rw [hsame]
    exact h.held
  · rw [hsame]
    exact h.root

theorem Inv.clean (h : Inv uid d) (hw : FilterRoute.Settled w) (hb : Tunnel.Beside d.world w)
    (hc : Clean w) : Inv uid ⟨w, d.members, d.next, d.filterOn, false, d.filterHeld⟩ := by
  apply h.beside hw hb
  · rw [hc.link]
    nofun
  · rw [hc.tables]
    nofun

theorem Inv.complete (h : Inv uid d) (hw : FilterRoute.Settled w) (hb : Tunnel.Beside d.world w)
    {config : WgConfig} (hc : Complete config uid w) :
    Inv uid ⟨w, d.members, d.next, d.filterOn, true, d.filterHeld⟩ := by
  obtain ⟨g, hg, ht⟩ := hc.tables
  rw [hb.cgroups] at hg
  apply h.beside hw hb
  · rw [ht]
    exact fun _ => rfl
  · rw [ht]
    rintro x ⟨⟩
    exact ⟨g, rfl, h.names_here hg⟩

theorem Inv.sameBut (h : Inv uid d) (hk : FilterRoute.Keeping d.world w)
    (hfilter : ∀ x, w.tables FilterRoute.filterKey = some x →
      ∃ g port, x = FilterRoute.filterTable g port ∧ d.Names uid filterHeld g)
    (hheld : filterHeld → (w.tables FilterRoute.filterKey).isSome)
    (hroot : uid = 0 → w.tables FilterRoute.filterKey = none) :
    Inv uid ⟨w, d.members, d.next, filterOn, d.tunnelHeld, filterHeld⟩ := by
  have hsame := hk.1.tables
  have hw := h.settled.sameBut hk.1 hk.2
  have hnet : w.cgroups = d.world.cgroups ∧ w.link = d.world.link := by
    obtain ⟨⟨_, _, rfl⟩, -⟩ := hk
    exact ⟨rfl, rfl⟩
  apply h.world hw hnet.1 _ _ hfilter hheld hroot
  · rw [hsame, hnet.2]
    exact h.up
  · rw [hsame]
    exact h.tunnel

theorem Inv.unredirected (h : Inv uid d) (hk : FilterRoute.Keeping d.world w)
    (hnone : w.tables FilterRoute.filterKey = none) :
    Inv uid ⟨w, d.members, d.next, filterOn, d.tunnelHeld, false⟩ := by
  apply h.sameBut hk
  · rw [hnone]
    nofun
  · nofun
  · exact fun _ => hnone

theorem Inv.redirected (h : Inv uid d) (hk : FilterRoute.Keeping d.world w) {port : UInt16}
    {r : Except FilterRoute.FilterError Unit} (hr : FilterRoute.Ends uid port d.world r w)
    (hroot : uid ≠ 0) : Inv uid ⟨w, d.members, d.next, filterOn, d.tunnelHeld, r.isOk⟩ := by
  cases r with
  | error e =>
    rcases hr with hnone | ⟨hzero, -⟩
    · exact h.unredirected hk hnone
    · exact absurd hzero hroot
  | ok a =>
    obtain ⟨g, hg, ht⟩ := hr
    apply h.sameBut hk
    · rw [ht]
      rintro x ⟨⟩
      exact ⟨g, port, rfl, h.names_here hg⟩
    · rw [ht]
      exact fun _ => rfl
    · intro hzero
      exact absurd hzero hroot

def Recorded (uid : UInt32) (d : Desktop) (c : HelperCall) (success : Bool) (w : World) : Prop :=
  Inv uid (d.record success w c)

theorem keeps_tunnel (h : Inv uid d) (c : Call) :
    c.prog.Keeps dependable (fun _ => True)
      (fun r w => FilterRoute.Settled w ∧ Tunnel.Beside d.world w ∧ c.Leaves r w) d.world := by
  apply ((keeps_call h.settled.tidy c).and
    (FilterRoute.keeps_tunnel h.settled c)).and_here.mono (fun _ _ => trivial)
  rintro r w ⟨⟨⟨-, hb⟩, -⟩, hl, hw⟩
  exact ⟨hw, hb, hl⟩

theorem keeps_helper (h : Inv uid d) (config : WgConfig) (c : HelperCall) :
    (c.prog uid config).Keeps dependable (fun _ => True) (Recorded uid d c) d.world := by
  cases c with
  | tunnelUp =>
    apply (keeps_tunnel h (.up config uid "/run/detour")).bind
    rintro r w - ⟨hw, hb, hl⟩
    apply Prog.keeps_pure trivial
    cases r with
    | error e => exact h.clean hw hb hl
    | ok a => exact h.complete hw hb hl
  | tunnelDown =>
    apply (keeps_tunnel h .down).bind
    rintro r w - ⟨hw, hb, hc⟩
    exact Prog.keeps_pure trivial (h.clean hw hb hc)
  | filterUp port =>
    by_cases hroot : uid = 0
    · subst hroot
      exact ⟨trivial, h.unredirected ⟨.refl _, h.settled.filter⟩ (h.root rfl)⟩
    · apply ((FilterRoute.keeps_up h.settled.filter uid port).and_here.mono
        (fun _ _ => trivial) fun _ _ h => h).bind
      rintro r w - ⟨hk, hr⟩
      exact Prog.keeps_pure trivial (h.redirected hk hr hroot)
  | filterDown =>
    apply ((FilterRoute.keeps_down h.settled.filter).and_here.mono
      (fun _ _ => trivial) fun _ _ h => h).bind
    rintro _ w - ⟨hk, hnone⟩
    exact Prog.keeps_pure trivial (h.unredirected hk hnone)

/-! ### Every operation -/

inductive Moved (uid : UInt32) (K : (Member → Bool) → Prop) : Desktop → Desktop → Prop
  | refl (d : Desktop) : Moved uid K d d
  | enter {d e : Desktop} (m : Member) : Moved uid K d e → Moved uid K d (e.enter uid m)
  | keepOnly {d e : Desktop} {keep : Member → Bool} : K keep → Moved uid K d e →
    Moved uid K d (e.keepOnly uid keep)

theorem moved_captured {K : (Member → Bool) → Prop} (f : Nat → Member) (pids : List Nat)
    (h : Moved uid K d e) : Moved uid K d (pids.foldl (fun e pid => e.enter uid (f pid)) e) := by
  induction pids generalizing e with
  | nil => exact h
  | cons pid pids ih => exact ih (h.enter (f pid))

def GuiOp.Keeping (o : GuiOp) (keep : Member → Bool) : Prop :=
  o = .stopAnchor ∨ keep .anchor = true

theorem gui_cases {o : GuiOp} {r : o.Ret} (he : gui uid o d r e) :
    Moved uid o.Keeping d e ∨ ∃ c config success w, o = .helper c ∧
      Prog.Visits dependable (c.prog uid config) d.world (.done success) w ∧
        e = d.record success w c := by
  cases o with
  | helper c =>
    rcases he with ⟨-, rfl⟩ | ⟨config, success, w, hv, -, rfl⟩
    · exact .inl (.refl e)
    · exact .inr ⟨c, config, success, w, rfl, hv, rfl⟩
  | runAnchor =>
    cases r with
    | error _ =>
      obtain rfl : e = d := he
      exact .inl (.refl e)
    | ok a =>
      obtain ⟨-, rfl⟩ := he
      exact .inl (.enter _ (.refl d))
  | stopAnchor =>
    rcases he with rfl | rfl
    · exact .inl (.refl e)
    · exact .inl (.keepOnly (.inl rfl) (.refl d))
  | stopUnit unit =>
    rcases he with rfl | rfl
    · exact .inl (.refl e)
    · exact .inl (.keepOnly (.inr rfl) (.refl d))
  | holdExists unit =>
    rcases he with ⟨rfl, -⟩ | ⟨-, -, rfl⟩
    · exact .inl (.refl e)
    · exact .inl (.enter _ (.refl d))
  | captureFlatpak id unit =>
    obtain ⟨pids, rfl, -⟩ := he
    exact .inl (moved_captured (fun pid => .app pid (some unit)) pids (.refl d))
  | runScope entry =>
    rcases he with rfl | ⟨pid, -, -, rfl⟩
    · exact .inl (.refl e)
    · exact .inl (.enter _ (.refl d))
  | isActive | idleHolds | isUp =>
    obtain ⟨rfl, -⟩ := he
    exact .inl (.refl e)
  | configExists | filterRunning | tunnelApp app | presence entry | runHold unit | spawn entry =>
    obtain rfl : e = d := he
    exact .inl (.refl e)

theorem Inv.moved {K : (Member → Bool) → Prop} (h : Inv uid d) (hm : Moved uid K d e) :
    Inv uid e := by
  induction hm with
  | refl => exact h
  | enter m _ ih => exact ih.enter m
  | keepOnly _ _ ih => exact ih.keepOnly _

theorem Inv.step (h : Inv uid d) {o : GuiOp} {r : o.Ret} (he : gui uid o d r e) : Inv uid e := by
  rcases gui_cases he with hm | ⟨c, config, success, w, -, hv, rfl⟩
  · exact h.moved hm
  · exact (Prog.keeps_iff.mp (keeps_helper h config c) _ _ hv).2 success rfl

end Detour.Gui
