import Detour.Gui.Scopes
import Mathlib

/-! Whose processes are in the holding scopes, while apps are launched, moved into the tunnel and
exit. -/

namespace Detour.Gui

open Atomic Detour.Rust Detour.Tunnel

/-! ### Names of holding scopes -/

def Alike (a b : Text) : Prop :=
  List.Forall₂ (fun c d => c.toLower = d.toLower ∨ c.isAlphanum = false ∧ d.isAlphanum = false) a b

theorem isAlphanum_toLower (c : Char) : c.toLower.isAlphanum = c.isAlphanum := by
  simp only [Char.isAlphanum, Char.isAlpha, Char.isUpper, Char.isLower, Char.isDigit, Char.toLower]
  split
  · grind [UInt32.toNat_add, Char.toNat_val]
  · rfl

theorem slug_eq_iff {c d : Char} : (if c.isAlphanum then c.toLower else '_') =
      (if d.isAlphanum then d.toLower else '_') ↔
    c.toLower = d.toLower ∨ c.isAlphanum = false ∧ d.isAlphanum = false := by
  have hkind (h : c.toLower = d.toLower) : c.isAlphanum = d.isAlphanum := by
    rw [← isAlphanum_toLower c, h, isAlphanum_toLower d]
  have hmark (x : Char) (hx : x.isAlphanum = true) : x.toLower ≠ '_' := by
    intro heq
    rw [← isAlphanum_toLower x, heq] at hx
    exact absurd hx (by decide)
  cases hc : c.isAlphanum with
  | true =>
    cases hd : d.isAlphanum with
    | true => simp
    | false =>
      rw [hc, hd] at hkind
      exact iff_of_false (by simpa using hmark c hc) (by simpa using hkind)
  | false =>
    cases hd : d.isAlphanum with
    | true =>
      rw [hc, hd] at hkind
      exact iff_of_false (by simpa using Ne.symm (hmark d hd)) (by simpa using hkind)
    | false => simp

theorem holdUnit_eq_iff {a b : Text} : holdUnit a = holdUnit b ↔ Alike a b := by
  unfold holdUnit Alike
  generalize "detour-hold-".toList = before, ".scope".toList = after
  rw [List.append_left_inj, List.append_right_inj, ← List.forall₂_eq_eq_eq,
    List.forall₂_map_left_iff, List.forall₂_map_right_iff]
  simp only [slug_eq_iff]

/-! ### Processes and scopes -/

inductive Origin
  | placeholder
  | flatpak (id : Text)
  | other

def Origin.app : Origin → Option Text
  | .flatpak id => some id
  | _ => none

structure Cgroups.Sorted (origin : Nat → Origin) (c : Cgroups) : Prop where
  listed : ∀ name ∈ c.appSlice, "app-flatpak-".toList <+: name → ∃ s : Scope, s.name = name
  owned : ∀ s : Scope, ∀ p ∈ c.scopes s.name, origin p.pid = .flatpak s.id

def Cgroups.hold (c : Cgroups) (unit : Text) (held : Option (List Process)) : Cgroups :=
  { c with holds := Function.update c.holds unit held }

def Cgroups.take (c : Cgroups) (moved : List Process) (unit : Text) (ps : List Process) : Cgroups :=
  { c.hold unit (some (moved ++ ps)) with
    scopes := fun scope => (c.scopes scope).filter fun p => p.pid ∉ moved.map Process.pid }

def user (conf : List TunnelApp) (origin : Nat → Origin) : Env AppOp AppOp.Ret Cgroups
  | .launch (.gui (.tunnelApp app)), c, r, d => d = c ∧
    ∀ found, r = .ok found → found = conf.find? fun e => e.name = app
  | .launch (.gui (.presence entry)), c, r, d => d = c ∧
    ∀ id, flatpakAppId entry.command entry.args = some id → r = flatpakPresence c entry.name id
  -- systemd may not do it
  | .launch (.gui (.stopUnit unit)), c, _, d => d = c ∨ d = c.hold unit none
  | .launch (.gui (.holdExists unit)), c, r, d => d = c ∧ (r = true ↔ (c.holds unit).isSome)
  | .launch (.gui _), c, _, d => d = c
  | .launch .readSlice, c, r, d => d = c ∧
    ∀ unit, "detour-hold-".toList <+: unit → (unit ∈ r ↔ (c.holds unit).isSome)
  | .launch (.onlyPlaceholder unit), c, r, d => d = c ∧
    (r = true ↔ ∀ p ∈ (c.holds unit).getD [], p.comm = "sleep".toList)
  | .launch (.flatpakScopes id), c, r, d => d = c ∧ r = flatpakScopes c.appSlice id
  | .launch (.procs scope), c, r, d => d = c ∧ r = (c.scopes scope).map Process.pid
  | .launch (.move pid unit), c, .ok (), d => ∃ p ps, p.pid = pid ∧ c.holds unit = some ps ∧
    d = c.take [p] unit ps
  | .launch (.move _ _), c, .error _, d => d = c
  | .launch .timedOut, c, _, d | .launch .settled, c, _, d => d = c
  | .runningSplit _, c, _, d => d = c
  -- what processes of a flatpak app have started is of the app, too
  | .attach unit pids, c, _, d => d = c ∨ ∃ moved ps, c.holds unit = some ps ∧
    (∀ id, (∀ pid ∈ pids, origin pid = .flatpak id) → ∀ p ∈ moved, origin p.pid = .flatpak id) ∧
    d = c.take moved unit ps

inductive Life (origin : Nat → Origin) : Cgroups → Cgroups → Prop
  /-- a holding scope that was asked for comes, with its placeholder -/
  | appears (c : Cgroups) (unit : Text) (p : Process) : c.holds unit = none →
    origin p.pid = .placeholder → p.comm = "sleep".toList →
    Life origin c (c.hold unit (some [p]))
  /-- the processes in a holding scope start others, take other names or exit -/
  | changes (c : Cgroups) (unit : Text) (ps qs : List Process) : c.holds unit = some ps →
    (∀ q ∈ qs, q ∈ ps ∨ ∃ p ∈ ps, origin p.pid ≠ .placeholder ∧
      ∀ id, origin p.pid = .flatpak id → origin q.pid = .flatpak id) →
    Life origin c (c.hold unit (some qs))
  /-- a scope goes with the last that is in it -/
  | empties (c : Cgroups) (unit : Text) : c.holds unit = some [] →
    Life origin c (c.hold unit none)
  /-- flatpak apps start and exit -/
  | flatpak (c d : Cgroups) : d.Sorted origin → d.holds = c.holds → Life origin c d

/-- Where scopes are listed, none is of an app whose id extends the one asked for by a dash. -/
def Separate (c : Cgroups) : AppOp → Prop
  | .launch (.flatpakScopes id) => ∀ s : Scope, s.name ∈ c.appSlice → ¬(id ++ ['-'] <+: s.id)
  | _ => True

def separateUser (conf : List TunnelApp) (origin : Nat → Origin) : Env AppOp AppOp.Ret Cgroups :=
  fun o c r d => user conf origin o c r d ∧ Separate c o

/-! ### What is kept -/

variable {conf : List TunnelApp} {origin : Nat → Origin} {c d : Cgroups} {id unit : Text}

def TunnelApp.flatpakId (e : TunnelApp) : Option Text := flatpakAppId e.command e.args

def BelongsIn (origin : Nat → Origin) (id : Text) (p : Process) : Prop :=
  (origin p.pid = .placeholder ∧ p.comm = "sleep".toList) ∨ origin p.pid = .flatpak id

/-- The holding scope of a flatpak app has its placeholder and processes of the app in it. -/
structure Tidy (conf : List TunnelApp) (origin : Nat → Origin) (c : Cgroups) : Prop where
  sorted : c.Sorted origin
  own : ∀ e ∈ conf, ∀ id, e.flatpakId = some id → ∀ p ∈ (c.holds (holdUnit e.name)).getD [],
    BelongsIn origin id p

def InSlice (origin : Nat → Origin) (c : Cgroups) (id : Text) : Prop :=
  ∃ unit, ∃ p ∈ (c.holds unit).getD [], origin p.pid = .flatpak id

theorem Tidy.inside (h : Tidy conf origin c) {e : TunnelApp} (he : e ∈ conf)
    (hid : e.flatpakId = some id) (hin : (flatpakPresence c e.name id).inside = true) :
    InSlice origin c id := by
  obtain ⟨p, hp, hcomm⟩ := List.any_eq_true.mp hin
  rcases h.own e he id hid p hp with ⟨-, hsleep⟩ | howner
  · exact absurd hsleep (of_decide_eq_true hcomm)
  · exact ⟨_, p, hp, howner⟩

theorem hold_self (c : Cgroups) (unit : Text) (held : Option (List Process)) :
    (c.hold unit held).holds unit = held := Function.update_self ..

theorem hold_other {unit' : Text} (h : unit' ≠ unit) (c : Cgroups) (held : Option (List Process)) :
    (c.hold unit held).holds unit' = c.holds unit' := Function.update_of_ne h ..

theorem Tidy.hold (h : Tidy conf origin c) {held : Option (List Process)}
    (hheld : ∀ e ∈ conf, ∀ id, e.flatpakId = some id → unit = holdUnit e.name →
      ∀ p ∈ held.getD [], BelongsIn origin id p) : Tidy conf origin (c.hold unit held) := by
  refine ⟨⟨h.sorted.listed, h.sorted.owned⟩, fun e he id hid p hp => ?_⟩
  by_cases hu : holdUnit e.name = unit
  · rw [hu, hold_self] at hp
    exact hheld e he id hid hu.symm p hp
  · rw [hold_other hu] at hp
    exact h.own e he id hid p hp

theorem Tidy.stop (h : Tidy conf origin c) : Tidy conf origin (c.hold unit none) :=
  h.hold fun _ _ _ _ _ _ hp => absurd hp List.not_mem_nil

theorem Tidy.take (h : Tidy conf origin c) {moved ps : List Process} (hps : c.holds unit = some ps)
    (hmoved : ∀ e ∈ conf, ∀ id, e.flatpakId = some id → unit = holdUnit e.name →
      ∀ p ∈ moved, origin p.pid = .flatpak id) : Tidy conf origin (c.take moved unit ps) := by
  have hheld : Tidy conf origin (c.hold unit (some (moved ++ ps))) := by
    apply h.hold
    rintro e he id hid rfl p hp
    rcases List.mem_append.mp hp with hp | hp
    · exact .inr (hmoved e he id hid rfl p hp)
    · have hbelongs := h.own e he id hid
      rw [hps] at hbelongs
      exact hbelongs p hp
  refine ⟨⟨h.sorted.listed, fun s p hp => ?_⟩, hheld.own⟩
  exact h.sorted.owned s p (List.mem_of_mem_filter hp)

theorem Tidy.beside (h : Tidy conf origin c) (hl : Life origin c d) : Tidy conf origin d := by
  cases hl with
  | appears unit p hnone hkind hcomm =>
    apply h.hold
    rintro e he id hid rfl q hq
    obtain rfl := List.mem_singleton.mp hq
    exact .inl ⟨hkind, hcomm⟩
  | changes unit ps qs hps hqs =>
    apply h.hold
    rintro e he id hid rfl q hq
    have hbelongs := h.own e he id hid
    rw [hps] at hbelongs
    rcases hqs q hq with hq | ⟨p, hp, hkind, hborn⟩
    · exact hbelongs q hq
    · rcases hbelongs p hp with ⟨hplace, -⟩ | hown
      · exact absurd hplace hkind
      · exact .inr (hborn id hown)
  | empties unit hempty => exact h.stop
  | flatpak d hsorted hholds =>
    refine ⟨hsorted, ?_⟩
    rw [hholds]
    exact h.own

/-! ### What the commands ask for -/

/-- A launch is answered with entries of the configuration; `unseen` are never found inside. -/
def AnswersGui (conf : List TunnelApp) (unseen : TunnelApp → Prop) : (o : GuiOp) → o.Ret → Prop
  | .tunnelApp app, r => ∀ e, r = .ok (some e) → e ∈ conf ∧ e.name = app
  | .presence e, r => unseen e → r.inside = false
  | _, _ => True

def AnswersLaunch (conf : List TunnelApp) (unseen : TunnelApp → Prop)
    (owner : Nat → Option Text) : (o : LaunchOp) → o.Ret → Prop
  | .gui o, r => AnswersGui conf unseen o r
  | o, r => ∀ id, Own owner id o r

def AnswersApp (conf : List TunnelApp) (unseen : TunnelApp → Prop)
    (owner : Nat → Option Text) : (o : AppOp) → o.Ret → Prop
  | .launch o, r => AnswersLaunch conf unseen owner o r
  | _, _ => True

def GuiOp.ForEntry (conf : List TunnelApp) : GuiOp → Prop
  | .captureFlatpak id unit => ∃ e ∈ conf, e.flatpakId = some id ∧ unit = holdUnit e.name
  | _ => True

def LaunchOp.ForEntry (conf : List TunnelApp) (owner : Nat → Option Text) : LaunchOp → Prop
  | .move pid unit =>
    ∃ e ∈ conf, ∃ id, e.flatpakId = some id ∧ unit = holdUnit e.name ∧ owner pid = some id
  | _ => True

def AppOp.ForEntry (conf : List TunnelApp) (owner : Nat → Option Text) : AppOp → Prop
  | .launch o => o.ForEntry conf owner
  | .attach unit pids => ∃ e ∈ conf, unit = holdUnit e.name ∧
    ∀ id, e.flatpakId = some id → ∀ pid ∈ pids, owner pid = some id
  | .runningSplit _ => True

variable {unseen : TunnelApp → Prop} {owner : Nat → Option Text} {entry : TunnelApp}

theorem own_of_answers {o : LaunchOp} {r : o.Ret} (h : AnswersLaunch conf unseen owner o r) :
    Own owner id o r := by
  cases o with
  | gui o => trivial
  | _ => exact h id

theorem idleHolds_forEntry : idleHolds.All (LaunchOp.ForEntry conf owner) := by
  refine ⟨trivial, fun names => ?_⟩
  induction names with
  | nil => trivial
  | cons name names ih =>
    change (idleOf (name :: names)).All _
    rw [idleOf]
    split
    · exact Prog.all_bind ⟨trivial, fun _ => trivial⟩ fun _ => Prog.all_bind ih fun _ => trivial
    · exact ih

theorem carryOut_forEntry {o : GuiOp} (ho : o.ForEntry conf) :
    (carryOut o).Meets (AnswersLaunch conf unseen owner) (LaunchOp.ForEntry conf owner)
      (AnswersGui conf unseen o) := by
  cases o with
  | captureFlatpak id unit =>
    obtain ⟨e, he, hid, rfl⟩ := ho
    have hown : (ExceptT.run (captureFlatpak id (holdUnit e.name))).Meets (Own owner id)
        (MovesOwn owner id (holdUnit e.name)) fun _ => True := captureFlatpak_own _
    apply hown.imp fun _ _ => own_of_answers
    intro o ho
    cases o with
    | move pid unit => exact ⟨e, he, id, hid, ho.2, ho.1⟩
    | _ => trivial
  | idleHolds => exact Prog.meets_of_all idleHolds_forEntry
  | _ => exact ⟨trivial, fun r hr => hr⟩

def alreadyInside (e : TunnelApp) : String :=
  String.ofList e.name ++ " is already running inside the tunnel."

theorem launched_ne (label label' : String) :
    "Launched " ++ label ++ " (Flatpak) inside the tunnel." ≠
      label' ++ " is already running inside the tunnel." := by
  have hcut : " is already running inside the tunnel.".toList =
      " is alrea".toList ++ "dy running inside the tunnel.".toList := by decide
  intro h
  have hlist := congrArg String.toList h
  rw [String.toList_append, String.toList_append (s := label'), hcut, ← List.append_assoc] at hlist
  have hends := (List.append_inj' hlist (by decide)).2
  exact absurd hends (by decide)

theorem eq_of_holdUnit (hconf : conf.Pairwise fun e f => ¬Alike e.name f.name) {e f : TunnelApp}
    (he : e ∈ conf) (hf : f ∈ conf) (h : holdUnit e.name = holdUnit f.name) : e = f := by
  have hsymm : Std.Symm fun e f : TunnelApp => ¬Alike e.name f.name := by
    constructor
    intro e f hne
    rw [← holdUnit_eq_iff] at hne ⊢
    exact Ne.symm hne
  by_contra hne
  exact hconf.forall he hf hne (holdUnit_eq_iff.mp h)

theorem ensureAnchor_forEntry : (ExceptT.run ensureAnchor).All (GuiOp.ForEntry conf) :=
  all_ensureAnchor trivial trivial

theorem prune_forEntry : pruneIdleHolds.All (GuiOp.ForEntry conf) :=
  all_pruneIdleHolds trivial fun _ => trivial

theorem launchInside_forEntry (hentry : entry ∈ conf) :
    (ExceptT.run (launchInside entry (String.ofList entry.name))).Meets (AnswersGui conf unseen)
      (GuiOp.ForEntry conf) fun r => entry.flatpakId.isSome → r ≠ .ok (alreadyInside entry) := by
  have hfail (why : String) : entry.flatpakId.isSome →
      (.error why : Except String String) ≠ .ok (alreadyInside entry) := fun _ => nofun
  apply Fallible.meets_last hfail ensureAnchor_forEntry
  intro _
  apply Fallible.meets_last hfail (Fallible.all_lift prune_forEntry)
  intro _
  split
  next id hid =>
    apply Fallible.meets_last hfail (all_ensureHold trivial trivial)
    intro _
    refine ⟨trivial, fun r _ => Fallible.meets_last hfail (all_orErr _ r) fun _ => ?_⟩
    refine ⟨⟨entry, hentry, hid, rfl⟩, fun r _ => ?_⟩
    apply Fallible.meets_last hfail (all_orErr _ r)
    intro moved
    split
    · exact hfail _
    · intro _ heq
      exact launched_ne _ _ (Except.ok.inj heq)
  next hid =>
    have hnative : ¬entry.flatpakId.isSome := by
      rw [TunnelApp.flatpakId, hid]
      nofun
    refine (Prog.meets_of_all (all_launchScope trivial _)).mono fun r _ h => absurd h hnative

theorem launchInTunnel_forEntry (hconf : conf.Pairwise fun e f => ¬Alike e.name f.name)
    (app : Text) : (ExceptT.run (launchInTunnel app)).Meets (AnswersGui conf unseen)
      (GuiOp.ForEntry conf) fun r => ∀ e ∈ conf, e.name = app → e.flatpakId.isSome → unseen e →
        r ≠ .ok (alreadyInside e) := by
  refine ⟨trivial, fun found hfound => ?_⟩
  match found, hfound with
  | .error why, _ => nofun
  | .ok none, _ => nofun
  | .ok (some entry), hfound =>
    obtain ⟨hentry, hname⟩ := hfound entry rfl
    have hsame (e : TunnelApp) (he : e ∈ conf) (h : e.name = app) : e = entry :=
      eq_of_holdUnit hconf he hentry (by rw [h, hname])
    refine ⟨trivial, fun up _ => ?_⟩
    cases up with
    | false => nofun
    | true =>
      refine ⟨trivial, fun here hhere => ?_⟩
      obtain ⟨inside, outside⟩ := here
      cases outside with
      | true => nofun
      | false =>
        cases inside with
        | true =>
          intro e he h _ hunseen
          rw [hsame e he h] at hunseen
          cases hhere hunseen
        | false =>
          apply (launchInside_forEntry hentry).mono
          intro r hr e he h hid _
          rw [hsame e he h] at hid ⊢
          exact hr hid

/-! ### Runs -/

inductive AppCall
  | launch (app : Text)
  | attach (app : Text)
  | prune

def AppCall.prog : AppCall → AppM String
  | .launch app => ofLaunch (ExceptT.mk (launchInSteps app))
  | .attach app => attachToTunnel app
  | .prune => ofLaunch do
    ExceptT.lift (pruneIdleHolds.translate carryOut)
    return ""

theorem ofLaunch_forEntry {p : LaunchM α} {Q : Except String α → Prop}
    (h : (ExceptT.run p).Meets (AnswersLaunch conf unseen owner) (LaunchOp.ForEntry conf owner) Q) :
    (ExceptT.run (ofLaunch p)).Meets (AnswersApp conf unseen owner) (AppOp.ForEntry conf owner) Q :=
  h.translate fun _ ho => ⟨ho, fun _ hr => hr⟩

theorem ofGui_forEntry {p : GuiM α} {P : GuiOp → Prop} {Q : Except String α → Prop}
    (h : (ExceptT.run p).Meets (AnswersGui conf unseen) P Q) :
    (ExceptT.run (ofGui p)).Meets (AnswersApp conf unseen owner) (AppOp.ForEntry conf owner) Q :=
  h.translate fun _ _ => ⟨trivial, fun _ hr => hr⟩

theorem outsidePids_forEntry (entry : TunnelApp) : (ExceptT.run (outsidePids entry)).Meets
    (AnswersApp conf unseen owner) (AppOp.ForEntry conf owner) (Fallible.Unless fun pids =>
      ∀ id, entry.flatpakId = some id → ∀ pid ∈ pids, owner pid = some id) := by
  cases hid : entry.flatpakId with
  | none =>
    have hnative : flatpakAppId entry.command entry.args = none := hid
    rw [outsidePids, hnative]
    refine ⟨trivial, fun _ _ id h => ?_⟩
    cases h
  | some id =>
    have hown : (ExceptT.run (outsidePids entry)).Meets (OwnApp owner id)
        (AppOp.ForEntry conf owner)
        (Fallible.Unless fun pids => ∀ pid ∈ pids, owner pid = some id) :=
      outsidePids_own (fun _ => trivial) (fun _ => trivial) hid
    apply (hown.imp _ fun _ ho => ho).mono
    · intro r hr
      cases r with
      | ok pids =>
        intro id' hid'
        cases hid'
        exact hr
      | error why => trivial
    · intro o r hr
      cases o with
      | launch o => exact own_of_answers hr
      | _ => trivial

theorem attachToTunnel_forEntry (app : Text) : (ExceptT.run (attachToTunnel app)).Meets
    (AnswersApp conf unseen owner) (AppOp.ForEntry conf owner) fun _ => True := by
  have hgui {p : GuiM Unit} : (ExceptT.run (ofGui p)).Meets (AnswersApp conf unseen owner)
      (AppOp.ForEntry conf owner) (Fallible.Unless fun _ => True) := by
    apply ofGui_forEntry (P := fun _ => True)
    apply (Prog.meets_of_all (Prog.all_true _)).mono
    intro r _
    cases r <;> trivial
  refine Fallible.meets_bind (S := fun _ => True) (fun _ => trivial)
    (ofGui_forEntry (P := fun _ => True) ⟨trivial, fun _ _ => trivial⟩) fun up _ => ?_
  cases up with
  | false => trivial
  | true =>
    refine Fallible.meets_bind (S := fun entry => entry ∈ conf) (fun _ => trivial)
      (ofGui_forEntry (P := fun _ => True) ⟨trivial, fun found hfound => ?_⟩) fun entry hentry => ?_
    · match found, hfound with
      | .error _, _ => trivial
      | .ok none, _ => trivial
      | .ok (some entry), hfound => exact (hfound entry rfl).1
    · apply Fallible.meets_bind (fun _ => trivial) (outsidePids_forEntry entry)
      intro pids hpids
      split
      · trivial
      · refine Fallible.meets_bind (fun _ => trivial) hgui fun _ _ => ?_
        refine Fallible.meets_bind (fun _ => trivial) hgui fun _ _ => ?_
        refine ⟨⟨entry, hentry, rfl, hpids⟩, fun r _ => ?_⟩
        cases r <;> trivial

theorem AppCall.forEntry (hconf : conf.Pairwise fun e f => ¬Alike e.name f.name)
    (call : AppCall) : (ExceptT.run call.prog).Meets (AnswersApp conf unseen owner)
      (AppOp.ForEntry conf owner) fun r => ∀ e ∈ conf, call = .launch e.name →
        e.flatpakId.isSome → unseen e → r ≠ .ok (alreadyInside e) := by
  cases call with
  | launch app =>
    apply ofLaunch_forEntry
    apply ((launchInTunnel_forEntry hconf app).translate fun _ => carryOut_forEntry).mono
    rintro r hr e he ⟨⟩ hid hunseen
    exact hr e he rfl hid hunseen
  | attach app =>
    apply (attachToTunnel_forEntry app).mono
    exact fun _ _ _ _ => nofun
  | prune =>
    apply ofLaunch_forEntry
    have hprune : (pruneIdleHolds.translate carryOut).Meets (AnswersLaunch conf unseen owner)
        (LaunchOp.ForEntry conf owner) fun _ => True :=
      (Prog.meets_of_all prune_forEntry).translate fun _ => carryOut_forEntry
    apply Fallible.meets_bind (fun _ _ _ => nofun) (Fallible.meets_lift hprune)
    exact fun _ _ _ _ => nofun

def appOf (origin : Nat → Origin) (pid : Nat) : Option Text := (origin pid).app

theorem appOf_eq_some {pid : Nat} : appOf origin pid = some id ↔ origin pid = .flatpak id := by
  rw [appOf]
  cases origin pid with
  | flatpak id' => simp [Origin.app]
  | _ => exact ⟨nofun, nofun⟩

theorem Tidy.flatpakScopes (h : Tidy conf origin c)
    (hsep : Separate c (.launch (.flatpakScopes id))) {name : Text}
    (hname : name ∈ Gui.flatpakScopes c.appSlice id) :
    ∃ s : Scope, s.id = id ∧ s.name = name := by
  obtain ⟨hpre, hlisted⟩ := prefix_of_mem_flatpakScopes hname
  obtain ⟨s, rfl⟩ := h.sorted.listed name hlisted hpre
  rcases ((mem_flatpakScopes s).mp hname).2 with hid | hext
  · exact ⟨s, hid.symm, rfl⟩
  · exact absurd hext (hsep s hlisted)

theorem separateUser_answers {o : AppOp} {r : o.Ret} (he : separateUser conf origin o c r d)
    (h : Tidy conf origin c) (hunseen : ∀ e, unseen e → o = .launch (.gui (.presence e)) →
      e ∈ conf ∧ ∃ id, e.flatpakId = some id ∧ ¬InSlice origin c id) :
    AnswersApp conf unseen (appOf origin) o r := by
  obtain ⟨he, hsep⟩ := he
  cases o with
  | launch o =>
    cases o with
    | gui o =>
      cases o with
      | tunnelApp app =>
        rintro e rfl
        have hfind : conf.find? (fun e => e.name = app) = some e := (he.2 _ rfl).symm
        have hname := List.find?_some hfind
        exact ⟨List.mem_of_find?_eq_some hfind, by simpa using hname⟩
      | presence e =>
        intro hu
        obtain ⟨hmem, id, hid, hout⟩ := hunseen e hu rfl
        rw [he.2 id hid]
        by_contra hin
        exact hout (h.inside hmem hid (Bool.not_eq_false _ ▸ hin))
      | _ => trivial
    | flatpakScopes id' =>
      rintro id rfl name hname
      rw [he.2] at hname
      exact h.flatpakScopes hsep hname
    | procs scope =>
      rintro id s rfl pid hpid
      rw [he.2] at hpid
      obtain ⟨p, hp, rfl⟩ := List.mem_map.mp hpid
      exact appOf_eq_some.mpr (h.sorted.owned s p hp)
    | _ => exact fun _ => trivial
  | _ => trivial

theorem Tidy.step (hconf : conf.Pairwise fun e f => ¬Alike e.name f.name)
    (h : Tidy conf origin c) {o : AppOp} {r : o.Ret} (he : user conf origin o c r d)
    (ho : o.ForEntry conf (appOf origin)) : Tidy conf origin d := by
  cases o with
  | launch o =>
    cases o with
    | gui o =>
      cases o with
      | stopUnit unit =>
        rcases he with rfl | rfl
        · exact h
        · exact h.stop
      | tunnelApp _ | presence _ | holdExists _ =>
        obtain ⟨rfl, -⟩ := he
        exact h
      | _ =>
        obtain rfl := he
        exact h
    | move pid unit =>
      match r, he with
      | .ok (), he =>
        obtain ⟨p, ps, rfl, hps, rfl⟩ := he
        obtain ⟨e, hmem, id, hid, rfl, hown⟩ := ho
        apply h.take hps
        intro f hf id' hid' hunit q hq
        obtain rfl := eq_of_holdUnit hconf hmem hf hunit
        obtain rfl := List.mem_singleton.mp hq
        cases hid.symm.trans hid'
        exact appOf_eq_some.mp hown
      | .error _, he =>
        obtain rfl := he
        exact h
    | timedOut | settled =>
      obtain rfl := he
      exact h
    | _ =>
      obtain ⟨rfl, -⟩ := he
      exact h
  | runningSplit name =>
    obtain rfl := he
    exact h
  | attach unit pids =>
    rcases he with rfl | ⟨moved, ps, hps, hmoved, rfl⟩
    · exact h
    · obtain ⟨e, hmem, rfl, hown⟩ := ho
      apply h.take hps
      intro f hf id hid hunit
      obtain rfl := eq_of_holdUnit hconf hmem hf hunit
      exact hmoved id fun pid hpid => appOf_eq_some.mp (hown id hid pid hpid)

variable {ι : Type} [DecidableEq ι]

def appCalls (calls : ι → AppCall) (c : Cgroups) :
    Pool ι AppOp AppOp.Ret (Except String String) Cgroups :=
  .start (fun i => ExceptT.run (calls i).prog) c

/-- Whenever a command asks for the presence of an app, no process of it is in the slice. -/
def absentUser (conf : List TunnelApp) (origin : Nat → Origin) (e : TunnelApp) (id : Text) :
    Env AppOp AppOp.Ret Cgroups :=
  fun o c r d => separateUser conf origin o c r d ∧
    (o = .launch (.gui (.presence e)) → ¬InSlice origin c id)

/-- What the control panel says of where a flatpak app runs has to do with this app alone. -/
structure OwnPresence (conf : List TunnelApp) (origin : Nat → Origin) (calls : ι → AppCall)
    (c : Cgroups) (e : TunnelApp) (id : Text) : Prop where
  unit : ∀ f ∈ conf, f.name ≠ e.name → holdUnit f.name ≠ holdUnit e.name
  inside : ∀ q,
    Pool.Runs (fun _ => separateUser conf origin) (Life origin) (appCalls calls c) q →
    (flatpakPresence q.state e.name id).inside = true → InSlice origin q.state id
  launch : ∀ q,
    Pool.Runs (fun _ => absentUser conf origin e id) (Life origin) (appCalls calls c) q →
    ∀ i, calls i = .launch e.name → q.prog i ≠ .done (.ok (alreadyInside e))

theorem tidy_of_none (hsorted : c.Sorted origin) (hholds : ∀ unit, c.holds unit = none) :
    Tidy conf origin c := by
  refine ⟨hsorted, fun e _ _ _ p hp => ?_⟩
  rw [hholds] at hp
  cases hp

/-- In all runs in which no scope of an app whose id extends another's by a dash is listed for the
other, the presence of every flatpak app is its own, unless the names of two apps are alike. -/
theorem presence_own (hconf : conf.Pairwise fun e f => ¬Alike e.name f.name)
    (calls : ι → AppCall) (hsorted : c.Sorted origin) (hholds : ∀ unit, c.holds unit = none)
    {e : TunnelApp} (he : e ∈ conf) (hid : e.flatpakId = some id) :
    OwnPresence conf origin calls c e id where
  unit f hf hne hunit := hne (congrArg _ (eq_of_holdUnit hconf hf he hunit))
  inside q hr hin := by
    have hanswers : ∀ (_ : ι) (o : AppOp) (s : Cgroups) (r : o.Ret) (t : Cgroups),
        separateUser conf origin o s r t → Tidy conf origin s → o.ForEntry conf (appOf origin) →
        AnswersApp conf (fun _ => False) (appOf origin) o r ∧ Tidy conf origin t :=
      fun _ _ _ _ _ he hs ho => ⟨separateUser_answers he hs nofun, hs.step hconf he.1 ho⟩
    have htidy := (hr.meets hanswers (fun _ _ hl hs => hs.beside hl) (tidy_of_none hsorted hholds)
      fun i => (calls i).forEntry hconf).1
    exact htidy.inside he hid hin
  launch q hr i hcall hdone := by
    have hanswers : ∀ (_ : ι) (o : AppOp) (s : Cgroups) (r : o.Ret) (t : Cgroups),
        absentUser conf origin e id o s r t → Tidy conf origin s →
        o.ForEntry conf (appOf origin) →
        AnswersApp conf (· = e) (appOf origin) o r ∧ Tidy conf origin t := by
      rintro _ o s r t ⟨hu, habsent⟩ hs ho
      refine ⟨separateUser_answers hu hs ?_, hs.step hconf hu.1 ho⟩
      rintro _ rfl rfl
      exact ⟨he, id, hid, habsent rfl⟩
    have hmeets := (hr.meets hanswers (fun _ _ hl hs => hs.beside hl)
      (tidy_of_none hsorted hholds) fun i => (calls i).forEntry hconf).2 i
    rw [hdone] at hmeets
    exact hmeets e he hcall (Option.isSome_iff_exists.mpr ⟨id, hid⟩) rfl rfl

/-! ### An app is moved into the tunnel -/

def fooBar : TunnelApp :=
  ⟨"Foo Bar".toList, "flatpak".toList, ["run".toList, "org.foo.Bar".toList], none⟩

def fooScope : Scope := ⟨"org.foo.Bar".toList, 7⟩

def fooUnit : Text := holdUnit fooBar.name

def fooOrigin : Nat → Origin
  | 1 => .placeholder
  | _ => .flatpak "org.foo.Bar".toList

def fooOutside : Cgroups where
  appSlice := [fooScope.name]
  scopes scope := if scope = fooScope.name then [⟨2, "foo".toList⟩] else []
  holds _ := none

def fooHeld : Cgroups := fooOutside.hold fooUnit (some [⟨1, "sleep".toList⟩])

def fooInside : Cgroups := fooHeld.take [⟨2, "foo".toList⟩] fooUnit [⟨1, "sleep".toList⟩]

theorem fooOutside_sorted : fooOutside.Sorted fooOrigin where
  listed name hname _ := ⟨fooScope, (List.mem_singleton.mp hname).symm⟩
  owned s p hp := by
    change p ∈ if s.name = fooScope.name then _ else _ at hp
    split at hp
    next hname =>
      obtain rfl := List.mem_singleton.mp hp
      rw [name_id hname]
      rfl
    next => cases hp

def fooUser (rest : List TunnelApp) : Env AppOp AppOp.Ret Cgroups :=
  separateUser (fooBar :: rest) fooOrigin

theorem fooBar_attached (rest : List TunnelApp) : ∃ q,
    Pool.Runs (fun _ : Unit => fooUser rest) (Life fooOrigin)
      (appCalls (fun _ => .attach fooBar.name) fooOutside) q ∧ q.state = fooInside := by
  have hfound : fooUser rest (.launch (.gui (.tunnelApp fooBar.name))) fooOutside
      (.ok (some fooBar)) fooOutside := by
    refine ⟨⟨rfl, ?_⟩, trivial⟩
    rintro _ ⟨⟩
    rw [List.find?_cons_of_pos (by simp)]
  have hscopes : fooUser rest (.launch (.flatpakScopes "org.foo.Bar".toList)) fooOutside
      [fooScope.name] fooOutside := by
    refine ⟨⟨rfl, by decide +kernel⟩, fun s hs hext => ?_⟩
    rw [name_id (List.mem_singleton.mp hs)] at hext
    exact absurd hext (by decide)
  have hprocs : fooUser rest (.launch (.procs fooScope.name)) fooOutside [2] fooOutside := by
    have hscope : fooOutside.scopes fooScope.name = [⟨2, "foo".toList⟩] := by
      simp only [fooOutside, ↓reduceIte]
    refine ⟨⟨rfl, ?_⟩, trivial⟩
    rw [hscope]
    rfl
  have hcomes : Life fooOrigin fooOutside fooHeld := .appears _ _ _ rfl rfl rfl
  have hheld : fooHeld.holds fooUnit = some [⟨1, "sleep".toList⟩] := hold_self ..
  have hexists : fooUser rest (.launch (.gui (.holdExists fooUnit))) fooHeld true fooHeld := by
    refine ⟨⟨rfl, ?_⟩, trivial⟩
    rw [hheld]
    exact ⟨fun _ => rfl, fun _ => rfl⟩
  have hattach : fooUser rest (.attach fooUnit [2]) fooHeld (.ok "") fooInside := by
    refine ⟨.inr ⟨_, _, hheld, fun id hid p hp => ?_, rfl⟩, trivial⟩
    obtain rfl := List.mem_singleton.mp hp
    exact hid 2 (List.mem_singleton_self 2)
  have hv : Prog.Visits (fun o s r u => ∃ s', fooUser rest o s r s' ∧
      Relation.ReflTransGen (Life fooOrigin) s' u)
      (ExceptT.run (AppCall.attach fooBar.name).prog) fooOutside (.done (.ok "")) fooInside := by
    refine .step (r := true) ⟨_, ⟨rfl, trivial⟩, .refl⟩ ?_
    refine .step ⟨_, hfound, .refl⟩ (.step ⟨_, hscopes, .refl⟩ (.step ⟨_, hprocs, .refl⟩ ?_))
    refine .step (r := true) ⟨_, ⟨rfl, trivial⟩, .refl⟩ ?_
    refine .step (r := false) ⟨_, ⟨⟨rfl, nofun, nofun⟩, trivial⟩, .refl⟩ ?_
    refine .step (r := Except.ok ()) ⟨_, ⟨rfl, trivial⟩, .single hcomes⟩ ?_
    exact .step ⟨_, hexists, .refl⟩ (.step ⟨_, hattach, .refl⟩ .refl)
  obtain ⟨q, hq, -, hstate⟩ := Pool.exists_runs_beside (E := fun _ => fooUser rest)
    (B := Life fooOrigin) (p := appCalls (fun _ => .attach fooBar.name) fooOutside) (i := ()) hv
  exact ⟨q, hq, hstate⟩

theorem fooInside_holds : fooInside.holds fooUnit =
    some [⟨2, "foo".toList⟩, ⟨1, "sleep".toList⟩] :=
  hold_self fooHeld fooUnit (some [⟨2, "foo".toList⟩, ⟨1, "sleep".toList⟩])

theorem fooInside_present {name : Text} (h : holdUnit name = fooUnit) (id : Text) :
    (flatpakPresence fooInside name id).inside = true := by
  have hp : ⟨2, "foo".toList⟩ ∈ (fooInside.holds (holdUnit name)).getD [] := by
    rw [h, fooInside_holds]
    exact List.mem_cons_self
  exact List.any_eq_true.mpr ⟨_, hp, by decide⟩

def foobar : TunnelApp :=
  ⟨"foobar".toList, "flatpak".toList, ["run".toList, "org.example.foobar".toList], none⟩

theorem fooBar_present : ∃ q, Pool.Runs (fun _ : Unit => fooUser [foobar]) (Life fooOrigin)
      (appCalls (fun _ => .attach fooBar.name) fooOutside) q ∧
    (flatpakPresence q.state fooBar.name "org.foo.Bar".toList).inside = true ∧
    InSlice fooOrigin q.state "org.foo.Bar".toList := by
  obtain ⟨q, hq, hstate⟩ := fooBar_attached [foobar]
  have hinside : (flatpakPresence q.state fooBar.name "org.foo.Bar".toList).inside = true := by
    rw [hstate]
    exact fooInside_present rfl _
  refine ⟨q, hq, hinside, ?_⟩
  have hconf : [fooBar, foobar].Pairwise fun e f => ¬Alike e.name f.name := by
    refine .cons (fun f hf halike => ?_) (List.pairwise_singleton _ _)
    rw [List.mem_singleton.mp hf] at halike
    exact absurd (holdUnit_eq_iff.mpr halike) (by decide +kernel)
  have hown := presence_own hconf (fun _ : Unit => .attach fooBar.name) fooOutside_sorted
    (fun _ => rfl) List.mem_cons_self (show fooBar.flatpakId = some "org.foo.Bar".toList by decide)
  exact hown.inside q hq hinside

def foo_bar : TunnelApp :=
  ⟨"foo_bar".toList, "flatpak".toList, ["run".toList, "org.example.foobar".toList], none⟩

/-- The holding scope of one app is that of another, which is not running. -/
theorem foo_bar_present : ¬∀ (conf : List TunnelApp) (origin : Nat → Origin)
    (calls : Unit → AppCall) (c : Cgroups)
    (q : Pool Unit AppOp AppOp.Ret (Except String String) Cgroups),
    (conf.map TunnelApp.name).Nodup → c.Sorted origin → (∀ unit, c.holds unit = none) →
    Pool.Runs (fun _ => user conf origin) (Life origin) (appCalls calls c) q →
    ∀ e ∈ conf, ∀ id, e.flatpakId = some id →
      (flatpakPresence q.state e.name id).inside = true → InSlice origin q.state id := by
  intro hall
  obtain ⟨q, hq, hstate⟩ := fooBar_attached [foo_bar]
  have hinside (id : Text) : (flatpakPresence q.state foo_bar.name id).inside = true := by
    rw [hstate]
    exact fooInside_present (by decide +kernel) _
  obtain ⟨unit, p, -, howner⟩ := hall [fooBar, foo_bar] fooOrigin _ fooOutside q (by decide)
    fooOutside_sorted (fun _ => rfl) (hq.mono fun _ _ _ _ _ he => he.1) foo_bar (by simp)
    "org.example.foobar".toList (by decide) (hinside _)
  unfold fooOrigin at howner
  split at howner
  · cases howner
  · exact absurd (Origin.flatpak.inj howner) (by decide)

end Detour.Gui
