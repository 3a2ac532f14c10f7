import Detour.Gui.Launches

/-! Launches beside each other: which holding scopes they stop while others wait in theirs for an
app. -/

namespace Detour.Gui

open Atomic Detour.Rust Detour.Tunnel

variable {ι : Type} [DecidableEq ι] {i j : ι} {s t : Desk ι} {unit : Text}

/-! ### What a whole command guarantees -/

abbrev Assures (i : ι) (Q : α → Desk ι → Prop) (p : Prog LaunchOp LaunchOp.Ret α) (s : Desk ι) :
    Prop := p.Assures (orderly i) (Relies i) (Guarantees i) Q s

def overall (i : ι) : Env GuiOp GuiOp.Ret (Desk ι)
  | .idleHolds, s, r, t => Guarantees i s t ∧ t.waits i = s.waits i ∧ r.Nodup ∧
    ∀ unit ∈ r, unit ∈ t.listed i
  | .captureFlatpak _ _, s, _, t => Guarantees i s t
  | o, s, r, t => desk i (.gui o) s r t

theorem idleOf_assures (names : List Text) (hnd : names.Nodup) (s : Desk ι) :
    Assures i (fun r t => t.waits i = s.waits i ∧ r.Sublist names ∧
      (∀ unit ∈ r, unit ∈ t.listed i) ∧ ∀ unit ∈ s.listed i, unit ∈ t.listed i)
      (idleOf names) s := by
  induction names generalizing s with
  | nil =>
    intro t ht
    exact ⟨ht.waits, List.Sublist.refl [], nofun, fun u hu => by rwa [ht.listed]⟩
  | cons name names ih =>
    obtain ⟨-, hnd⟩ := List.nodup_cons.mp hnd
    rw [idleOf]
    split
    · rintro s' hs' idle t ⟨he, -⟩
      refine ⟨desk_guarantees he trivial, ?_⟩
      obtain ⟨-, rfl⟩ := he
      apply Prog.assures_bind (ih hnd _)
      rintro rest t ⟨hw, hsub, hrest, hkeep⟩ t' ht'
      rw [ht'.waits, hw, ht'.listed]
      cases idle with
      | false =>
        refine ⟨hs'.waits, hsub.cons name, hrest, fun u hu => hkeep u ?_⟩
        rw [if_neg Bool.false_ne_true, hs'.listed]
        exact hu
      | true =>
        have hin (u : Text) (hu : u = name ∨ u ∈ s'.listed i) : u ∈ t.listed i := by
          apply hkeep
          rw [if_pos rfl, list_listed_self]
          exact List.mem_cons.mpr hu
        refine ⟨hs'.waits, hsub.cons_cons name, fun u hu => ?_, fun u hu => ?_⟩
        · rcases List.mem_cons.mp hu with rfl | hu
          · exact hin u (.inl rfl)
          · exact hrest u hu
        · apply hin u (.inr _)
          rwa [hs'.listed]
    · apply (ih hnd s).mono
      rintro r t ⟨hw, hsub, hr, hkeep⟩
      exact ⟨hw, hsub.cons name, hr, hkeep⟩

theorem idleHolds_assures (s : Desk ι) :
    Assures i (fun r t => t.waits i = s.waits i ∧ r.Nodup ∧ ∀ unit ∈ r, unit ∈ t.listed i)
      idleHolds s := by
  rintro s' hs' names t ⟨he, -⟩
  refine ⟨desk_guarantees he trivial, ?_⟩
  obtain ⟨rfl, hnd, -⟩ := he
  apply (idleOf_assures names hnd _).mono
  rintro r t ⟨hw, hsub, hr, -⟩
  exact ⟨hw.trans hs'.waits, hnd.sublist hsub, hr⟩

theorem keepsScopes_moveAll (unit : Text) (pids : List Nat) (moved : Nat) :
    (ExceptT.run (moveAll unit moved pids)).All LaunchOp.KeepsScopes := by
  induction pids generalizing moved with
  | nil => trivial
  | cons pid pids ih =>
    refine ⟨trivial, fun r => ?_⟩
    match r with
    | .ok () => exact ih (moved + 1)
    | .error .gone => exact ih moved
    | .error (.other _) => trivial

theorem keepsScopes_sweep (unit : Text) (scopes : List Text) (moved : Nat) :
    (ExceptT.run (sweep unit moved scopes)).All LaunchOp.KeepsScopes := by
  induction scopes generalizing moved with
  | nil => trivial
  | cons scope scopes ih =>
    apply Fallible.all_bind
    · exact ⟨trivial, fun pids => keepsScopes_moveAll unit pids 0⟩
    · exact fun n => ih (moved + n)

theorem keepsScopes_captureRounds (id unit : Text) (rounds moved : Nat) :
    (ExceptT.run (captureRounds id unit rounds moved)).All LaunchOp.KeepsScopes := by
  induction rounds generalizing moved with
  | zero => trivial
  | succ rounds ih =>
    refine ⟨trivial, fun late => ?_⟩
    cases late with
    | true => trivial
    | false =>
      refine ⟨trivial, fun scopes => ?_⟩
      apply Fallible.all_bind (keepsScopes_sweep unit scopes moved)
      intro moved
      split
      · refine ⟨trivial, fun settled => ?_⟩
        cases settled with
        | true => trivial
        | false => exact ih moved
      · exact ih moved

theorem captureFlatpak_assures (id unit : Text) (s : Desk ι) :
    Assures i (fun _ _ => True) (ExceptT.run (captureFlatpak id unit)) s :=
  Prog.assures_of_all (keepsScopes_captureRounds id unit 4001 0) trivial (fun _ _ _ _ => trivial)
    fun _ _ _ _ ho _ he => ⟨desk_guarantees he.1 ho, trivial⟩

def Desk.known (s : Desk ι) (i : ι) (t : Desk ι) : Desk ι :=
  { s with
    waits := Function.update s.waits i (t.waits i)
    listed := Function.update s.listed i (t.listed i) }

theorem Guarantees.known (i : ι) (s t : Desk ι) : Guarantees i s (s.known i t) :=
  ⟨fun _ hj => Function.update_of_ne hj .., fun _ hj => Function.update_of_ne hj ..,
    fun _ h => .inl h⟩

theorem known_waits : (s.known i t).waits i = t.waits i := Function.update_self ..

theorem known_listed : (s.known i t).listed i = t.listed i := Function.update_self ..

theorem carryOut_assures (o : GuiOp) (s : Desk ι)
    (hg : ∀ s', Relies i s s' → ∀ r t, overall i o s' r t → Guarantees i s' t) :
    Assures i (fun r t => ∃ s' t', Relies i s s' ∧ overall i o s' r t' ∧ Relies i t' t)
      (carryOut o) s := by
  cases o with
  | idleHolds =>
    apply (idleHolds_assures s).mono
    rintro r t ⟨hw, hnd, hr⟩
    refine ⟨s, s.known i t, ⟨rfl, rfl⟩, ⟨.known i s t, known_waits.trans hw, hnd, fun u hu => ?_⟩,
      ⟨known_waits.symm, known_listed.symm⟩⟩
    rw [known_listed]
    exact hr u hu
  | captureFlatpak id unit =>
    apply (captureFlatpak_assures id unit s).mono
    intro r t _
    exact ⟨s, s.known i t, ⟨rfl, rfl⟩, .known i s t, ⟨known_waits.symm, known_listed.symm⟩⟩
  | _ =>
    rintro s' hs' r t ⟨he, -⟩
    exact ⟨hg s' hs' r t he, fun t' ht' => ⟨s', t, hs', he, ht'⟩⟩

def GuiOp.KeepsScopes : GuiOp → Prop
  | .stopUnit _ => False
  | _ => True

theorem overall_cases {o : GuiOp} {r : o.Ret} (h : overall i o s r t) :
    Guarantees i s t ∨ desk i (.gui o) s r t := by
  cases o with
  | idleHolds => exact .inl h.1
  | captureFlatpak id unit => exact .inl h
  | _ => exact .inr h

theorem overall_guarantees {o : GuiOp} {r : o.Ret} (h : overall i o s r t) (ho : o.KeepsScopes) :
    Guarantees i s t := by
  rcases overall_cases h with hg | hd
  · exact hg
  · apply desk_guarantees hd
    cases o with
    | stopUnit u => cases ho
    | _ => trivial

abbrev GuiAssures (i : ι) (Q : α → Desk ι → Prop) (p : Prog GuiOp GuiOp.Ret α) (s : Desk ι) :
    Prop := p.Assures (overall i) (Relies i) (Guarantees i) Q s

theorem assures_of_keepsScopes {p : Prog GuiOp GuiOp.Ret α} (hp : p.All GuiOp.KeepsScopes) :
    GuiAssures i (fun _ _ => True) p s :=
  Prog.assures_of_all hp trivial (fun _ _ _ _ => trivial)
    fun _ _ _ _ ho _ he => ⟨overall_guarantees he ho, trivial⟩

theorem stopAll_assures (units : List Text) (hnd : units.Nodup) (hw : s.waits i = none)
    (hl : ∀ unit ∈ units, unit ∈ s.listed i) :
    GuiAssures i (fun _ _ => True)
      (Prog.forEach (fun unit => Prog.perform (GuiOp.stopUnit unit)) units) s := by
  induction units generalizing s with
  | nil => exact fun _ _ => trivial
  | cons unit units ih =>
    obtain ⟨hunit, hnd⟩ := List.nodup_cons.mp hnd
    intro s' hs' r t he
    have hmem : unit ∈ s'.listed i := by
      rw [hs'.listed]
      exact hl unit List.mem_cons_self
    refine ⟨stopUnit_guarantees r he hmem (hs'.waits.trans hw), ?_⟩
    have hwt : t.waits i = none := by
      rcases he with rfl | rfl
      · exact hs'.waits.trans hw
      · exact hs'.waits.trans hw
    have hlt : t.listed i = (s'.listed i).filter (· ≠ unit) := by
      rcases he with rfl | rfl
      · exact unlist_listed_self
      · exact unlist_listed_self
    apply ih hnd hwt
    intro u hu
    rw [hlt, hs'.listed]
    apply List.mem_filter.mpr ⟨hl u (List.mem_cons_of_mem unit hu), ?_⟩
    rw [decide_eq_true_eq]
    rintro rfl
    exact hunit hu

theorem pruneIdleHolds_assures (hw : s.waits i = none) :
    GuiAssures i (fun _ _ => True) pruneIdleHolds s := by
  intro s' hs' units t he
  obtain ⟨hg, hwt, hnd, hl⟩ := he
  exact ⟨hg, stopAll_assures units hnd (hwt.trans (hs'.waits.trans hw)) hl⟩

def GuiOp.Looks : GuiOp → Prop
  | .tunnelApp _ | .isUp | .presence _ | .isActive | .runAnchor => True
  | _ => False

theorem overall_looks {o : GuiOp} {r : o.Ret} (h : overall i o s r t) (ho : o.Looks) : t = s := by
  cases o with
  | tunnelApp app => exact h
  | isUp => exact h
  | presence entry => exact h
  | isActive => exact h
  | runAnchor => exact h
  | _ => cases ho

theorem assures_of_looks {p : Prog GuiOp GuiOp.Ret (Except String α)} (hp : p.All GuiOp.Looks)
    (hw : s.waits i = none) :
    GuiAssures i (Fallible.Goes (fun _ t => t.waits i = none)
      (fun (_ : Except String String) _ => True)) p s := by
  have hI := Prog.assures_of_all (E := overall i) (R := Relies i) (G := Guarantees i)
    (I := fun t => t.waits i = none) hp hw (fun t t' ht h => h.waits.trans ht)
    (fun o t r t' ho ht he => by
      obtain rfl := overall_looks he ho
      exact ⟨.refl i _, ht⟩)
  apply hI.mono
  intro r t ht
  cases r with
  | ok a => exact ht
  | error e => trivial

theorem launchInside_assures (entry : TunnelApp) (label : String) (hw : s.waits i = none) :
    GuiAssures i (fun _ _ => True) (ExceptT.run (launchInside entry label)) s := by
  apply Fallible.assures_bind (assures_of_looks (all_ensureAnchor trivial trivial) hw)
  · intro _ t ht
    apply Fallible.assures_bind
    · exact Fallible.assures_lift (pruneIdleHolds_assures ht) fun _ _ _ _ _ => trivial
    · intro _ u _
      split
      next =>
        exact assures_of_keepsScopes (all_launchFlatpak trivial trivial trivial trivial label)
      next => exact assures_of_keepsScopes (all_launchScope trivial label)
    · exact fun _ _ _ _ _ => trivial
  · exact fun _ _ _ _ _ => trivial

theorem launchInTunnel_assures (app : Text) (hw : s.waits i = none) :
    GuiAssures i (fun _ _ => True) (ExceptT.run (launchInTunnel app)) s := by
  intro s₁ h₁ found t₁ he₁
  obtain rfl : t₁ = s₁ := he₁
  refine ⟨.refl i t₁, ?_⟩
  match found with
  | .error why => exact fun _ _ => trivial
  | .ok none => exact fun _ _ => trivial
  | .ok (some entry) =>
    intro s₂ h₂ up t₂ he₂
    obtain rfl : t₂ = s₂ := he₂
    refine ⟨.refl i t₂, ?_⟩
    cases up with
    | false => exact fun _ _ => trivial
    | true =>
      intro s₃ h₃ here t₃ he₃
      obtain rfl : t₃ = s₃ := he₃
      refine ⟨.refl i t₃, ?_⟩
      have hw₃ : t₃.waits i = none := h₃.waits.trans (h₂.waits.trans (h₁.waits.trans hw))
      obtain ⟨inside, outside⟩ := here
      cases outside with
      | true => exact fun _ _ => trivial
      | false =>
        cases inside with
        | true => exact fun _ _ => trivial
        | false => exact launchInside_assures entry _ hw₃

theorem launchInSteps_assures (app : Text) (hw : s.waits i = none) :
    Assures i (fun _ _ => True) (launchInSteps app) s :=
  (launchInTunnel_assures app hw).translate carryOut_assures

/-! ### Runs -/

abbrev Launches (ι : Type) := Pool ι LaunchOp LaunchOp.Ret (Except String String) (Desk ι)

def begin (apps : ι → Text) (s : Desk ι) : Launches ι :=
  Pool.start (fun i => launchInSteps (apps i)) s

omit [DecidableEq ι] in
def Desk.Quiet (s : Desk ι) : Prop := ∀ i, s.waits i = none ∧ s.listed i = []

abbrev Launches.Assured (q : Launches ι) : Prop :=
  Pool.Assured orderly Relies Guarantees (fun _ _ _ => True) q

theorem begin_assured (apps : ι → Text) (hs : s.Quiet) : Launches.Assured (begin apps s) :=
  fun i => launchInSteps_assures (apps i) (hs i).1

theorem kept_moves {p q : Launches ι} (ha : p.Assured) (hk : Kept p.state)
    (hm : Pool.Moves orderly Beside p q) : Kept q.state := by
  cases hm with
  | background hb => exact hk.beside hb
  | takes i ht =>
    cases ht with
    | mk r hp he =>
      have hi := ha i
      rw [hp] at hi
      exact hk.step he.1 he.2 (hi.op he).1

theorem kept_runs {p q : Launches ι} (ha : p.Assured) (hk : Kept p.state)
    (hr : Pool.Runs orderly Beside p q) : q.Assured ∧ Kept q.state := by
  induction hr with
  | refl => exact ⟨ha, hk⟩
  | tail _ hm ih =>
    exact ⟨ih.1.moves (fun i _ _ hb => hb.relies i) (fun _ _ _ _ hij hg => hg.relies hij) hm,
      kept_moves ih.1 ih.2 hm⟩

theorem Launches.Assured.stops {q : Launches ι} (ha : q.Assured) {j : ι}
    (hnext : (q.prog j).next = some (.gui (.stopUnit unit)))
    (hthere : (q.state.holds unit).isSome) : unit ∈ q.state.listed j := by
  have hj := ha j
  cases hp : q.prog j with
  | done a =>
    rw [hp] at hnext
    cases hnext
  | op o k =>
    rw [hp] at hnext hj
    obtain rfl := Option.some.inj hnext
    have hg := (hj.op (r := ()) (t := (q.state.unlist j unit).stop unit) ⟨.inr rfl, trivial⟩).1
    rcases hg.holds unit hthere with hstill | ⟨hlisted, -⟩
    · have hgone : ((q.state.unlist j unit).stop unit).holds unit = none := Function.update_self ..
      rw [hgone] at hstill
      cases hstill
    · exact hlisted

/-- However launches go on beside each other: if none takes for idle a scope that another waits
in, and none waits in a scope that another has found idle and is to stop, then each that waits
for its app has its scope, and no other is about to stop it. -/
theorem launches_keep_scopes (apps : ι → Text) (hs : s.Quiet) {q : Launches ι}
    (hr : Pool.Runs orderly Beside (begin apps s) q) (i : ι) (unit : Text)
    (hw : q.state.waits i = some unit) :
    (q.state.holds unit).isSome ∧
      ∀ j, j ≠ i → (q.prog j).next ≠ some (.gui (.stopUnit unit)) := by
  have hk : Kept s := by
    constructor
    · intro i u hw
      rw [(hs i).1] at hw
      cases hw
    · intro i j u _ hw
      rw [(hs i).1] at hw
      cases hw
  obtain ⟨ha, hk⟩ := kept_runs (begin_assured apps hs) hk hr
  have hthere := hk.there i unit hw
  refine ⟨hthere, fun j hj hnext => ?_⟩
  exact hk.unlisted i j unit (Ne.symm hj) hw (ha.stops hnext hthere)

/-! ### Two launches -/

def firstApp : TunnelApp := ⟨"a".toList, "flatpak".toList, ["run".toList, "org.a".toList], none⟩

def secondApp : TunnelApp := ⟨"b".toList, "flatpak".toList, ["run".toList, "org.b".toList], none⟩

def bothApps (second : Bool) : Text := if second then secondApp.name else firstApp.name

def emptyDesk : Desk Bool := ⟨fun _ => none, fun _ => [], fun _ => none, fun _ => []⟩

def firstUnit : Text := holdUnit firstApp.name

def firstHeld : Desk Bool := { emptyDesk with
  holds := Function.update emptyDesk.holds firstUnit (some [⟨1000, "sleep".toList⟩]) }

theorem first_asks : ∃ k, Prog.Visits (orderly false) (launchInSteps firstApp.name) emptyDesk
    (.op (.gui (.holdExists firstUnit)) k) emptyDesk := by
  have hslice : orderly false .readSlice emptyDesk [] emptyDesk :=
    ⟨⟨rfl, List.nodup_nil, fun _ _ => ⟨nofun, nofun⟩⟩, trivial⟩
  have hnone : orderly false (.gui (.holdExists firstUnit)) emptyDesk false emptyDesk :=
    ⟨⟨⟨nofun, nofun⟩, rfl⟩, nofun⟩
  apply Exists.intro
  refine .step (r := .ok (some firstApp)) ⟨rfl, trivial⟩ ?_
  refine .step (r := true) ⟨rfl, trivial⟩ ?_
  refine .step (r := ⟨false, false⟩) ⟨rfl, trivial⟩ ?_
  refine .step (r := true) ⟨rfl, trivial⟩ ?_
  refine .step hslice (.step hnone ?_)
  exact .step (r := Except.ok ()) ⟨rfl, trivial⟩ .refl

def firstWaiting : Desk Bool := firstHeld.wait false (some firstUnit)

theorem first_waits : ∃ q : Launches Bool, Pool.Runs orderly Beside (begin bothApps emptyDesk) q ∧
    q.state = firstWaiting ∧ q.prog true = launchInSteps secondApp.name := by
  obtain ⟨k, hasks⟩ := first_asks
  have hcomes : Relation.ReflTransGen Beside emptyDesk firstHeld :=
    .single (.appears emptyDesk firstUnit ⟨1000, "sleep".toList⟩ rfl rfl)
  obtain ⟨q, hq, hprog, hstate, hother⟩ :=
    Pool.exists_runs_background (p := begin bothApps emptyDesk) (i := false) hasks hcomes
  have hthere : (firstHeld.holds firstUnit).isSome := by decide +kernel
  have hfinds : Prog.Visits (orderly false) (q.prog false) q.state (k true) firstWaiting := by
    rw [hprog, hstate]
    exact .step (r := true) ⟨⟨⟨fun _ => hthere, fun _ => rfl⟩, rfl⟩, fun _ _ _ => List.not_mem_nil⟩
      .refl
  obtain ⟨q', hq', -, hstate', hother'⟩ := Pool.exists_runs (B := Beside) hfinds
  exact ⟨q', hq.trans hq', hstate', (hother' true nofun).trans (hother true nofun)⟩

theorem first_kept : ∃ q : Launches Bool, Pool.Runs orderly Beside (begin bothApps emptyDesk) q ∧
    (q.state.holds firstUnit).isSome ∧
      ∀ j, j ≠ false → (q.prog j).next ≠ some (.gui (.stopUnit firstUnit)) := by
  obtain ⟨q, hq, hstate, -⟩ := first_waits
  refine ⟨q, hq, launches_keep_scopes bothApps (fun _ => ⟨rfl, rfl⟩) hq false firstUnit ?_⟩
  rw [hstate]
  rfl

theorem second_lists : ∃ k, Prog.Visits (desk true) (launchInSteps secondApp.name) firstWaiting
    (.op (.gui (.stopUnit firstUnit)) k) (firstWaiting.list true firstUnit) := by
  have hslice : desk true .readSlice firstWaiting [firstUnit] firstWaiting := by
    refine ⟨rfl, List.nodup_cons.mpr ⟨List.not_mem_nil, List.nodup_nil⟩, fun u _ => ?_⟩
    by_cases hu : u = firstUnit
    · subst hu
      exact ⟨fun _ => by decide +kernel, fun _ => List.mem_singleton_self _⟩
    · have hnone : firstWaiting.holds u = none := Function.update_of_ne hu ..
      rw [List.mem_singleton, hnone]
      exact ⟨fun h => absurd h hu, nofun⟩
  have hidle : firstWaiting.Idle firstUnit := by
    intro p hp
    have hholds : firstWaiting.holds =
      Function.update emptyDesk.holds firstUnit (some [⟨1000, "sleep".toList⟩]) := rfl
    rw [hholds, Function.update_self] at hp
    obtain rfl := List.mem_singleton.mp hp
    rfl
  have hlook : desk true (.onlyPlaceholder firstUnit) firstWaiting true
      (firstWaiting.list true firstUnit) := ⟨⟨fun _ => hidle, fun _ => rfl⟩, rfl⟩
  apply Exists.intro
  refine .step (r := .ok (some secondApp)) rfl ?_
  refine .step (r := true) rfl ?_
  refine .step (r := ⟨false, false⟩) rfl ?_
  refine .step (r := true) rfl ?_
  exact .step hslice (.step hlook .refl)

/-- The second launch is about to stop the scope that the first waits in. -/
theorem second_stops_first : ¬∀ (apps : Bool → Text) (s : Desk Bool) (q : Launches Bool),
    apps false ≠ apps true → s.Quiet → Pool.Runs desk Beside (begin apps s) q →
    ∀ i unit, q.state.waits i = some unit → (q.state.holds unit).isSome ∧
      ∀ j, j ≠ i → (q.prog j).next ≠ some (.gui (.stopUnit unit)) := by
  intro hall
  obtain ⟨q, hq, hstate, hprog⟩ := first_waits
  obtain ⟨k, hlists⟩ := second_lists
  rw [← hprog, ← hstate] at hlists
  obtain ⟨q', hq', hprog', hstate', -⟩ := Pool.exists_runs (B := Beside) hlists
  have hruns : Pool.Runs desk Beside (begin bothApps emptyDesk) q' :=
    (hq.mono fun _ _ _ _ _ he => he.1).trans hq'
  have hwaits : q'.state.waits false = some firstUnit := by
    rw [hstate', hstate]
    rfl
  have hnext := (hall bothApps emptyDesk q' (by decide) (fun _ => ⟨rfl, rfl⟩) hruns false firstUnit
    hwaits).2 true nofun
  rw [hprog'] at hnext
  exact hnext rfl

end Detour.Gui
