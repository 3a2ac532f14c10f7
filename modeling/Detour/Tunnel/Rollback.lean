import Detour.Tunnel.BringUp

/-! Every state that calls of `up` and `down` visit, when deletions can be relied on: marked
packets have somewhere to go, a failed `up` leaves nothing and a finished one everything. -/

namespace Detour.Tunnel

open Atomic Detour.Rust Detour.ResolvConf

variable {w t u : World} {uid : UInt32} {config : WgConfig} {sp np workDir : Path}

/-! ### What the calls leave -/

structure Clean (w : World) : Prop where
  link : w.link = none
  defaultRoute : w.defaultRoute = false
  unreachable : w.unreachable = false
  unreachable6 : w.unreachable6 = false
  rules : w.rules = 0
  rules6 : w.rules6 = 0
  tables : w.tables tunnelKey = none

structure Complete (config : WgConfig) (uid : UInt32) (w : World) : Prop where
  link : ∃ l, w.link = some l ∧ l.up = true ∧ l.conf.isSome ∧
    ∀ addr ∈ config.addressesV4, addr ∈ l.addresses
  defaultRoute : w.defaultRoute = true
  unreachable : w.unreachable = true
  rules : w.rules = 1
  rules6 : w.rules6 ≤ 1
  ipv6 : w.ipv6 = true → w.unreachable6 = true ∧ w.rules6 = 1
  tables : ∃ g, w.cgroups (sliceCgroup uid).1 = some g ∧
    w.tables tunnelKey = some (tunnelTable [g])

structure Tidy (w : World) : Prop where
  guarded : Guarded w
  rules : w.rules ≤ 1
  rules6 : w.rules6 ≤ 1

theorem clean_cleared (w : World) : Clean w.cleared where
  link := rfl
  defaultRoute := rfl
  unreachable := rfl
  unreachable6 := rfl
  rules := rfl
  rules6 := rfl
  tables := by simp [World.cleared]

theorem Clean.tidy (h : Clean w) : Tidy w where
  guarded := guarded_of_unmarked h.tables
  rules := by rw [h.rules]; exact Nat.zero_le 1
  rules6 := by rw [h.rules6]; exact Nat.zero_le 1

theorem Complete.tidy (h : Complete config uid w) : Tidy w where
  guarded _ := by
    refine ⟨⟨by rw [h.rules]; exact Nat.one_pos, h.unreachable⟩, fun hv6 => ?_⟩
    obtain ⟨hu, hr⟩ := h.ipv6 hv6
    exact ⟨by rw [hr]; exact Nat.one_pos, hu⟩
  rules := Nat.le_of_eq h.rules
  rules6 := h.rules6

theorem Clean.sameNet (hs : SameNet t u) (h : Clean t) : Clean u := by
  obtain ⟨files, rfl⟩ := hs
  exact { h with }

theorem Complete.sameNet (hs : SameNet t u) (h : Complete config uid t) :
    Complete config uid u := by
  obtain ⟨files, rfl⟩ := hs
  exact { h with }

theorem Tidy.sameNet (hs : SameNet t u) (h : Tidy t) : Tidy u := by
  obtain ⟨files, rfl⟩ := hs
  exact { h with }

/-! ### The steps of `up` -/

theorem dependable_answers (o : Op) (w : World) (r : o.Ret) (w' : World)
    (h : dependable o w r w') : o.answers w r w' := h.1

theorem dependable_made {s : Step} {out : Output}
    (hs : s.optional = false ∨ (s.command = .routeAddUnreachable6 ∨ s.command = .ruleAdd6) ∧
      t.ipv6 = true)
    (h : dependable (.exec s.command) t out u) (hok : settle s out = .ok ()) :
    Made u s.command := by
  rcases settle_cases h.1 with ⟨rfl, hopt⟩ | ⟨he, -⟩
  · rcases hs with hs | ⟨hc, hv6⟩
    · rw [hopt hok] at hs
      cases hs
    · cases he : s.command.effect u with
      | none =>
        -- it cannot be carried out where it has been already
        rcases hc with hc | hc
        · rw [hc] at he ⊢
          simp only [Command.effect] at he
          split at he
          next hthere => exact hthere
          next => cases he
        · rw [hc] at he
          cases he
      | some x =>
        obtain ⟨stderr, hr⟩ := h.2 (.inr ⟨hc, hv6, by rw [he]; rfl⟩)
        subst hr
        rcases h.1 with ⟨-, hn⟩ | ⟨-, he'⟩
        · exact absurd rfl (hn stderr)
        · exact Command.effect_made he'
  · exact Command.effect_made he

theorem counts_buildSteps (config : WgConfig) (sp : Path) :
    (commands (buildSteps config sp)).count .ruleAdd = 1 ∧
      (commands (buildSteps config sp)).count .ruleAdd6 = 1 := by
  have haddr : ∀ c, (∀ addr, c ≠ .addressAdd addr) →
      (config.addressesV4.map fun addr => Command.addressAdd addr).count c = 0 := by
    intro c hc
    apply List.count_eq_zero.mpr
    intro hmem
    obtain ⟨addr, -, rfl⟩ := List.mem_map.mp hmem
    exact hc addr rfl
  constructor
  · simp [buildSteps, commands, step, optional, Function.comp_def, haddr]
  · simp [buildSteps, commands, step, optional, Function.comp_def, haddr]

theorem Building.complete {g : CgroupId} (hw : Clean w)
    (h : Building (fun s => s.optional = false ∨ w.ipv6 = true) w (buildSteps config sp) [] t)
    (hg : t.cgroups (sliceCgroup uid).1 = some g) :
    Complete config uid
      { t with tables := Function.update t.tables tunnelKey (some (tunnelTable [g])) } := by
  have hmade : ∀ s ∈ buildSteps config sp, s.optional = false ∨ w.ipv6 = true →
      Made t s.command := by
    intro s hs hP
    rcases h.made s hs with hnil | hm
    · cases hnil
    · exact hm hP
  obtain ⟨hcount, hcount6⟩ := counts_buildSteps config sp
  have hrules := h.rules
  have hrules6 := h.rules6
  rw [hw.rules, hcount] at hrules
  rw [hw.rules6, hcount6] at hrules6
  have hup : Made t (.linkSetUp (config.mtu.getD DEFAULT_MTU)) :=
    hmade (step _) (by simp [buildSteps]) (.inl rfl)
  have hconf : Made t (.wgSetconf sp) := hmade (step _) (by simp [buildSteps]) (.inl rfl)
  have haddr : ∀ addr ∈ config.addressesV4, Made t (.addressAdd addr) := by
    intro addr ha
    apply hmade (step _) _ (.inl rfl)
    simp only [buildSteps, List.mem_append]
    exact .inl (.inr (List.mem_map_of_mem ha))
  have hdefault : Made t .routeAddDefault := hmade (step _) (by simp [buildSteps]) (.inl rfl)
  have hunreach : Made t .routeAddUnreachable :=
    hmade (step _) (by simp [buildSteps]) (.inl rfl)
  have hrule : Made t .ruleAdd := hmade (step _) (by simp [buildSteps]) (.inl rfl)
  obtain ⟨l, hl, hlup⟩ := hup
  constructor
  · refine ⟨l, hl, hlup, ?_, ?_⟩
    · obtain ⟨l', hl', hc⟩ := hconf
      cases hl.symm.trans hl'
      exact hc
    · intro addr ha
      obtain ⟨l', hl', hin⟩ := haddr addr ha
      cases hl.symm.trans hl'
      exact hin
  · exact hdefault
  · exact hunreach
  · exact Nat.le_antisymm (Nat.le_of_add_right_le hrules) hrule
  · exact Nat.le_of_add_right_le hrules6
  · intro hipv6
    have hv6 : w.ipv6 = true := h.frame.ipv6.symm.trans hipv6
    have hunreach6 : Made t .routeAddUnreachable6 :=
      hmade (optional _) (by simp [buildSteps]) (.inr hv6)
    have hrule6 : Made t .ruleAdd6 := hmade (optional _) (by simp [buildSteps]) (.inr hv6)
    exact ⟨hunreach6, Nat.le_antisymm (Nat.le_of_add_right_le hrules6) hrule6⟩
  · exact ⟨g, hg, by simp⟩

theorem keeps_upSteps_of_clean (hw : Clean w)
    (hf : w.files np = some (.ruleset (nftRuleset uid))) :
    (ExceptT.run (Fallible.tryForEach run (upSteps config sp np))).Keeps dependable
      (fun t => Guarded t ∧ Beside w t) (Ends (Complete config uid) Tidy) w := by
  apply keeps_upSteps (P := fun s => s.optional = false ∨ w.ipv6 = true) dependable_answers _ hf
  · intro remaining t ht
    obtain ⟨hcount, hcount6⟩ := counts_buildSteps config sp
    have hrules := ht.rules
    have hrules6 := ht.rules6
    rw [hw.rules, hcount] at hrules
    rw [hw.rules6, hcount6] at hrules6
    have hguard : Guarded t := guarded_of_unmarked (by rw [ht.tables, hw.tables])
    refine ⟨⟨hguard, ht.frame.ipv6, ht.frame.cgroups, fun key _ => ?_⟩, hguard,
      Nat.le_of_add_right_le hrules, Nat.le_of_add_right_le hrules6⟩
    rw [ht.tables]
  · intro t g ht hg
    have hdone := ht.complete hw hg
    have hloaded : t.loaded g =
        { t with tables := Function.update t.tables tunnelKey (some (tunnelTable [g])) } := by
      rw [World.loaded, ht.tables, hw.tables]
    rw [hloaded]
    refine ⟨⟨hdone.tidy.guarded, ht.frame.ipv6, ht.frame.cgroups, fun key hk => ?_⟩, hdone⟩
    change Function.update t.tables _ _ key = _
    rw [Function.update_of_ne hk, ht.tables]
  · intro s hs out t u hP hframe he hok
    apply dependable_made _ he hok
    rcases optional_of_mem hs with hreq | hv6
    · exact .inl hreq
    · rcases hP with hreq | hipv6
      · exact .inl hreq
      · exact .inr ⟨hv6, hframe.ipv6.trans hipv6⟩

/-! ### Calls -/

theorem Beside.sameNet (h : Beside w t) (hs : SameNet t u) : Beside w u := by
  obtain ⟨files, rfl⟩ := hs
  exact { h with }

theorem keeps_down_of_tidy (hw : Tidy w) : down.Keeps dependable
    (fun t => Guarded t ∧ Beside w t) (fun _ => Clean) w := by
  apply (keeps_down hw.guarded hw.rules hw.rules6).mono (fun _ h => h)
  rintro _ t rfl
  exact clean_cleared w

theorem keeps_up_of_tidy (hw : Tidy w) (config : WgConfig) (uid : UInt32) (workDir : Path) :
    (ExceptT.run (up config uid workDir)).Keeps dependable (fun t => Guarded t ∧ Beside w t)
      (Ends (Complete config uid) Clean) w := by
  have hbeside : ∀ {u}, Beside w u → ∀ t, Guarded t ∧ Beside u t → Guarded t ∧ Beside w t :=
    fun hu t ht => ⟨ht.1, hu.trans ht.2⟩
  apply keeps_up (B := Tidy) (D := Clean) dependable_answers
  · rintro t u hs ⟨hg, hb⟩
    refine ⟨?_, hb.sameNet hs⟩
    obtain ⟨files, rfl⟩ := hs
    exact hg
  · intro t u hs ht
    exact ht.sameNet hs
  · intro t u ht hs
    exact ht.sameNet hs
  · intro t u ht hs hu
    exact (keeps_down_of_tidy (ht.sameNet hs)).mono (hbeside hu.2) fun _ _ h => h
  · exact keeps_down_of_tidy hw
  · intro t u ht hs hu hf
    exact (keeps_upSteps_of_clean (ht.sameNet hs) hf).mono (hbeside hu.2) fun _ _ h => h

inductive Call
  | up (config : WgConfig) (uid : UInt32) (workDir : Path)
  | down

def Call.prog : Call → Prog Op Op.Ret (Except TunnelError Unit)
  | .up config uid workDir => ExceptT.run (Tunnel.up config uid workDir)
  | .down => Tunnel.down >>= fun _ => pure (.ok ())

/-- What something else can have done between two calls: `detour0` may have been deleted, and
the rest of the machine may have changed. -/
structure Elsewhere (w t : World) : Prop where
  link : (t.link = w.link ∧ t.defaultRoute = w.defaultRoute) ∨
    (t.link = none ∧ t.defaultRoute = false)
  unreachable : t.unreachable = w.unreachable
  unreachable6 : t.unreachable6 = w.unreachable6
  rules : t.rules = w.rules
  rules6 : t.rules6 = w.rules6
  tables : t.tables = w.tables
  /-- IPv6 is not switched on later. -/
  ipv6 : t.ipv6 = true → w.ipv6 = true

inductive Reachable : World → Prop
  | boot {w : World} : Clean w → Reachable w
  | call {w t : World} {c : Call} {r : Except TunnelError Unit} :
    Reachable w → Prog.Visits dependable c.prog w (.done r) t → Reachable t
  | elsewhere {w t : World} : Reachable w → Elsewhere w t → Reachable t

def Call.Leaves : Call → Except TunnelError Unit → World → Prop
  | .up config uid _, .ok _, t => Complete config uid t
  | _, _, t => Clean t

theorem keeps_call (hw : Tidy w) (c : Call) :
    c.prog.Keeps dependable (fun t => Guarded t ∧ Beside w t) c.Leaves w := by
  cases c with
  | up config uid workDir =>
    apply (keeps_up_of_tidy hw config uid workDir).mono (fun _ h => h)
    rintro (e | a) t ht
    · exact ht
    · exact ht
  | down =>
    apply (keeps_down_of_tidy hw).bind
    intro _ t hg ht
    exact Prog.keeps_pure hg ht

theorem Call.Leaves.tidy {c : Call} {r : Except TunnelError Unit} (h : c.Leaves r t) :
    Tidy t := by
  match c, r with
  | .up _ _ _, .ok _ => exact Complete.tidy h
  | .up _ _ _, .error _ => exact Clean.tidy h
  | .down, _ => exact Clean.tidy h

theorem Tidy.elsewhere (h : Tidy w) (he : Elsewhere w t) : Tidy t := by
  refine ⟨fun hm => ?_, by rw [he.rules]; exact h.rules, by rw [he.rules6]; exact h.rules6⟩
  rw [he.tables] at hm
  rw [he.rules, he.unreachable, he.rules6, he.unreachable6]
  exact ⟨(h.guarded hm).1, fun hv6 => (h.guarded hm).2 (he.ipv6 hv6)⟩

theorem Reachable.tidy (h : Reachable w) : Tidy w := by
  induction h with
  | boot hc => exact hc.tidy
  | @call w t c r _ hv ih =>
    have hleaves := (Prog.keeps_iff.mp (keeps_call ih c) _ _ hv).2 r rfl
    exact hleaves.tidy
  | elsewhere _ he ih => exact ih.elsewhere he

/-- Marked packets go through `detour0` or nowhere. -/
def Contained (w : World) : Prop := w.routeMarked MARK ≠ .main

theorem contained_of_guarded (hr : 0 < w.rules) (hu : w.unreachable = true) : Contained w := by
  unfold Contained World.routeMarked World.lookup
  rw [if_pos ⟨rfl, hr⟩]
  rw [hu]
  split <;> nofun

/-- In every state that a call visits, whatever fails: while the table that marks packets is
there, so are the rule and the route of last resort, and marked packets stay contained even when
`detour0` is deleted.  An `up` that fails leaves nothing, and one that succeeds everything. -/
theorem calls_safe (hw : Reachable w) (c : Call) {q : Prog Op Op.Ret (Except TunnelError Unit)}
    (hv : Prog.Visits dependable c.prog w q t) :
    ((t.tables tunnelKey).isSome → 0 < t.rules ∧ t.unreachable = true ∧ Contained t ∧
      Contained t.dropLink) ∧
    ∀ r, q = .done r → c.Leaves r t := by
  obtain ⟨⟨hg, -⟩, hend⟩ := Prog.keeps_iff.mp (keeps_call hw.tidy c) q t hv
  refine ⟨fun hm => ?_, hend⟩
  obtain ⟨hr, hu⟩ := (hg hm).1
  exact ⟨hr, hu, contained_of_guarded hr hu, contained_of_guarded hr hu⟩

/-! ### A run in which everything succeeds that can -/

def obliging : Handler Op Op.Ret World
  | .exec c, w => match c.effect w with
    | some w' => (.exited true [], w')
    | none => (.exited false [], w)
  | .createDirAll _, w => (.ok (), w)
  | .toSocketAddrs _, w => (none, w)
  | .openTruncate path, w =>
    (.ok (), { w with files := Function.update w.files path (some (.data [])) })
  | .writeAll path contents, w =>
    (.ok (), { w with files := Function.update w.files path (some contents) })
  | .removeFile path, w => (.ok (), { w with files := Function.update w.files path none })

theorem hasObject_effect {c : Command} (h : c.HasObject w) : (c.effect w).isSome := by
  cases c with
  | nftDelete family table =>
    have hsome : (w.tables (family, table)).isSome := h
    simp [Command.effect, hsome]
  | ruleDel =>
    have hpos : 0 < w.rules := h
    simp [Command.effect, hpos]
  | ruleDel6 =>
    have hpos : 0 < w.rules6 := h
    simp [Command.effect, hpos]
  | routeFlush | routeFlush6 => rfl
  | linkDel =>
    obtain ⟨l, hl⟩ := Option.isSome_iff_exists.mp h
    simp [Command.effect, hl]
  | _ => cases h

theorem obliging_dependable (o : Op) (w : World) :
    dependable o w (obliging o w).1 (obliging o w).2 := by
  cases o with
  | exec c =>
    cases he : c.effect w with
    | some w' =>
      rw [obliging, he]
      exact ⟨.inr ⟨⟨[], rfl⟩, he⟩, fun _ => ⟨[], rfl⟩⟩
    | none =>
      rw [obliging, he]
      refine ⟨.inl ⟨rfl, nofun⟩, ?_⟩
      rintro (hobj | ⟨-, -, hsome⟩)
      · have hsome := hasObject_effect hobj
        rw [he] at hsome
        cases hsome
      · rw [he] at hsome
        cases hsome
  | openTruncate path => exact ⟨.inr ⟨rfl, rfl⟩, trivial⟩
  | writeAll path contents => exact ⟨.inl ⟨rfl, rfl⟩, trivial⟩
  | removeFile path => exact ⟨.inr ⟨rfl, rfl⟩, trivial⟩
  | createDirAll dir => exact ⟨rfl, trivial⟩
  | toSocketAddrs endpoint => exact ⟨rfl, trivial⟩

def freshWorld : World where
  link := none
  defaultRoute := false
  unreachable := false
  unreachable6 := false
  rules := 0
  rules6 := 0
  tables _ := none
  ipv6 := true
  cgroups path := if path = (sliceCgroup 1000).1 then some 7 else none
  files _ := none

theorem clean_freshWorld : Clean freshWorld := ⟨rfl, rfl, rfl, rfl, rfl, rfl, rfl⟩

def plainConfig : WgConfig := ⟨["172.16.0.2/32".toList], some 1280, [], none⟩

def plainUp : Call := .up plainConfig 1000 "/run/detour"

theorem plainUp_safe : (plainUp.prog.run obliging freshWorld).1 = .ok () ∧
    ((((plainUp.prog.run obliging freshWorld).2.tables tunnelKey).isSome →
      0 < (plainUp.prog.run obliging freshWorld).2.rules ∧
      (plainUp.prog.run obliging freshWorld).2.unreachable = true ∧
      Contained (plainUp.prog.run obliging freshWorld).2 ∧
      Contained (plainUp.prog.run obliging freshWorld).2.dropLink) ∧
    ∀ r, (.done (plainUp.prog.run obliging freshWorld).1 : Prog Op Op.Ret _) = .done r →
      plainUp.Leaves r (plainUp.prog.run obliging freshWorld).2) :=
  ⟨rfl, calls_safe (.boot clean_freshWorld) plainUp
    (Prog.visits_run obliging_dependable plainUp.prog freshWorld)⟩

end Detour.Tunnel
