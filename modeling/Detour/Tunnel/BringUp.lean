import Detour.Tunnel.Down

/-! What the steps of `up` have built when they have all succeeded. -/

namespace Detour.Tunnel

open Atomic Detour.Rust Detour.ResolvConf

variable {w t u : World} {c : Command} {s : Step} {uid : UInt32} {config : WgConfig}
  {sp np : Path} {E : Env Op Op.Ret World} {I : World → Prop}

/-! ### The steps but for the last -/

def buildSteps (config : WgConfig) (setconfPath : Path) : List Step :=
  [step .linkAdd, step (.wgSetconf setconfPath)] ++
  config.addressesV4.map (fun addr => step (.addressAdd addr)) ++
  [step (.linkSetUp (config.mtu.getD DEFAULT_MTU)), step .routeAddDefault,
    step .routeAddUnreachable, step .ruleAdd, optional .routeAddUnreachable6, optional .ruleAdd6]

theorem upSteps_eq : upSteps config sp np = buildSteps config sp ++ [step (.nftLoad np)] := by
  simp [upSteps, buildSteps]

def Command.builds : Command → Bool
  | .nftLoad _ => false
  | c => c.adds

theorem builds_of_mem (h : s ∈ buildSteps config sp) : s.command.builds = true := by
  simp only [buildSteps, List.mem_append, List.mem_cons, List.mem_map, List.not_mem_nil,
    or_false] at h
  rcases h with ((rfl | rfl) | ⟨addr, -, rfl⟩) | (rfl | rfl | rfl | rfl | rfl | rfl) <;> rfl

theorem optional_of_mem (h : s ∈ buildSteps config sp) :
    s.optional = false ∨ s.command = .routeAddUnreachable6 ∨ s.command = .ruleAdd6 := by
  simp only [buildSteps, List.mem_append, List.mem_cons, List.mem_map, List.not_mem_nil,
    or_false] at h
  rcases h with ((rfl | rfl) | ⟨addr, -, rfl⟩) | (rfl | rfl | rfl | rfl | rfl | rfl) <;>
    simp [step, optional]

theorem adds_of_builds (h : c.builds = true) : c.adds = true := by
  cases c with
  | nftLoad path => rfl
  | _ => exact h

theorem Command.effect_counts (hc : c.builds = true) (he : c.effect t = some u) :
    u.tables = t.tables ∧ u.rules = t.rules + [c].count .ruleAdd ∧
      u.rules6 = t.rules6 + [c].count .ruleAdd6 := by
  cases c with
  | ruleAdd =>
    cases he
    exact ⟨rfl, rfl, rfl⟩
  | ruleAdd6 =>
    cases he
    exact ⟨rfl, rfl, rfl⟩
  | nftLoad | nftDelete | ruleDel | ruleDel6 | routeFlush | routeFlush6 | linkDel => cases hc
  | _ =>
    simp only [Command.effect] at he
    repeat' split at he
    all_goals cases he
    all_goals exact ⟨rfl, rfl, rfl⟩

/-! ### Running them -/

def commands (ss : List Step) : List Command := ss.map Step.command

/-- How far the steps have come: `P` says of which steps it is certain that they have their
effect once they are through. -/
structure Building (P : Step → Prop) (w : World) (all remaining : List Step) (t : World) :
    Prop where
  frame : Frame w t
  tables : t.tables = w.tables
  rules : t.rules + (commands remaining).count .ruleAdd ≤ w.rules + (commands all).count .ruleAdd
  rules6 :
    t.rules6 + (commands remaining).count .ruleAdd6 ≤ w.rules6 + (commands all).count .ruleAdd6
  suffix : remaining <:+ all
  made : ∀ s ∈ all, s ∈ remaining ∨ (P s → Made t s.command)

variable {P : Step → Prop} {all remaining : List Step}

theorem Building.start (w : World) (all : List Step) : Building P w all all w where
  frame := ⟨rfl, rfl, rfl⟩
  tables := rfl
  rules := Nat.le_refl _
  rules6 := Nat.le_refl _
  suffix := List.suffix_refl all
  made _ hs := .inl hs

theorem Building.next (h : Building P w all (s :: remaining) t) (hc : s.command.builds = true)
    (heff : u = t ∨ s.command.effect t = some u) (hP : P s → Made u s.command) :
    Building P w all remaining u := by
  have hcount : ∀ c, (commands (s :: remaining)).count c =
      (commands remaining).count c + [s.command].count c := by
    intro c
    simp only [commands, List.map_cons, List.count_cons, List.count_nil]
    omega
  have hrules := h.rules
  have hrules6 := h.rules6
  rw [hcount] at hrules hrules6
  have hsuffix : remaining <:+ all := (List.suffix_cons s remaining).trans h.suffix
  have hmade : Grows t u → ∀ s' ∈ all, s' ∈ remaining ∨ (P s' → Made u s'.command) := by
    intro hg s' hs'
    rcases h.made s' hs' with hmem | hm
    · rcases List.mem_cons.mp hmem with rfl | hmem
      · exact .inr hP
      · exact .inl hmem
    · exact .inr fun hp => (hm hp).mono hg
  rcases heff with rfl | he
  · exact ⟨h.frame, h.tables, by omega, by omega, hsuffix, hmade (Grows.refl _)⟩
  · obtain ⟨htables, hr, hr6⟩ := Command.effect_counts hc he
    have hframe := Command.effect_frame he
    refine ⟨⟨hframe.ipv6.trans h.frame.ipv6, hframe.cgroups.trans h.frame.cgroups,
      hframe.files.trans h.frame.files⟩, htables.trans h.tables, ?_, ?_, hsuffix,
      hmade (Command.effect_grows (adds_of_builds hc) he)⟩
    · omega
    · omega

theorem keeps_build (hE : ∀ o w r w', E o w r w' → o.answers w r w')
    (hP : ∀ s ∈ all, ∀ out t u, P s → Frame w t → E (.exec s.command) t out u →
      settle s out = .ok () → Made u s.command)
    (hb : ∀ s ∈ all, s.command.builds = true) :
    (ExceptT.run (Fallible.tryForEach run all)).Keeps E
      (fun t => ∃ remaining, Building P w all remaining t)
      (fun r t => r = .ok () → Building P w all [] t) w := by
  apply Fallible.keeps_tryForEach (J := Building P w all)
  · intro t ht
    exact ⟨⟨[], ht⟩, fun _ => ht⟩
  · intro s remaining t ht
    have hs : s ∈ all := ht.suffix.mem List.mem_cons_self
    have hnext : ∀ out u, E (.exec s.command) t out u → settle s out = .ok () →
        Building P w all remaining u := by
      intro out u he hok
      apply ht.next (hb s hs) _ fun hp => hP s hs out t u hp ht.frame he hok
      rcases settle_cases (hE _ _ _ _ he) with ⟨hsame, -⟩ | ⟨heff, -⟩
      · exact .inl hsame
      · exact .inr heff
    have hleft : ∀ out u, E (.exec s.command) t out u → settle s out ≠ .ok () →
        Building P w all (s :: remaining) u := by
      intro out u he hok
      rcases settle_cases (hE _ _ _ _ he) with ⟨hsame, -⟩ | ⟨-, hdone⟩
      · exact hsame ▸ ht
      · exact absurd hdone hok
    apply (keeps_run ⟨_, ht⟩ _).mono (fun _ h => h)
    · rintro r u ⟨out, he, rfl⟩
      cases hout : settle s out with
      | ok a => exact hnext out u he hout
      | error e =>
        intro hok
        cases hok
    · intro out u he
      by_cases hok : settle s out = .ok ()
      · exact ⟨_, hnext out u he hok⟩
      · exact ⟨_, hleft out u he hok⟩
  · exact Building.start w all

/-! ### The rule set -/

def World.loaded (w : World) (g : CgroupId) : World := { w with
  tables := Function.update w.tables tunnelKey (some (match w.tables tunnelKey with
    | some old => old.merge (tunnelTable [g])
    | none => tunnelTable [g])) }

theorem effect_nftLoad (hf : w.files np = some (.ruleset (nftRuleset uid))) :
    Command.effect w (.nftLoad np) = (w.cgroups (sliceCgroup uid).1).map w.loaded := by
  rw [Command.effect, hf]
  simp only [nftRuleset_eq, resolve_tunnelTable]
  cases w.cgroups (sliceCgroup uid).1 with
  | none => rfl
  | some g => rfl

def Ends (Q R : World → Prop) : Except TunnelError Unit → World → Prop
  | .ok _, t => Q t
  | .error _, t => R t

theorem keeps_upSteps {B Q : World → Prop} (hE : ∀ o w r w', E o w r w' → o.answers w r w')
    (hP : ∀ s ∈ buildSteps config sp, ∀ out t u, P s → Frame w t → E (.exec s.command) t out u →
      settle s out = .ok () → Made u s.command)
    (hf : w.files np = some (.ruleset (nftRuleset uid)))
    (hpart : ∀ remaining t, Building P w (buildSteps config sp) remaining t → I t ∧ B t)
    (hload : ∀ t g, Building P w (buildSteps config sp) [] t →
      t.cgroups (sliceCgroup uid).1 = some g → I (t.loaded g) ∧ Q (t.loaded g)) :
    (ExceptT.run (Fallible.tryForEach run (upSteps config sp np))).Keeps E I (Ends Q B) w := by
  rw [upSteps_eq, Fallible.tryForEach_append]
  apply Fallible.keeps_bind (S := fun _ t => Building P w (buildSteps config sp) [] t)
  · apply ((keeps_build hE hP fun s hs => builds_of_mem hs).and_here).mono
    · rintro t ⟨remaining, ht⟩
      exact (hpart remaining t ht).1
    · rintro (e | a) t ⟨⟨remaining, ht⟩, hok⟩
      · exact (hpart remaining t ht).2
      · exact hok rfl
  · rintro _ t - ht
    have heff := effect_nftLoad (w := t) (by rw [ht.frame.files]; exact hf)
    have hend : ∀ out u, E (.exec (.nftLoad np)) t out u →
        I u ∧ Ends Q B (settle (step (.nftLoad np)) out) u := by
      intro out u he
      rcases settle_cases (s := step (.nftLoad np)) (hE _ _ _ _ he) with ⟨rfl, hopt⟩ | ⟨hu, hok⟩
      · cases hout : settle (step (.nftLoad np)) out with
        | ok _ => cases hopt hout
        | error e => exact hpart [] u ht
      · rw [hok]
        obtain ⟨g, hg, rfl⟩ := Option.map_eq_some_iff.mp (heff.symm.trans hu)
        exact hload t g ht hg
    rw [Fallible.tryForEach, Fallible.tryForEach]
    apply Fallible.keeps_bind (S := fun _ => Q)
    · apply (keeps_run (s := step (.nftLoad np)) (hpart [] t ht).1
        fun out u he => (hend out u he).1).mono (fun _ h => h)
      rintro r u ⟨out, he, rfl⟩
      have hu := (hend out u he).2
      cases hout : settle (step (.nftLoad np)) out with
      | ok _ => rw [hout] at hu; exact hu
      | error e => rw [hout] at hu; exact hu
    · intro _ u hu hq
      exact ⟨hu, hq⟩

/-! ### The files -/

def SameNet (w t : World) : Prop := ∃ files, t = { w with files := files }

theorem SameNet.refl (w : World) : SameNet w w := ⟨w.files, rfl⟩

theorem SameNet.files {files : Path → Option Content} (h : SameNet w t) :
    SameNet w { t with files := files } := by
  obtain ⟨f, rfl⟩ := h
  exact ⟨files, rfl⟩

theorem keeps_orRead (path : Path) (r : Except ErrorKind Unit) (hi : I t) :
    (ExceptT.run (orRead path r)).Keeps E I
      (fun a u => u = t ∧ (a = .ok () → r = .ok ())) t := by
  cases r with
  | ok _ => exact ⟨hi, rfl, fun _ => rfl⟩
  | error e => exact ⟨hi, rfl, fun h => nomatch h⟩

theorem all_sameNet {p : Prog Op Op.Ret α} (hp : p.All fun o => ∀ c, o ≠ .exec c)
    (hs : SameNet w t) : p.Keeps anyhow (SameNet w) (fun _ _ => True) t := by
  induction p generalizing t with
  | done a => exact ⟨hs, trivial⟩
  | op o k ih =>
    refine ⟨hs, fun r u he => ih r (hp.2 r) ?_⟩
    cases o with
    | exec c => exact absurd rfl (hp.1 c)
    | createDirAll dir =>
      cases he
      exact hs
    | toSocketAddrs endpoint =>
      cases he
      exact hs
    | openTruncate path =>
      rcases he with ⟨_, _, rfl⟩ | ⟨_, rfl⟩
      · exact hs
      · exact hs.files
    | writeAll path contents =>
      rcases he with ⟨_, rfl⟩ | ⟨_, _, _, _, rfl⟩
      · exact hs.files
      · exact hs.files
    | removeFile path =>
      rcases he with ⟨_, _, rfl⟩ | ⟨_, rfl⟩
      · exact hs
      · exact hs.files

theorem all_orRead {P : Op → Prop} (path : Path) (r : Except ErrorKind Unit) :
    (ExceptT.run (orRead path r)).All P := by
  cases r <;> trivial

theorem all_writePrivate {P : Op → Prop} {path : Path} {contents : Content}
    (hopen : P (.openTruncate path)) (hwrite : P (.writeAll path contents)) :
    (ExceptT.run (writePrivate path contents)).All P := by
  unfold writePrivate
  apply Fallible.all_bind (Fallible.all_sys hopen)
  intro r
  apply Fallible.all_bind (all_orRead path r)
  intro _
  apply Fallible.all_bind (Fallible.all_sys hwrite)
  intro r
  exact all_orRead path r

theorem all_pinnedSetconf {P : Op → Prop} (hP : ∀ ep, P (.toSocketAddrs ep))
    (config : WgConfig) : (ExceptT.run (pinnedSetconf config)).All P := by
  unfold pinnedSetconf
  split
  · trivial
  · apply Fallible.all_bind
    · unfold resolveEndpointV4
      split
      · trivial
      · exact Fallible.all_bind (Fallible.all_sys (hP _)) fun _ => trivial
    · intro r
      cases r <;> trivial

theorem keeps_writePrivate (path : Path) (contents : Content) (hs : SameNet w t) :
    (ExceptT.run (writePrivate path contents)).Keeps anyhow (SameNet w)
      (fun r u => r = .ok () → u.files path = some contents) t := by
  unfold writePrivate
  apply Fallible.keeps_sys_bind hs
  intro r u he
  have hu : SameNet w u := by
    rcases he with ⟨_, _, rfl⟩ | ⟨_, rfl⟩
    · exact hs
    · exact hs.files
  apply Fallible.keeps_bind (S := fun _ v => v = u)
  · apply (keeps_orRead path r hu).mono (fun _ h => h)
    rintro (e | a) v ⟨rfl, -⟩
    · intro h
      cases h
    · exact rfl
  · rintro _ v hv rfl
    apply Fallible.keeps_sys_bind hv
    intro r x he
    rcases he with ⟨rfl, rfl⟩ | ⟨e, written, rfl, -, rfl⟩
    · exact ⟨hv.files, fun _ => Function.update_self ..⟩
    · exact ⟨hv.files, nofun⟩

theorem keeps_prepare (config : WgConfig) (uid : UInt32) (workDir : Path) (w : World) :
    (ExceptT.run (prepare config uid workDir)).Keeps anyhow (SameNet w)
      (fun r t => r = .ok () → t.files (nftPath workDir) = some (.ruleset (nftRuleset uid))) w := by
  have hquiet : ∀ {α : Type} {p : TunnelM α} {t : World},
      (ExceptT.run p).All (fun o => ∀ c, o ≠ .exec c) → SameNet w t →
      (ExceptT.run p).Keeps anyhow (SameNet w) (Fallible.Goes (fun _ _ => True)
        (fun r t => r = .ok () → t.files (nftPath workDir) =
          some (.ruleset (nftRuleset uid)))) t := by
    intro α p t hp ht
    apply (all_sameNet hp ht).mono (fun _ h => h)
    rintro (e | a) v -
    · intro h
      cases h
    · trivial
  unfold prepare
  have hdir : (ExceptT.run (ask (.createDirAll workDir))).All fun o => ∀ c, o ≠ .exec c :=
    Fallible.all_sys nofun
  apply Fallible.keeps_bind (hquiet hdir (SameNet.refl w))
  intro r t ht _
  apply Fallible.keeps_bind (hquiet (all_orRead workDir r) ht)
  intro _ t ht _
  apply Fallible.keeps_bind (hquiet (all_pinnedSetconf (fun _ => nofun) config) ht)
  intro setconf t ht _
  apply Fallible.keeps_bind (hquiet (all_writePrivate nofun nofun) ht)
  intro _ t ht _
  exact keeps_writePrivate _ _ ht

/-! ### The whole of `up` -/

/-- The course of `up`: `D` holds when the leftovers are cleared, `B` when the steps have failed
somewhere; files have no part in either. -/
theorem keeps_up {D B Q R : World → Prop} {workDir : Path}
    (hE : ∀ o w r w', E o w r w' → o.answers w r w')
    (hI : ∀ t u, SameNet t u → I t → I u) (hQ : ∀ t u, SameNet t u → Q t → Q u)
    (hDR : ∀ t u, D t → SameNet t u → R u) (hBR : ∀ t u, B t → SameNet t u → I u →
      down.Keeps E I (fun _ => R) u)
    (hdown : down.Keeps E I (fun _ => D) w)
    (hsteps : ∀ t u, D t → SameNet t u → I u →
      u.files (nftPath workDir) = some (.ruleset (nftRuleset uid)) →
      (ExceptT.run (Fallible.tryForEach run
        (upSteps config (setconfPath workDir) (nftPath workDir)))).Keeps E I (Ends Q B) u) :
    (ExceptT.run (up config uid workDir)).Keeps E I (Ends Q R) w := by
  unfold up
  apply Fallible.keeps_bind (Fallible.keeps_lift hdown)
  intro _ d hd hD
  have hprep := (keeps_prepare config uid workDir d).restrict hE
  apply Fallible.keeps_bind (S := fun _ t => SameNet d t ∧
    t.files (nftPath workDir) = some (.ruleset (nftRuleset uid)))
  · apply (hprep.and_here).mono
    · intro t ht
      exact hI d t ht hd
    · rintro (e | a) t ⟨ht, hok⟩
      · exact hDR d t hD ht
      · exact ⟨ht, hok rfl⟩
  · rintro _ t ht ⟨hs, hf⟩
    apply Fallible.keeps_bind (Fallible.keeps_lift (hsteps d t hD hs ht hf))
    intro result v hv hend
    apply Fallible.keeps_sys_bind hv
    intro r x he
    have hx : SameNet v x := by
      rcases hE _ _ _ _ he with ⟨_, _, rfl⟩ | ⟨_, rfl⟩
      · exact SameNet.refl x
      · exact (SameNet.refl v).files
    cases result with
    | ok a => exact ⟨hI v x hx hv, hQ v x hx hend⟩
    | error e =>
      apply Fallible.keeps_bind (Fallible.keeps_lift (hBR v x hend hx (hI v x hx hv)))
      intro _ y hy hr
      exact ⟨hy, hr⟩

end Detour.Tunnel
