import Detour.Tunnel.Rollback

/-! Whether the tunnel stays closed once it is up, in runs of calls in which anything may fail. -/

namespace Detour.Tunnel

open Atomic Detour.Rust Detour.ResolvConf

variable {w t u : World} {uid : UInt32} {config : WgConfig} {sp np workDir : Path} {c : Command}

/-! ### Runs -/

inductive Running
  | up (uid : UInt32) (rest : Prog Op Op.Ret (Except TunnelError Unit))
  | down (rest : Prog Op Op.Ret Unit)

/-- The user whose tunnel is up is one for whom an `up` has returned `Ok`, when no `down` has
been asked for since. -/
structure Session where
  world : World
  running : Option Running
  tunnelUp : Option UInt32

inductive Event
  | callUp (config : WgConfig) (uid : UInt32) (workDir : Path)
  | callDown
  | answer
  | return
  | linkGone

inductive Session.Step : Session → Event → Session → Prop
  | callUp {w : World} {tun : Option UInt32} (config : WgConfig) (uid : UInt32)
      (workDir : Path) :
    Step ⟨w, none, tun⟩ (.callUp config uid workDir)
      ⟨w, some (.up uid (ExceptT.run (up config uid workDir))), tun⟩
  | callDown {w : World} {tun : Option UInt32} :
    Step ⟨w, none, tun⟩ .callDown ⟨w, some (.down down), none⟩
  | answerUp {w w' : World} {tun : Option UInt32} {uid : UInt32} {o : Op} {r : o.Ret}
      {k : o.Ret → Prog Op Op.Ret (Except TunnelError Unit)} (h : anyhow o w r w') :
    Step ⟨w, some (.up uid (.op o k)), tun⟩ .answer ⟨w', some (.up uid (k r)), tun⟩
  | answerDown {w w' : World} {tun : Option UInt32} {o : Op} {r : o.Ret}
      {k : o.Ret → Prog Op Op.Ret Unit} (h : anyhow o w r w') :
    Step ⟨w, some (.down (.op o k)), tun⟩ .answer ⟨w', some (.down (k r)), tun⟩
  | upOk {w : World} {tun : Option UInt32} {uid : UInt32} :
    Step ⟨w, some (.up uid (.done (.ok ()))), tun⟩ .return ⟨w, none, some uid⟩
  | upErr {w : World} {tun : Option UInt32} {uid : UInt32} {e : TunnelError} :
    Step ⟨w, some (.up uid (.done (.error e))), tun⟩ .return ⟨w, none, tun⟩
  | downDone {w : World} {tun : Option UInt32} :
    Step ⟨w, some (.down (.done ())), tun⟩ .return ⟨w, none, tun⟩
  | linkGone {w : World} {tun : Option UInt32} :
    Step ⟨w, none, tun⟩ .linkGone ⟨w.dropLink, none, tun⟩

inductive Session.Run (allowed : Session → Event → Prop) : Session → Session → Prop
  | refl {s : Session} : Run allowed s s
  | step {s t u : Session} {e : Event} :
    Run allowed s t → allowed t e → Session.Step t e u → Run allowed s u

/-- While the tunnel is up, no packet of its slice to an IPv4 destination that is not exempt
is routed by the main table. -/
def Session.Closed (s : Session) : Prop :=
  ∀ uid, s.tunnelUp = some uid → ∀ (p : Nft.Packet CgroupId) (g : CgroupId) (a : BitVec 32),
    s.world.cgroups (sliceCgroup uid).1 = some g → InSlice p g → p.dst = .v4 a →
    bypassed p.dst = false → s.world.route p ≠ .main

/-! ### What an `up` that returns `Ok` has put there -/

def Sane (w : World) : Prop := ∀ t, w.tables tunnelKey = some t → ∃ gs, t = tunnelTable gs

structure Protects (uid : UInt32) (w : World) : Prop where
  unreachable : w.unreachable = true
  rules : 0 < w.rules
  marks : ∃ gs g, w.cgroups (sliceCgroup uid).1 = some g ∧
    w.tables tunnelKey = some (tunnelTable gs) ∧ g ∈ gs

theorem Protects.route (h : Protects uid w) {p : Nft.Packet CgroupId} {g : CgroupId}
    (hg : w.cgroups (sliceCgroup uid).1 = some g) (hp : InSlice p g)
    (hd : bypassed p.dst = false) : w.route p ≠ .main := by
  obtain ⟨gs, g', hg', ht, hmem⟩ := h.marks
  cases hg.symm.trans hg'
  have hmark : w.mark p = MARK := by
    simp only [World.mark, ht, traverse_tunnelTable]
    exact if_pos ⟨hd, g, hmem, hp⟩
  rw [World.route, hmark]
  exact contained_of_guarded h.rules h.unreachable

theorem Sane.sameNet (hs : SameNet t u) (h : Sane t) : Sane u := by
  obtain ⟨files, rfl⟩ := hs
  exact h

theorem Sane.loaded (h : Sane w) (g : CgroupId) :
    ∃ gs, (w.loaded g).tables tunnelKey = some (tunnelTable gs) ∧ g ∈ gs := by
  cases ht : w.tables tunnelKey with
  | none => exact ⟨[g], by simp [World.loaded, ht], List.mem_singleton_self g⟩
  | some t =>
    obtain ⟨gs, rfl⟩ := h t ht
    refine ⟨gs ++ [g], ?_, by simp⟩
    simp [World.loaded, ht, merge_tunnelTable]

theorem Sane.deletes (h : Sane w) (hc : c.deletes = true) (he : c.effect w = some t) :
    Sane t := by
  have htables : t.tables = w.tables ∨ ∃ key, t.tables = Function.update w.tables key none := by
    cases c with
    | nftDelete family table =>
      simp only [Command.effect] at he
      split at he
      next =>
        cases he
        exact .inr ⟨_, rfl⟩
      next => cases he
    | ruleDel | ruleDel6 | routeFlush | routeFlush6 | linkDel =>
      simp only [Command.effect] at he
      repeat' split at he
      all_goals cases he
      all_goals exact .inl rfl
    | _ => cases hc
  intro x hx
  rcases htables with hsame | ⟨key, hkey⟩
  · rw [hsame] at hx
    exact h x hx
  · rw [hkey] at hx
    by_cases heq : tunnelKey = key
    · subst heq
      rw [Function.update_self] at hx
      cases hx
    · rw [Function.update_of_ne heq] at hx
      exact h x hx

theorem keeps_down_sane (hw : Sane w) : down.Keeps anyhow Sane (fun _ => Sane) w := by
  have hall : ∀ ss : List Step, (∀ s ∈ ss, s.command.deletes = true) → ∀ {w}, Sane w →
      (Prog.forEach tryRun ss).Keeps anyhow Sane (fun _ => Sane) w := by
    intro ss hss
    induction ss with
    | nil => exact fun h => Prog.keeps_pure h h
    | cons s ss ih =>
      intro w hw
      have hstep : ∀ out t, anyhow (.exec s.command) w out t → Sane t := by
        intro out t he
        rcases settle_cases he with ⟨rfl, -⟩ | ⟨heff, -⟩
        · exact hw
        · exact hw.deletes (hss s List.mem_cons_self) heff
      apply Prog.Keeps.bind (Q := fun _ => Sane)
      · apply (keeps_run hw hstep).bind
        intro _ t ht _
        exact Prog.keeps_pure ht ht
      · intro _ t _ ht
        exact ih (fun s' hs' => hss s' (List.mem_cons_of_mem _ hs')) ht
  exact hall downSteps (by decide) hw

theorem keeps_upSteps_sane (hw : Sane w) (hf : w.files np = some (.ruleset (nftRuleset uid))) :
    (ExceptT.run (Fallible.tryForEach run (upSteps config sp np))).Keeps anyhow Sane
      (Ends (Protects uid) (fun _ => True)) w := by
  apply keeps_upSteps (P := fun s => s.optional = false) (fun _ _ _ _ h => h) _ hf
  · intro remaining t ht
    refine ⟨?_, trivial⟩
    unfold Sane
    rw [ht.tables]
    exact hw
  · intro t g ht hg
    have hsane : Sane t := by
      unfold Sane
      rw [ht.tables]
      exact hw
    have hmade : ∀ s ∈ buildSteps config sp, s.optional = false → Made t s.command := by
      intro s hs hreq
      rcases ht.made s hs with hnil | hm
      · cases hnil
      · exact hm hreq
    have hunreach : Made t .routeAddUnreachable := hmade (step _) (by simp [buildSteps]) rfl
    have hrule : Made t .ruleAdd := hmade (step _) (by simp [buildSteps]) rfl
    obtain ⟨gs, htable, hmem⟩ := hsane.loaded g
    refine ⟨fun x hx => ⟨gs, ?_⟩, hunreach, hrule, gs, g, hg, htable, hmem⟩
    exact Option.some.inj (hx.symm.trans htable)
  · intro s _ out t u hreq _ he hok
    rcases settle_cases he with ⟨-, hopt⟩ | ⟨heff, -⟩
    · rw [hopt hok] at hreq
      cases hreq
    · exact Command.effect_made heff

theorem keeps_up_sane (hw : Sane w) (config : WgConfig) (uid : UInt32) (workDir : Path) :
    (ExceptT.run (up config uid workDir)).Keeps anyhow Sane
      (Ends (Protects uid) (fun _ => True)) w := by
  apply keeps_up (B := fun _ => True) (D := Sane) (fun _ _ _ _ h => h)
  · intro t u hs ht
    exact ht.sameNet hs
  · rintro t u ⟨files, rfl⟩ ht
    exact { ht with }
  · exact fun _ _ _ _ => trivial
  · intro t u _ _ hu
    exact (keeps_down_sane hu).mono (fun _ h => h) fun _ _ _ => trivial
  · exact keeps_down_sane hw
  · intro t u _ _ hu hf
    exact keeps_upSteps_sane hu hf

/-! ### Runs in which no `up` is called while the tunnel is up -/

/-- An `up` is only called when the tunnel is not up. -/
def Calm (s : Session) : Event → Prop
  | .callUp _ _ _ => s.tunnelUp = none
  | _ => True

def Session.Kept (s : Session) : Prop :=
  Sane s.world ∧ match s.running with
  | none => ∀ uid, s.tunnelUp = some uid → Protects uid s.world
  | some (.up uid rest) => s.tunnelUp = none ∧
    rest.Keeps anyhow Sane (Ends (Protects uid) (fun _ => True)) s.world
  | some (.down rest) => s.tunnelUp = none ∧ rest.Keeps anyhow Sane (fun _ => Sane) s.world

theorem Session.Kept.step {s s' : Session} {e : Event} (h : s.Kept) (hc : Calm s e)
    (hs : Session.Step s e s') : s'.Kept := by
  cases hs with
  | callUp config uid workDir => exact ⟨h.1, hc, keeps_up_sane h.1 config uid workDir⟩
  | callDown => exact ⟨h.1, rfl, keeps_down_sane h.1⟩
  | answerUp he =>
    obtain ⟨-, hnone, hrest⟩ := h
    have hnext := hrest.2 _ _ he
    exact ⟨hnext.here, hnone, hnext⟩
  | answerDown he =>
    obtain ⟨-, hnone, hrest⟩ := h
    have hnext := hrest.2 _ _ he
    exact ⟨hnext.here, hnone, hnext⟩
  | upOk =>
    obtain ⟨hsane, -, -, hend⟩ := h
    refine ⟨hsane, ?_⟩
    rintro uid' ⟨⟩
    exact hend
  | upErr =>
    obtain ⟨hsane, hnone, -⟩ := h
    refine ⟨hsane, ?_⟩
    rintro uid' rfl
    cases hnone
  | downDone =>
    obtain ⟨hsane, hnone, -⟩ := h
    refine ⟨hsane, ?_⟩
    rintro uid' rfl
    cases hnone
  | linkGone =>
    refine ⟨h.1, fun uid huid => ?_⟩
    have hprot := h.2 uid huid
    exact { hprot with }

theorem Session.Kept.run {s s' : Session} (h : s.Kept) (hr : Session.Run Calm s s') :
    s'.Kept := by
  induction hr with
  | refl => exact h
  | step _ hc hs ih => exact ih.step hc hs

theorem Session.Kept.closed {s : Session} (h : s.Kept) : s.Closed := by
  obtain ⟨w, running, tun⟩ := s
  intro uid hup p g a hg hp hd hb
  cases hup
  match running, h with
  | none, ⟨_, hprot⟩ => exact (hprot uid rfl).route hg hp hb
  | some (.up _ _), ⟨_, hnone, _⟩ => cases hnone
  | some (.down _), ⟨_, hnone, _⟩ => cases hnone

def Session.start (w : World) : Session := ⟨w, none, none⟩

/-- Whatever fails, the tunnel stays closed in every run in which no `up` is called while it is
up. -/
theorem calm_closed (hw : Clean w) {s : Session} (hr : Session.Run Calm (.start w) s) :
    s.Closed := by
  have hstart : (Session.start w).Kept := by
    refine ⟨fun t ht => ?_, nofun⟩
    rw [show (Session.start w).world = w from rfl, hw.tables] at ht
    cases ht
  exact (hstart.run hr).closed

/-! ### A second `up` -/

theorem Session.Run.trans {allowed : Session → Event → Prop} {s t u : Session}
    (h : Session.Run allowed s t) (h' : Session.Run allowed t u) : Session.Run allowed s u := by
  induction h' with
  | refl => exact h
  | step _ hc hs ih => exact .step ih hc hs

theorem Session.Run.visits {allowed : Session → Event → Prop}
    (hok : ∀ s, allowed s .answer) {tun : Option UInt32}
    {p q : Prog Op Op.Ret (Except TunnelError Unit)} (h : Prog.Visits anyhow p w q t) :
    Session.Run allowed ⟨w, some (.up uid p), tun⟩ ⟨t, some (.up uid q), tun⟩ := by
  induction h with
  | refl => exact .refl
  | step he _ ih => exact (Session.Run.step .refl (hok _) (.answerUp he)).trans ih

def plainUpDone : World := (plainUp.prog.run obliging freshWorld).2

theorem plainUp_run {allowed : Session → Event → Prop} (hcall : allowed (.start freshWorld)
    (.callUp plainConfig 1000 "/run/detour")) (hanswer : ∀ s, allowed s .answer)
    (hreturn : ∀ s, allowed s .return) :
    Session.Run allowed (.start freshWorld) ⟨plainUpDone, none, some 1000⟩ := by
  have hv : Prog.Visits anyhow plainUp.prog freshWorld (.done (.ok ())) plainUpDone :=
    Prog.visits_run (fun o w => (obliging_dependable o w).1) plainUp.prog freshWorld
  have hcalled : Session.Run allowed (.start freshWorld)
      ⟨freshWorld, some (.up 1000 plainUp.prog), none⟩ := .step .refl hcall (.callUp ..)
  exact .step (hcalled.trans (.visits hanswer hv)) (hreturn _) .upOk

theorem plainUp_closed : Session.Closed ⟨plainUpDone, none, some 1000⟩ :=
  calm_closed clean_freshWorld (plainUp_run rfl (fun _ => trivial) (fun _ => trivial))

def slicePacket : Nft.Packet CgroupId := ⟨[1, 2, 3, 7, 8], .v4 (v4 1 1 1 1), some 443, 0, "eth0"⟩

/-- The first command of a second `up` opens the tunnel. -/
theorem second_up_opens : ¬∀ (w : World) (s : Session), Clean w →
    Session.Run (fun _ _ => True) (.start w) s → s.Closed := by
  intro hall
  have hfirst : Session.Run (fun _ _ => True) (.start freshWorld)
      ⟨plainUpDone, none, some 1000⟩ := plainUp_run trivial (fun _ => trivial) fun _ => trivial
  have hsecond := Session.Run.step hfirst trivial (.callUp plainConfig 1000 "/run/detour")
  have hopened := hsecond.trans (Session.Run.visits (fun _ => trivial)
    (Prog.visits_after (fun o w => (obliging_dependable o w).1) 1 plainUp.prog plainUpDone))
  exact hall _ _ clean_freshWorld hopened 1000 rfl slicePacket 7 _ rfl rfl rfl (by decide) rfl

end Detour.Tunnel
