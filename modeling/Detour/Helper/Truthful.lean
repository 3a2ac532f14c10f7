import Detour.Helper.Phases
import Detour.Helper.Exit

/-! What a reader of the status file is told, against what is there. -/

namespace Detour.Helper

open Atomic Detour.Rust Detour.ResolvConf

namespace Machine

variable {H : Setup} {M : Machine} {s : Snapshot}

/-! ### Snapshots -/

def Holds (M : Machine) (s : Snapshot) : Prop :=
  M.status = some (.json s) ∨ M.stamped = some s ∨
    (∃ t, M.task = some t ∧ t.point = .writing s) ∨ ∃ r ∈ M.reads, r.text = some (.json s)

def horizon (M : Machine) : Nanos := M.stoppedAt.getD M.clock

@[simp] theorem claims_snapshot (base : Snapshot) (counters : Counters) (now : Nanos) :
    (snapshot base counters now).claims = base.claims := rfl

theorem host_holds {out : Outside} {o : HostOp} (h : (host H out o M).2.Holds s) :
    M.Holds s ∨ ∃ base, o = .stamp base ∧ s = snapshot base out.counters M.clock := by
  cases o with
  | ask o => exact .inl h
  | sys o => exact .inl h
  | unixNow => exact .inl h
  | stamp base =>
    rcases h with h | h | h
    · exact .inl (.inl h)
    · exact .inr ⟨base, rfl, (Option.some.inj h).symm⟩
    · exact .inl (.inr (.inr h))
  | publish =>
    rcases h with h | h | h
    · left
      simp only [host, rename] at h
      split at h
      · cases hs : M.stamped with
        | none => exact .inl (by simpa [hs] using h)
        | some t => exact .inr (.inl (by simpa [hs] using h))
      · exact .inl h
    · cases h
    · exact .inl (.inr (.inr h))
  | spawnStatus base =>
    rcases h with h | h | ⟨t, ht, hp⟩ | h
    · exact .inl (.inl h)
    · exact .inl (.inr (.inl h))
    · cases ht
      cases hp
    · exact .inl (.inr (.inr (.inr h)))
  | abortStatus =>
    rcases h with h | h | ⟨t, ht, hp⟩ | h
    · exact .inl (.inl h)
    · exact .inl (.inr (.inl h))
    · obtain ⟨u, hu, rfl⟩ := Option.map_eq_some_iff.mp ht
      exact .inl (.inr (.inr (.inl ⟨u, hu, hp⟩)))
    · exact .inl (.inr (.inr (.inr h)))
  | clear =>
    rcases h with h | h
    · cases h
    · exact .inl (.inr h)

/-! ### The invariant -/

structure Silent (M : Machine) : Prop where
  holds : ∀ s, M.Holds s → s.claims = false
  task : ∀ t, M.task = some t → t.base.claims = false

structure Agrees (H : Setup) (M : Machine) (x : Phase) : Prop where
  cleared : M.cleared = true ↔ x = .cleared
  silent : x = .before → M.Silent
  resolv : x = .redirected → H.IsTakeover M.fs.resolv
  status : x = .cleared → ∀ s, M.status = some (.json s) → s.claims = false
  reads : ∀ r ∈ M.reads, r.afterClear = true →
    x = .cleared ∧ ∀ s, r.text = some (.json s) → s.claims = false

structure Inv (H : Setup) (M : Machine) : Prop where
  /-- A claim is no younger than the helper. -/
  aged : ∀ s, M.Holds s → s.claims = true → s.updatedAt * 1000000000 ≤ M.horizon
  phase : M.alive = true → ∃ x, M.main.Follows (hostProtocol H) AnyEnd x ∧ M.Agrees H x

theorem inv_launch {fs : Fs} {status : Option StatusText} {clock : Nanos}
    (hstatus : ∀ s, status = some (.json s) → s.claims = false) :
    (launch H fs status clock).Inv H := by
  have hsilent (s : Snapshot) (h : (launch H fs status clock).Holds s) : s.claims = false := by
    rcases h with h | h | ⟨t, ht, _⟩ | ⟨r, hr, _⟩
    · exact hstatus s h
    · cases h
    · cases ht
    · cases hr
  refine ⟨?_, fun _ => ⟨.before, helper_follows, ?_⟩⟩
  · intro s h hc
    rw [hsilent s h] at hc
    cases hc
  · exact ⟨⟨nofun, nofun⟩, fun _ => ⟨hsilent, nofun⟩, nofun, nofun, nofun⟩

theorem Agrees.step {M' : Machine} {x : Phase} (h : M.Agrees H x)
    (hcleared : M'.cleared = M.cleared) (hreads : M'.reads = M.reads)
    (hsilent : x = .before → M.Silent → M'.Silent)
    (hresolv : x = .redirected → M'.fs.resolv = M.fs.resolv)
    (hstatus : x = .cleared → ∀ s, M'.status = some (.json s) → s.claims = true →
      M.status = some (.json s)) : M'.Agrees H x where
  cleared := by rw [hcleared, h.cleared]
  silent hx := hsilent hx (h.silent hx)
  resolv hx := by rw [hresolv hx]; exact h.resolv hx
  status hx s hs := by
    cases hc : s.claims with
    | false => rfl
    | true => exact hc.symm.trans (h.status hx s (hstatus hx s hs hc))
  reads := by rw [hreads]; exact h.reads

theorem Silent.host {out : Outside} {o : HostOp} (h : M.Silent)
    (hpermit : (hostProtocol H).permits .before o) : (host H out o M).2.Silent where
  holds s hs := by
    rcases host_holds hs with hs | ⟨base, rfl, rfl⟩
    · exact h.holds s hs
    · exact hpermit
  task t ht := by
    cases o with
    | spawnStatus base =>
      cases ht
      exact hpermit
    | abortStatus =>
      obtain ⟨u, hu, rfl⟩ := Option.map_eq_some_iff.mp ht
      exact h.task u hu
    | _ => exact h.task t ht

theorem Agrees.main_stays {out : Outside} {o : HostOp} {x : Phase} (h : M.Agrees H x)
    (hpermit : (hostProtocol H).permits x o) (hclear : o ≠ .clear) :
    (host H out o M).2.Agrees H x := by
  apply h.step
  · cases o with
    | clear => exact absurd rfl hclear
    | _ => rfl
  · cases o <;> rfl
  · rintro rfl hs
    exact hs.host hpermit
  · rintro rfl
    cases o with
    | sys o => exact handler_of_not_touchesResolv _ _ hpermit
    | _ => rfl
  · rintro rfl s hs _
    cases o with
    | publish => exact hpermit.elim
    | clear => exact absurd rfl hclear
    | _ => exact hs

theorem Agrees.redirect {out : Outside} {b : ByteArray} (h : M.Agrees H .before)
    (hb : H.IsTakeover (some (.file b))) :
    (host H out (.sys (.writeAtomic (.resolvConf b))) M).2.Agrees H .redirected where
  cleared := ⟨fun hc => absurd (h.cleared.mp hc) nofun, nofun⟩
  silent := nofun
  resolv _ := hb
  status := nofun
  reads r hr ha := nomatch (h.reads r hr ha).1

theorem Agrees.clear {out : Outside} {x : Phase} (h : M.Agrees H x) :
    (host H out .clear M).2.Agrees H .cleared where
  cleared := ⟨fun _ => rfl, fun _ => rfl⟩
  silent := nofun
  resolv := nofun
  status := nofun
  reads r hr ha := ⟨rfl, (h.reads r hr ha).2⟩

theorem Agrees.main {out : Outside} {o : HostOp} {x y : Phase} (h : M.Agrees H x)
    (hpermit : (hostProtocol H).permits x o)
    (hlead : (hostProtocol H).leads x o (host H out o M).1 y) :
    (host H out o M).2.Agrees H y := by
  unfold hostProtocol at hlead
  dsimp only at hlead
  split at hlead
  next hclear =>
    subst hclear hlead
    exact h.clear
  next hclear =>
    rcases hlead with rfl | ⟨rfl, rfl, b, rfl, hb⟩
    · exact h.main_stays hpermit hclear
    · exact h.redirect hb

end Machine

/-! ### Runs -/

/-- What each step of a run has to meet.  No command changes `resolv.conf` while the helper has
DNS redirected and its status up; the status task publishes no claim once the status is cleared;
and no reader gives an answer it read before the clear to a helper that still lives, or one of a
dead helper whose age fits only in whole seconds. -/
def Orderly (H : Setup) (M : Machine) : Machine.Event → Prop
  | .command i _ => M.alive = true → M.cleared = false → H.IsTakeover M.fs.resolv →
      ∀ o k, M.commands[i]? = some (.op (.sys o) k) → o.touchesResolv = false
  | .publish _ => M.alive = true → M.cleared = true →
      ∀ base aborted s, M.task = some ⟨base, aborted, .writing s⟩ → s.claims = false
  | .answerRead i maxAge => ∀ r s, M.reads[i]? = some r → r.text = some (.json s) →
      s.claims = true →
      (M.alive = true → r.afterClear = M.cleared) ∧
      (M.alive = false → M.clock.asSecs - s.updatedAt ≤ maxAge.asSecs →
        M.clock - s.updatedAt * 1000000000 ≤ maxAge)
  | _ => True

namespace Machine

variable {H : Setup} {M : Machine}

theorem alive_iff : M.alive = true ↔ M.stoppedAt = none := Option.isNone_iff_eq_none

theorem horizon_of_alive (h : M.alive = true) : M.horizon = M.clock := by
  rw [horizon, alive_iff.mp h]
  rfl

theorem snapshot_aged (base : Snapshot) (counters : Counters) (now : Nanos) :
    (snapshot base counters now).updatedAt * 1000000000 ≤ now := asSecs_mul_le now

theorem host_horizon {out : Outside} {o : HostOp} :
    (host H out o M).2.horizon = M.horizon ∧ (host H out o M).2.alive = M.alive := by
  cases o <;> exact ⟨rfl, rfl⟩

theorem Inv.main {out : Outside} (h : M.Inv H) (halive : M.alive = true) :
    (M.stepMain H out).Inv H := by
  obtain ⟨x, hfollows, hagrees⟩ := h.phase halive
  unfold stepMain
  cases hm : M.main with
  | done a => exact h
  | op o k =>
    rw [hm] at hfollows
    obtain ⟨y, hlead, hk⟩ := hfollows.2 (host H out o M).1
    have hnext := hagrees.main hfollows.1 hlead
    refine ⟨?_, fun _ => ⟨y, hk, ?_⟩⟩
    · intro s hs hc
      change _ ≤ (host H out o M).2.horizon
      rw [host_horizon.1]
      rcases host_holds hs with hs | ⟨base, rfl, rfl⟩
      · exact h.aged s hs hc
      · rw [horizon_of_alive halive]
        exact snapshot_aged ..
    · exact ⟨hnext.cleared, fun hx => ⟨(hnext.silent hx).holds, (hnext.silent hx).task⟩,
        hnext.resolv, hnext.status, hnext.reads⟩

theorem Inv.beside {M' : Machine} (h : M.Inv H) (hmain : M'.main = M.main)
    (hstop : M'.stoppedAt = M.stoppedAt) (hclock : M.clock ≤ M'.clock)
    (hholds : ∀ s, M'.Holds s → M.Holds s ∨ M.alive = true ∧ s.updatedAt * 1000000000 ≤ M.clock)
    (hagrees : ∀ x, M.alive = true → M.Agrees H x → M'.Agrees H x) : M'.Inv H := by
  have hhorizon : M.horizon ≤ M'.horizon := by
    rw [horizon, horizon, hstop]
    cases M.stoppedAt with
    | none => exact hclock
    | some t => exact Nat.le_refl t
  have halive : M'.alive = M.alive := by rw [alive, alive, hstop]
  constructor
  · intro s hs hc
    apply Nat.le_trans _ hhorizon
    rcases hholds s hs with hs | ⟨ha, hs⟩
    · exact h.aged s hs hc
    · rwa [horizon_of_alive ha]
  · intro ha
    rw [halive] at ha
    obtain ⟨x, hfollows, hx⟩ := h.phase ha
    exact ⟨x, by rwa [hmain], hagrees x ha hx⟩

theorem Inv.tick (h : M.Inv H) (nanos : Nat) : (M.step H (.tick nanos)).Inv H :=
  h.beside rfl rfl (Nat.le_add_right ..) (fun _ hs => .inl hs) fun _ _ hx =>
    hx.step rfl rfl (fun _ hs => ⟨hs.holds, hs.task⟩) (fun _ => rfl) (fun _ _ hs _ => hs)

theorem Inv.die (h : M.Inv H) (halive : M.alive = true) :
    Inv H { M with stoppedAt := some M.clock } where
  aged s hs hc := Nat.le_trans (h.aged s hs hc) (Nat.le_of_eq (horizon_of_alive halive))
  phase := nofun

theorem Inv.start (h : M.Inv H) (c : Command) : (M.step H (.start c)).Inv H :=
  h.beside rfl rfl (Nat.le_refl _) (fun _ hs => .inl hs) fun _ _ hx =>
    hx.step rfl rfl (fun _ hs => ⟨hs.holds, hs.task⟩) (fun _ => rfl) (fun _ _ hs _ => hs)

theorem Inv.task {t t' : StatusTask} {status' : Option StatusText} (h : M.Inv H)
    (halive : M.alive = true) (ht : M.task = some t) (hbase : t'.base = t.base)
    (hpoint : ∀ s, t'.point = .writing s →
      ∃ counters, s = snapshot t.base counters M.clock)
    (hstatus : status' = M.status ∨ ∃ s, t.point = .writing s ∧ status' = some (.json s) ∧
      (M.cleared = true → s.claims = false)) :
    Inv H { M with task := some t', status := status' } := by
  have hholds (s : Snapshot) (hs : Holds { M with task := some t', status := status' } s) :
      M.Holds s ∨ ∃ counters, s = snapshot t.base counters M.clock := by
    rcases hs with hs | hs | ⟨u, hu, hp⟩ | hs
    · rcases hstatus with rfl | ⟨u, hp, rfl, -⟩
      · exact .inl (.inl hs)
      · cases hs
        exact .inl (.inr (.inr (.inl ⟨t, ht, hp⟩)))
    · exact .inl (.inr (.inl hs))
    · cases hu
      exact .inr (hpoint s hp)
    · exact .inl (.inr (.inr (.inr hs)))
  refine h.beside rfl rfl (Nat.le_refl _) ?_ ?_
  · intro s hs
    rcases hholds s hs with hs | ⟨counters, rfl⟩
    · exact .inl hs
    · exact .inr ⟨halive, snapshot_aged ..⟩
  · intro x _ hx
    refine hx.step rfl rfl ?_ (fun _ => rfl) ?_
    · intro _ hsilent
      constructor
      · intro s hs
        rcases hholds s hs with hs | ⟨counters, rfl⟩
        · exact hsilent.holds s hs
        · exact hsilent.task t ht
      · intro u hu
        cases hu
        rw [hbase]
        exact hsilent.task t ht
    · intro hcleared s hs hc
      rcases hstatus with rfl | ⟨u, -, rfl, hu⟩
      · exact hs
      · cases hs
        rw [hu (hx.cleared.mpr hcleared)] at hc
        cases hc

theorem Inv.wake (h : M.Inv H) (halive : M.alive = true) : M.wakeTask.Inv H := by
  unfold wakeTask
  split
  · next base ht => exact h.task halive ht rfl nofun (.inl rfl)
  · exact h

theorem Inv.stamp (h : M.Inv H) (halive : M.alive = true) (counters : Counters) :
    (M.stampTask counters).Inv H := by
  unfold stampTask
  split
  · next base aborted ht =>
    refine h.task halive ht rfl (fun s hs => ⟨counters, ?_⟩) (.inl rfl)
    cases hs
    rfl
  · exact h

theorem Inv.publish (h : M.Inv H) (halive : M.alive = true) {written : Except ErrorKind Unit}
    (hlate : Orderly H M (.publish written)) : (M.publishTask written).Inv H := by
  unfold publishTask
  split
  · next base aborted s ht =>
    refine h.task halive ht rfl nofun ?_
    split
    · exact .inr ⟨s, rfl, rfl, fun hc => hlate halive hc base aborted s ht⟩
    · exact .inl rfl
  · exact h

theorem Inv.command (h : M.Inv H) {i : Nat} {out : Outside}
    (hcommand : Orderly H M (.command i out)) : (M.stepCommand H i out).Inv H := by
  unfold stepCommand
  split
  · next o k hi =>
    cases o with
    | sys o =>
      refine h.beside rfl rfl (Nat.le_refl _) (fun s hs => .inl hs) fun x halive hx => ?_
      refine hx.step rfl rfl (fun _ hs => ⟨hs.holds, hs.task⟩) ?_ (fun _ _ hs _ => hs)
      rintro rfl
      have hcleared : M.cleared = false := by
        cases hc : M.cleared with
        | false => rfl
        | true => cases hx.cleared.mp hc
      exact handler_of_not_touchesResolv _ _
        (hcommand halive hcleared (hx.resolv rfl) o k hi)
    | _ =>
      exact h.beside rfl rfl (Nat.le_refl _) (fun s hs => .inl hs) fun x _ hx =>
        hx.step rfl rfl (fun _ hs => ⟨hs.holds, hs.task⟩) (fun _ => rfl) (fun _ _ hs _ => hs)
  · exact h

theorem Inv.openStatus (h : M.Inv H) : (M.step H .openStatus).Inv H := by
  have hholds (s : Snapshot) (hs : (M.step H .openStatus).Holds s) : M.Holds s := by
    rcases hs with hs | hs | hs | ⟨r, hr, hs⟩
    · exact .inl hs
    · exact .inr (.inl hs)
    · exact .inr (.inr (.inl hs))
    · rcases List.mem_append.mp hr with hr | hr
      · exact .inr (.inr (.inr ⟨r, hr, hs⟩))
      · rw [List.mem_singleton.mp hr] at hs
        exact .inl hs
  refine h.beside rfl rfl (Nat.le_refl _) (fun s hs => .inl (hholds s hs)) fun x _ hx => ?_
  refine ⟨hx.cleared, fun hb => ⟨fun s hs => (hx.silent hb).holds s (hholds s hs),
    (hx.silent hb).task⟩, hx.resolv, hx.status, ?_⟩
  intro r hr ha
  rcases List.mem_append.mp hr with hr | hr
  · exact hx.reads r hr ha
  · obtain rfl := List.mem_singleton.mp hr
    have hc := hx.cleared.mp ha
    exact ⟨hc, hx.status hc⟩

theorem Inv.answerRead (h : M.Inv H) (i : Nat) (maxAge : Nanos) :
    (M.step H (.answerRead i maxAge)).Inv H := by
  have hreads {r : PendingRead} (hr : r ∈ M.reads.eraseIdx i) : r ∈ M.reads :=
    List.mem_of_mem_eraseIdx hr
  have hholds (s : Snapshot) (hs : (M.step H (.answerRead i maxAge)).Holds s) : M.Holds s := by
    rcases hs with hs | hs | hs | ⟨r, hr, hs⟩
    · exact .inl hs
    · exact .inr (.inl hs)
    · exact .inr (.inr (.inl hs))
    · exact .inr (.inr (.inr ⟨r, hreads hr, hs⟩))
  refine h.beside rfl rfl (Nat.le_refl _) (fun s hs => .inl (hholds s hs)) fun x _ hx => ?_
  exact ⟨hx.cleared, fun hb => ⟨fun s hs => (hx.silent hb).holds s (hholds s hs),
    (hx.silent hb).task⟩, hx.resolv, hx.status, fun r hr => hx.reads r (hreads hr)⟩

theorem Inv.step (h : M.Inv H) {e : Event} (he : Orderly H M e) : (M.step H e).Inv H := by
  cases halive : M.alive with
  | true =>
    cases e with
    | tick nanos => exact h.tick nanos
    | main out => simpa [Machine.step, halive] using h.main halive
    | wake => simpa [Machine.step, halive] using h.wake halive
    | stamp counters => simpa [Machine.step, halive] using h.stamp halive counters
    | publish written => simpa [Machine.step, halive] using h.publish halive he
    | die => simpa [Machine.step, halive] using h.die halive
    | start c => exact h.start c
    | command i out => exact h.command he
    | openStatus => exact h.openStatus
    | answerRead i maxAge => exact h.answerRead i maxAge
  | false =>
    cases e with
    | tick nanos => exact h.tick nanos
    | start c => exact h.start c
    | command i out => exact h.command he
    | openStatus => exact h.openStatus
    | answerRead i maxAge => exact h.answerRead i maxAge
    | _ => simpa [Machine.step, halive] using h

end Machine

def OrderlyRun (H : Setup) : Machine → List Machine.Event → Prop
  | _, [] => True
  | M, e :: events => Orderly H M e ∧ OrderlyRun H (M.step H e) events

theorem OrderlyRun.inv {H : Setup} {M : Machine} {events : List Machine.Event}
    (hrun : OrderlyRun H M events) (h : M.Inv H) : (M.run H events).Inv H := by
  induction events generalizing M with
  | nil => exact h
  | cons e events ih => exact ih hrun.2 (h.step hrun.1)

theorem orderlyRun_append {H : Setup} {M : Machine} {es fs : List Machine.Event} :
    OrderlyRun H M (es ++ fs) ↔ OrderlyRun H M es ∧ OrderlyRun H (M.run H es) fs := by
  induction es generalizing M with
  | nil => exact ⟨fun h => ⟨trivial, h⟩, fun h => h.2⟩
  | cons e es ih => rw [List.cons_append, OrderlyRun, OrderlyRun, ih, and_assoc]; rfl

/-- An answer that claims protection is true, or was while the helper ran, not long ago. -/
def Truthful (H : Setup) (M : Machine) (maxAge : Nanos) (s : Snapshot) : Prop :=
  s.active = true → s.tookOverResolvConf = true →
    (M.alive = true ∧ H.IsTakeover M.fs.resolv) ∨
      ∃ t, M.stoppedAt = some t ∧ M.clock - t ≤ maxAge

theorem Machine.Inv.truthful {H : Setup} {M : Machine} (h : M.Inv H) {i : Nat} {maxAge : Nanos}
    {r : PendingRead} (hr : M.reads[i]? = some r) (ho : Orderly H M (.answerRead i maxAge)) :
    Truthful H M maxAge (readSnapshot r.text M.clock maxAge) := by
  intro hactive htook
  obtain ⟨s, htext, hs, hage⟩ := readSnapshot_active hactive
  rw [hs] at hactive htook
  have hclaims : s.claims = true := by rw [Snapshot.claims, hactive, htook]; rfl
  have hmem : r ∈ M.reads := List.mem_of_getElem? hr
  have hholds : M.Holds s := .inr (.inr (.inr ⟨r, hmem, htext⟩))
  obtain ⟨hspan, hround⟩ := ho r s hr htext hclaims
  cases halive : M.alive with
  | true =>
    left
    obtain ⟨x, -, hx⟩ := h.phase halive
    refine ⟨rfl, ?_⟩
    cases x with
    | before =>
      rw [(hx.silent rfl).holds s hholds] at hclaims
      cases hclaims
    | redirected => exact hx.resolv rfl
    | cleared =>
      have hafter := (hspan halive).trans (hx.cleared.mpr rfl)
      rw [(hx.reads r hmem hafter).2 s htext] at hclaims
      cases hclaims
  | false =>
    right
    cases ht : M.stoppedAt with
    | none => simp [Machine.alive, ht] at halive
    | some t =>
      have haged := h.aged s hholds hclaims
      rw [Machine.horizon, ht] at haged
      exact ⟨t, rfl, Nat.le_trans (Nat.sub_le_sub_left haged _) (hround halive hage)⟩

/-- In every orderly run of a helper that starts with no claim in the status file, each answer
that a reader of the file gets is truthful. -/
theorem status_truthful (H : Setup) (fs : Fs) (status : Option StatusText) (clock : Nanos)
    (hstatus : ∀ s, status = some (.json s) → s.claims = false) (events : List Machine.Event)
    (M : Machine) (hM : (Machine.launch H fs status clock).run H events = M)
    (i : Nat) (maxAge : Nanos) (r : PendingRead) (hr : M.reads[i]? = some r)
    (hrun : OrderlyRun H (.launch H fs status clock) (events ++ [.answerRead i maxAge])) :
    Truthful H M maxAge (readSnapshot r.text M.clock maxAge) := by
  obtain ⟨hevents, hanswer, -⟩ := orderlyRun_append.mp hrun
  subst hM
  exact (hevents.inv (Machine.inv_launch hstatus)).truthful hr hanswer

/-! ### A restore beside a living helper -/

def plainSetup : Setup := ⟨.default, fun _ => none, plainConfig, true⟩

def plainOutside : Outside where
  procs := ⟨fun _ => none, fun _ => false⟩
  answer := plainAnswers
  counters := ⟨[], 0, none⟩
  written := .ok ()
  signalled := .ok ()
  otherStatus := none

def plainFiles : Fs := ⟨some (.file "nameserver 8.8.8.8\n".toByteArray), none, .absent⟩

abbrev plainMachine : Machine := .launch plainSetup plainFiles none 0

def serving : List Machine.Event := List.replicate 19 (.main plainOutside)

def told : Snapshot :=
  snapshot (baseSnapshot plainConfig ⟨⟨.v4 (.new 127 0 0 53), 53⟩,
    [.v4 (.new 8 8 8 8)], []⟩ true) plainOutside.counters 0

def restoring : List Machine.Event := .start .restore :: List.replicate 4 (.command 0 plainOutside)

theorem orderlyRun_main {H : Setup} {M : Machine} {out : Outside} (n : Nat) :
    OrderlyRun H M (List.replicate n (.main out)) := by
  induction n generalizing M with
  | zero => trivial
  | succ n ih => exact ⟨trivial, ih⟩

theorem serving_told_truth : ∃ M, plainMachine.run plainSetup (serving ++ [.openStatus]) = M ∧
    Truthful plainSetup M 10000000000
      (readSnapshot (some (.json told)) M.clock 10000000000) := by
  obtain ⟨M, hM⟩ : ∃ M, plainMachine.run plainSetup (serving ++ [.openStatus]) = M := ⟨_, rfl⟩
  have hread : M.reads[0]? = some ⟨some (.json told), false⟩ := by rw [← hM]; decide +kernel
  have hcleared : M.cleared = false := by rw [← hM]; decide +kernel
  have halive : M.alive = true := by rw [← hM]; decide +kernel
  have hanswer : Orderly plainSetup M (.answerRead 0 10000000000) := by
    intro r s hr _ _
    obtain rfl := Option.some.inj (hread.symm.trans hr)
    exact ⟨fun _ => hcleared.symm, fun hdead => nomatch halive.symm.trans hdead⟩
  have hrun : OrderlyRun plainSetup plainMachine
      (serving ++ [.openStatus] ++ [.answerRead 0 10000000000]) := by
    rw [orderlyRun_append, orderlyRun_append, hM]
    exact ⟨⟨orderlyRun_main 19, trivial, trivial⟩, hanswer, trivial⟩
  exact ⟨M, hM,
    status_truthful plainSetup plainFiles none 0 nofun _ M hM 0 10000000000 _ hread hrun⟩

/-- After a restore the helper is alive and its status up, and `resolv.conf` is the original. -/
theorem restoring_told_untruth :
    ¬∀ (H : Setup) (fs : Fs) (status : Option StatusText) (clock : Nanos),
      (∀ s, status = some (.json s) → s.claims = false) →
      ∀ (events : List Machine.Event) (M : Machine),
      (Machine.launch H fs status clock).run H events = M →
      ∀ (i : Nat) (maxAge : Nanos) (r : PendingRead), M.reads[i]? = some r →
        Truthful H M maxAge (readSnapshot r.text M.clock maxAge) := by
  intro h
  obtain ⟨M, hM⟩ : ∃ M, plainMachine.run plainSetup
    (serving ++ restoring ++ [.openStatus]) = M := ⟨_, rfl⟩
  have hread : M.reads[0]? = some ⟨some (.json told), false⟩ := by rw [← hM]; decide +kernel
  have hstop : M.stoppedAt = none := by rw [← hM]; decide +kernel
  have hresolv : M.fs.resolv = plainFiles.resolv := by rw [← hM]; decide +kernel
  have hclock : M.clock = 0 := by rw [← hM]; decide +kernel
  have htold := h plainSetup plainFiles none 0 nofun _ M hM 0 10000000000 _ hread
  rw [hclock] at htold
  rcases htold rfl rfl with ⟨-, addr, haddr, hfile⟩ | ⟨t, ht, -⟩
  · rw [hresolv] at hfile
    cases haddr
    exact absurd hfile (by decide +kernel)
  · rw [hstop] at ht
    cases ht

end Detour.Helper
