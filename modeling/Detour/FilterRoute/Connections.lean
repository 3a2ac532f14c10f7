import Detour.FilterRoute.Redirect
import Detour.Tunnel.FailClosed

/-! The way of a connection when the tunnel and the redirect are up together. -/

namespace Detour.FilterRoute

open Atomic Detour.Rust Detour.ResolvConf Detour.Tunnel

variable {w t u : World} {uid : UInt32} {port : UInt16} {p : Nft.Packet CgroupId}
  {g : CgroupId} {gui : List CgroupId} {listening : Nat → Bool}

/-! ### Runs -/

inductive Call
  | tunnel (c : Tunnel.Call)
  | up (uid : UInt32) (port : UInt16)
  | down

def Call.prog : Call → Prog Op Op.Ret Unit
  | .tunnel c => c.prog >>= fun _ => pure ()
  | .up uid port => ExceptT.run (FilterRoute.up uid port) >>= fun _ => pure ()
  | .down => FilterRoute.down

/-- The states between the calls, from a machine that never had a tunnel or a redirect. -/
inductive Reached : World → Prop
  | boot {w : World} : Clean w → w.tables filterKey = none → Reached w
  | call {w t : World} {c : Call} :
    Reached w → Prog.Visits dependable c.prog w (.done ()) t → Reached t
  | elsewhere {w t : World} : Reached w → Elsewhere w t → Reached t

/-! ### Connections -/

def leave (w : World) (p : Nft.Packet CgroupId) : Route :=
  match p.dst with
  | .v4 _ => w.routeMarked (w.mark p)
  | .v6 _ => w.routeMarked6 (w.mark p)

/-- The local port that the first packet of a connection is sent to instead.  The chain comes
after the one that marks, and sees IPv4 only. -/
def redirected (w : World) (p : Nft.Packet CgroupId) : Option Nat :=
  match p.dst, w.tables filterKey with
  | .v4 _, some t => match (t.traverse "output" { p with mark := w.mark p }).nat with
    | some (.redirectTo port) => some port
    | _ => none
  | _, _ => none

def isLoopback : Nft.Dest → Bool
  | .v4 a => (⟨v4 127 0 0 0, 8⟩ : Nft.Net 32).contains a
  | .v6 a => a = 1

/-- The connection the proxy makes on behalf of one that was redirected to it, from the cgroup
the proxy is in. -/
def handleTransparent (w : World) (gui : List CgroupId) (p : Nft.Packet CgroupId) : Route :=
  -- Refuse to connect back to ourselves.
  if isLoopback p.dst then .refused
  else
    let upstream : Nft.Packet CgroupId := { p with cgroup := gui, mark := 0 }
    match redirected w upstream with
    | some _ => .refused
    | none => leave w upstream

def carry (w : World) (listening : Nat → Bool) (gui : List CgroupId) (p : Nft.Packet CgroupId) :
    Route :=
  match redirected w p with
  | none => leave w p
  | some port => if listening port then handleTransparent w gui p else .refused

/-! ### What holds in every state -/

structure Sound (w : World) : Prop where
  guarded : Guarded w
  sane : Sane w
  filter : FilterSane w

structure Settled (w : World) : Prop where
  tidy : Tidy w
  sane : Sane w
  filter : FilterSane w

theorem Settled.sound (h : Settled w) : Sound w := ⟨h.tidy.guarded, h.sane, h.filter⟩

theorem filterKey_ne : filterKey ≠ tunnelKey := by decide

theorem FilterSane.beside (h : FilterSane w) (hb : Beside w t) : FilterSane t := by
  intro x hx
  rw [hb.tables filterKey filterKey_ne] at hx
  exact h x hx

theorem SameBut.tables (h : SameBut w t) : t.tables tunnelKey = w.tables tunnelKey := by
  obtain ⟨table, files, rfl⟩ := h
  exact Function.update_of_ne filterKey_ne.symm table w.tables

theorem Settled.sameBut (h : Settled w) (hs : SameBut w t) (hf : FilterSane t) : Settled t := by
  have htables := hs.tables
  refine ⟨⟨?_, ?_, ?_⟩, ?_, hf⟩
  · intro hm
    rw [htables] at hm
    obtain ⟨table, files, rfl⟩ := hs
    exact h.tidy.guarded hm
  · obtain ⟨table, files, rfl⟩ := hs
    exact h.tidy.rules
  · obtain ⟨table, files, rfl⟩ := hs
    exact h.tidy.rules6
  · intro x hx
    rw [htables] at hx
    exact h.sane x hx

theorem keeps_sane (hw : Sane w) (c : Tunnel.Call) :
    c.prog.Keeps anyhow Sane (fun _ => Sane) w := by
  cases c with
  | up config uid workDir =>
    exact (keeps_up_sane hw config uid workDir).and_here.mono (fun _ h => h) fun _ _ h => h.1
  | down =>
    apply (keeps_down_sane hw).bind
    intro _ t _ ht
    exact Prog.keeps_pure ht ht

theorem keeps_tunnel (hw : Settled w) (c : Tunnel.Call) :
    c.prog.Keeps dependable Sound (fun _ => Settled) w := by
  have hsane := (keeps_sane hw.sane c).restrict dependable_answers
  apply (((keeps_call hw.tidy c).and hsane).and_here).mono
  · rintro t ⟨⟨hg, hb⟩, hs⟩
    exact ⟨hg, hs, hw.filter.beside hb⟩
  · rintro r t ⟨⟨⟨-, hb⟩, hs⟩, hl, -⟩
    exact ⟨hl.tidy, hs, hw.filter.beside hb⟩

theorem keeps_filter {p : Prog Op Op.Ret α} {Q : α → World → Prop} (hw : Settled w)
    (hp : p.Keeps dependable (Keeping w) Q w) :
    p.Keeps dependable Sound (fun _ => Settled) w := by
  apply hp.and_here.mono
  · intro t ht
    exact (hw.sameBut ht.1 ht.2).sound
  · intro a t ht
    exact hw.sameBut ht.1.1 ht.1.2

theorem keeps_prog (hw : Settled w) (c : Call) :
    c.prog.Keeps dependable Sound (fun _ => Settled) w := by
  cases c with
  | tunnel c =>
    apply (keeps_tunnel hw c).bind
    intro _ t hs ht
    exact Prog.keeps_pure hs ht
  | up uid port =>
    apply (keeps_filter hw (keeps_up hw.filter uid port)).bind
    intro _ t hs ht
    exact Prog.keeps_pure hs ht
  | down => exact keeps_filter hw (keeps_down hw.filter)

theorem Reached.settled (h : Reached w) : Settled w := by
  induction h with
  | boot hc hf =>
    refine ⟨hc.tidy, fun t ht => ?_, filterSane_of_none hf⟩
    rw [hc.tables] at ht
    cases ht
  | @call w t c _ hv ih => exact (Prog.keeps_iff.mp (keeps_prog ih c) _ _ hv).2 () rfl
  | elsewhere _ he ih =>
    refine ⟨ih.tidy.elsewhere he, fun x hx => ?_, fun x hx => ?_⟩
    · rw [he.tables] at hx
      exact ih.sane x hx
    · rw [he.tables] at hx
      exact ih.filter x hx

/-! ### Where the bytes go -/

def TunnelUp (w : World) (g : CgroupId) : Prop :=
  ∃ gs, w.tables tunnelKey = some (tunnelTable gs) ∧ g ∈ gs

theorem TunnelUp.mark (h : TunnelUp w g) (hp : InSlice p g) (hb : bypassed p.dst = false) :
    w.mark p = MARK := by
  obtain ⟨gs, ht, hmem⟩ := h
  simp only [World.mark, ht, traverse_tunnelTable]
  exact if_pos ⟨hb, g, hmem, hp⟩

theorem leave_marked (hs : Sound w) (hup : TunnelUp w g) (hp : InSlice p g)
    (hb : bypassed p.dst = false) : leave w p ≠ .main := by
  have hm : (w.tables tunnelKey).isSome := by
    obtain ⟨gs, ht, -⟩ := hup
    rw [ht]
    rfl
  obtain ⟨⟨hr, hu⟩, h6⟩ := hs.guarded hm
  unfold leave
  rw [hup.mark hp hb]
  cases p.dst with
  | v4 a => exact contained_of_guarded hr hu
  | v6 a =>
    unfold World.routeMarked6
    cases hv6 : w.ipv6 with
    | false => simp
    | true =>
      obtain ⟨hr6, hu6⟩ := h6 hv6
      simp [hr6, hu6]

theorem leave_unmarked (hs : Sane w) {a : BitVec 32} (hd : p.dst = .v4 a) (hm : p.mark = 0)
    (hout : ∀ h, TunnelUp w h → ¬InSlice p h) : leave w p = .main := by
  have hmark : w.mark p = 0 := by
    cases ht : w.tables tunnelKey with
    | none => simp [World.mark, ht, hm]
    | some t =>
      obtain ⟨gs, rfl⟩ := hs t ht
      simp only [World.mark, ht, traverse_tunnelTable, hm]
      rw [if_neg]
      rintro ⟨-, h, hmem, hin⟩
      exact hout h ⟨gs, ht, hmem⟩ hin
  unfold leave
  rw [hd, hmark]
  rfl

theorem redirected_v4 (hf : FilterSane w) {a : BitVec 32} (hd : p.dst = .v4 a)
    (hb : bypassed p.dst = false) (n : Nat) : redirected w p = some n ↔
      ∃ g port, w.tables filterKey = some (filterTable g port) ∧ InSlice p g ∧
        p.dport = some 443 ∧ n = port.toNat := by
  unfold redirected
  cases ht : w.tables filterKey with
  | none => simp [hd]
  | some t =>
    obtain ⟨g, port, rfl⟩ := hf t ht
    have hnat := traverse_filterTable { p with mark := w.mark p } port (g := g) hd hb
    rw [hd] at hnat ⊢
    simp only [hnat, Option.some.injEq, filterTable_inj]
    have hin : InSlice { p with mark := w.mark p } g ↔ InSlice p g := Iff.rfl
    by_cases hc : InSlice p g ∧ p.dport = some 443
    · rw [if_pos ⟨hin.mpr hc.1, hc.2⟩]
      constructor
      · intro hn
        cases hn
        exact ⟨g, port, ⟨rfl, rfl⟩, hc.1, hc.2, rfl⟩
      · rintro ⟨g', port', ⟨rfl, rfl⟩, -, -, rfl⟩
        rfl
    · rw [if_neg fun h => hc ⟨hin.mp h.1, h.2⟩]
      constructor
      · intro hn
        cases hn
      · rintro ⟨g', port', ⟨rfl, rfl⟩, hp, h443, -⟩
        exact absurd ⟨hp, h443⟩ hc

theorem isLoopback_bypassed {d : Nft.Dest} (h : bypassed d = false) : isLoopback d = false := by
  cases d with
  | v4 a =>
    by_contra hl
    rw [Bool.not_eq_false] at hl
    have hb : bypassed (.v4 a) = true := List.any_eq_true.mpr ⟨_, List.mem_cons_self, hl⟩
    rw [hb] at h
    cases h
  | v6 a =>
    by_contra hl
    rw [Bool.not_eq_false] at hl
    obtain rfl : a = 1 := by simpa [isLoopback] using hl
    revert h
    decide

theorem handleTransparent_main (hs : Sound w) {a : BitVec 32} (hd : p.dst = .v4 a)
    (hb : bypassed p.dst = false) (ht : w.tables filterKey = some (filterTable g port))
    (hg : gui[3]? ≠ some g) (hgui : ∀ h, gui[3]? = some h → ¬TunnelUp w h) :
    handleTransparent w gui p = .main := by
  have hred : redirected w { p with cgroup := gui, mark := 0 } = none := by
    have hiff := redirected_v4 (p := { p with cgroup := gui, mark := 0 }) hs.filter hd hb
    cases hr : redirected w { p with cgroup := gui, mark := 0 } with
    | none => rfl
    | some n =>
      obtain ⟨g', port', ht', hin, -⟩ := (hiff n).mp hr
      obtain ⟨rfl, -⟩ := filterTable_inj.mp (Option.some.inj (ht.symm.trans ht'))
      exact absurd hin hg
  have hmain : leave w { p with cgroup := gui, mark := 0 } = .main :=
    leave_unmarked hs.sane hd rfl fun h hup hin => hgui h hin hup
  rw [handleTransparent, isLoopback_bypassed hb]
  simp only [hred, hmain]
  rfl

/-- While the tunnel is up, the bytes of a connection of its slice leave by the main table exactly
when it is redirected, that is headed for port 443 over IPv4 while the redirect is up for the
same slice, and the proxy listens. -/
theorem carry_main_iff (hw : Reached w) (c : Call) {q : Prog Op Op.Ret Unit}
    (hv : Prog.Visits dependable c.prog w q t) (hup : TunnelUp t g) (hp : InSlice p g)
    (hb : bypassed p.dst = false) (hgui : ∀ h, gui[3]? = some h → ¬TunnelUp t h) :
    carry t listening gui p ≠ .main ↔
      ¬∃ port a, t.tables filterKey = some (filterTable g port) ∧ p.dst = .v4 a ∧
        p.dport = some 443 ∧ listening port.toNat = true := by
  have hs : Sound t := (Prog.keeps_iff.mp (keeps_prog hw.settled c) q t hv).1
  have hdirect := leave_marked hs hup hp hb
  cases hd : p.dst with
  | v6 a =>
    have hred : redirected t p = none := by
      unfold redirected
      rw [hd]
    rw [carry, hred]
    refine iff_of_true hdirect ?_
    rintro ⟨port, b, -, hv4, -⟩
    cases hv4
  | v4 a =>
    have hred := redirected_v4 hs.filter hd hb
    cases hr : redirected t p with
    | none =>
      rw [carry, hr]
      refine iff_of_true hdirect ?_
      rintro ⟨port, -, ht, -, h443, -⟩
      have hsome := (hred port.toNat).mpr ⟨g, port, ht, hp, h443, rfl⟩
      rw [hr] at hsome
      cases hsome
    | some n =>
      obtain ⟨g', port, ht, hp', h443, rfl⟩ := (hred n).mp hr
      obtain rfl : g = g' := Option.some.inj (hp.symm.trans hp')
      rw [carry, hr]
      by_cases hl : listening port.toNat = true
      · have hmain : handleTransparent t gui p = .main :=
          handleTransparent_main hs hd hb ht (fun hg => hgui g hg hup) hgui
        refine iff_of_false ?_ (fun hn => hn ⟨port, a, ht, rfl, h443, hl⟩)
        simp only [hl, if_true, hmain]
        exact fun hn => hn rfl
      · refine iff_of_true ?_ ?_
        · simp only [hl]
          nofun
        · rintro ⟨port', -, ht', -, -, hl'⟩
          obtain ⟨-, rfl⟩ := filterTable_inj.mp (Option.some.inj (ht.symm.trans ht'))
          exact hl hl'

/-! ### A run with both up -/

def bothUp : World :=
  (Prog.run obliging (Call.prog (.up 1000 8089))
    (Prog.run obliging (Call.prog (.tunnel plainUp)) freshWorld).2).2

theorem reached_freshWorld : Reached freshWorld := .boot clean_freshWorld rfl

theorem reached_plainUp :
    Reached (Prog.run obliging (Call.prog (.tunnel plainUp)) freshWorld).2 :=
  .call (c := .tunnel plainUp) reached_freshWorld (Prog.visits_run obliging_dependable _ _)

theorem visits_bothUp : Prog.Visits dependable (Call.prog (.up 1000 8089))
    (Prog.run obliging (Call.prog (.tunnel plainUp)) freshWorld).2 (.done ()) bothUp :=
  Prog.visits_run obliging_dependable _ _

theorem tunnelUp_bothUp : TunnelUp bothUp 7 := ⟨[7], rfl, List.mem_singleton_self 7⟩

theorem gui_outside (h : CgroupId) (hg : [1, 2, 3, 9][3]? = some h) : ¬TunnelUp bothUp h := by
  cases hg
  intro hup
  have hmark := hup.mark (p := { slicePacket with cgroup := [1, 2, 3, 9] }) rfl (by decide)
  exact absurd hmark (by decide +kernel)

theorem bothUp_http :
    carry bothUp (fun n => n == 8089) [1, 2, 3, 9] { slicePacket with dport := some 80 } ≠ .main ↔
      ¬∃ (port : UInt16) (a : BitVec 32), bothUp.tables filterKey = some (filterTable 7 port) ∧
        slicePacket.dst = .v4 a ∧ some 80 = some 443 ∧ (port.toNat == 8089) = true :=
  carry_main_iff (p := { slicePacket with dport := some 80 }) reached_plainUp (.up 1000 8089)
    visits_bothUp tunnelUp_bothUp rfl (by decide) gui_outside

theorem bothUp_https : ¬∀ (w t : World) (c : Call) (q : Prog Op Op.Ret Unit) (g : CgroupId)
    (p : Nft.Packet CgroupId) (gui : List CgroupId) (listening : Nat → Bool), Reached w →
    Prog.Visits dependable c.prog w q t → TunnelUp t g → InSlice p g → bypassed p.dst = false →
    (∀ h, gui[3]? = some h → ¬TunnelUp t h) → carry t listening gui p ≠ .main := by
  intro hall
  exact hall _ _ _ _ 7 slicePacket [1, 2, 3, 9] (fun n => n == 8089) reached_plainUp
    visits_bothUp tunnelUp_bothUp rfl (by decide) gui_outside (by decide +kernel)

end Detour.FilterRoute
