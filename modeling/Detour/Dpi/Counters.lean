import Detour.Dpi.Connect
import Detour.Lib.Spawn
import Detour.Lib.Tally
import Mathlib.Data.List.Perm.Subperm

/-! `DpiProxy`: every connection has a task of its own, and all of them share two counters. -/

namespace Detour.Dpi

open Atomic Detour.Rust Detour.Tunnel Tls

/-! ### The code -/

inductive Target
  | authority (target : Text)
  | address (ip : Ipv4Addr) (port : UInt16)

abbrev Chunk (cap : Nat) := { bs : Bytes // bs.length ≤ cap }

/-- The steps of a connection, and of a look at the counters, between which others may run. -/
inductive DpiOp
  | read (cap : Nat)
  | connect (target : Target)
  | respond (bytes : Bytes)
  | countConnection
  | countFragmented
  | send (bytes : Bytes)
  | relay
  | loadRunning
  | loadConnections
  | loadFragmented

/-- A read gives nothing where it fails; the other steps on a socket say whether they succeed. -/
abbrev DpiOp.Ret : DpiOp → Type
  | .read cap => Option (Chunk cap)
  | .connect _ | .respond _ | .send _ | .loadRunning => Bool
  | .loadConnections | .loadFragmented => UInt64
  | .countConnection | .countFragmented | .relay => Unit

abbrev DpiM := Prog DpiOp DpiOp.Ret

abbrev dpiOp (o : DpiOp) : DpiM o.Ret := Prog.perform o

inductive Dropped
  | hungUp
  | notConnect
  | unknown
  | loopback
  | unreached
  | unanswered

inductive Ended
  | dropped (why : Dropped)
  | silent
  | tunnelled (target : Target) (first framed : Bytes)
  | panicked

namespace DpiProxy

def countFramed (first framed : Bytes) : DpiM Unit :=
  if framed.length ≠ first.length then dpiOp .countFragmented else pure ()

def sendOn (framed : Bytes) : DpiM Unit := do
  let sent : Bool ← dpiOp (.send framed)
  if sent then dpiOp .relay else pure ()

def spliceFirst (target : Target) (first : Bytes) : DpiM Ended :=
  if first.length = 0 then return .silent
  else match fragmentClientHello first with
    | .error _ => return .panicked
    | .ok framed => do
      let _ : Unit ← countFramed first framed
      let _ : Unit ← sendOn framed
      return .tunnelled target first framed

def splice (target : Target) : DpiM Ended := do
  let first : Option (Chunk (16 * 1024)) ← dpiOp (.read (16 * 1024))
  match first with
  | none => return .silent
  | some first => spliceFirst target first.val

def tunnel (target : Target) : DpiM Ended := do
  let _ : Unit ← dpiOp .countConnection
  splice target

def handleTransparent (destination : Option (Ipv4Addr × UInt16)) : DpiM Ended :=
  match destination with
  | none => return .dropped .unknown
  | some (ip, port) =>
    -- Refuse to connect back to ourselves.
    if ip.firstOctet = 127 then return .dropped .loopback
    else do
      let connected : Bool ← dpiOp (.connect (.address ip port))
      if connected then tunnel (.address ip port) else return .dropped .unreached

def readHead (buf : Bytes) : DpiM (Option Bytes) := do
  let byte : Option (Chunk 1) ← dpiOp (.read 1)
  match byte with
  | some ⟨b :: _, _⟩ =>
    if _h : BLANK_LINE.isSuffixOf (buf ++ [b]) ∨ (buf ++ [b]).length > 8192 then
      return some (buf ++ [b])
    else readHead (buf ++ [b])
  | _ => return none
termination_by 8193 - buf.length
decreasing_by
  rw [not_or, List.length_append, List.length_singleton] at _h
  rw [List.length_append, List.length_singleton]
  omega

def handle : DpiM Ended := do
  let head : Option Bytes ← readHead []
  match head with
  | none => return .dropped .hungUp
  | some buf =>
    match parseConnectTarget (fromUtf8Lossy buf) with
    | none => do
      let _ : Bool ← dpiOp (.respond (ascii "HTTP/1.1 405 Method Not Allowed\r\n\r\n"))
      return .dropped .notConnect
    | some target => do
      let connected : Bool ← dpiOp (.connect (.authority target))
      if connected then do
        let answered : Bool ←
          dpiOp (.respond (ascii "HTTP/1.1 200 Connection established\r\n\r\n"))
        if answered then tunnel (.authority target) else return .dropped .unanswered
      else do
        let _ : Bool ← dpiOp (.respond (ascii "HTTP/1.1 502 Bad Gateway\r\n\r\n"))
        return .dropped .unreached

end DpiProxy

inductive Incomer
  | client
  | redirected (destination : Option (Ipv4Addr × UInt16))

def DpiProxy.serve : Incomer → DpiM Ended
  | .client => handle
  | .redirected destination => handleTransparent destination

/-! ### Many connections -/

structure Stats (ι : Type) where
  connections : Tally ι
  fragmented : Tally ι

variable {ι : Type}

def Stats.default : Stats ι := ⟨.zero, .zero⟩

def counting (i : ι) : Env DpiOp DpiOp.Ret (Stats ι)
  | .countConnection, s, _, t => t = { s with connections := s.connections.add i }
  | .countFragmented, s, _, t => t = { s with fragmented := s.fragmented.add i }
  | .loadConnections, s, r, t => r = s.connections.value ∧ t = s
  | .loadFragmented, s, r, t => r = s.fragmented.value ∧ t = s
  | .read _, s, _, t | .connect _, s, _, t | .respond _, s, _, t | .send _, s, _, t
  | .relay, s, _, t | .loadRunning, s, _, t => t = s

structure StatsKept (s : Stats ι) : Prop where
  connections : s.connections.Exact
  fragmented : s.fragmented.Exact
  before : s.fragmented.who ⊆ s.connections.who

structure StatsGrow (s t : Stats ι) : Prop where
  connections : s.connections.who <+: t.connections.who
  fragmented : s.fragmented.who <+: t.fragmented.who
  kept : StatsKept s → StatsKept t

structure StatsRelies (i : ι) (s t : Stats ι) : Prop extends StatsGrow s t where
  connection : i ∈ t.connections.who ↔ i ∈ s.connections.who
  fragment : i ∈ t.fragmented.who ↔ i ∈ s.fragmented.who

def StatsGuarantees (j : ι) (s t : Stats ι) : Prop :=
  StatsGrow s t ∧ ∀ i, i ≠ j → StatsRelies i s t

structure StatsAt (i : ι) (connected fragmented : Prop) (s : Stats ι) : Prop where
  connection : i ∈ s.connections.who ↔ connected
  fragment : i ∈ s.fragmented.who ↔ fragmented
  kept : StatsKept s

/-- How what a task came to stands in the counters. -/
inductive Counted (i : ι) : Incomer → Ended → Stats ι → Prop
  | dropped {incomer : Incomer} {s : Stats ι} (why : Dropped) : StatsAt i False False s →
    Counted i incomer (.dropped why) s
  | silent {s : Stats ι} : StatsAt i True False s → Counted i .client .silent s
  | redirectedSilent {s : Stats ι} {ip : Ipv4Addr} {port : UInt16} : ip.firstOctet ≠ 127 →
    StatsAt i True False s → Counted i (.redirected (some (ip, port))) .silent s
  | tunnelled {s : Stats ι} {target : Text} {first framed : Bytes} : Reframed first framed →
    StatsAt i True (framed ≠ first) s →
    Counted i .client (.tunnelled (.authority target) first framed) s
  | redirected {s : Stats ι} {ip : Ipv4Addr} {port : UInt16} {first framed : Bytes} :
    ip.firstOctet ≠ 127 → Reframed first framed → StatsAt i True (framed ≠ first) s →
    Counted i (.redirected (some (ip, port))) (.tunnelled (.address ip port) first framed) s

/-! ### One step -/

variable {i j : ι} {s t u : Stats ι} {p q : Prop} {n : UInt64}

theorem StatsGrow.refl (s : Stats ι) : StatsGrow s s := ⟨List.prefix_rfl, List.prefix_rfl, id⟩

theorem StatsGrow.trans (h : StatsGrow s t) (h' : StatsGrow t u) : StatsGrow s u :=
  ⟨h.connections.trans h'.connections, h.fragmented.trans h'.fragmented, h'.kept ∘ h.kept⟩

instance statsRelies_preorder : IsPreorder (Stats ι) (StatsRelies i) where
  refl s := ⟨.refl s, Iff.rfl, Iff.rfl⟩
  trans _ _ _ h h' := ⟨h.toStatsGrow.trans h'.toStatsGrow, h'.connection.trans h.connection,
    h'.fragment.trans h.fragment⟩

theorem statsGuarantees_refl (s : Stats ι) : StatsGuarantees j s s :=
  ⟨.refl s, fun _ _ => Std.Refl.refl _⟩

theorem StatsAt.relies (h : StatsAt i p q s) (hr : StatsRelies i s t) : StatsAt i p q t :=
  ⟨hr.connection.trans h.connection, hr.fragment.trans h.fragment, hr.kept h.kept⟩

theorem StatsAt.countConnection (h : StatsAt i False False s) :
    StatsGuarantees i s { s with connections := s.connections.add i } ∧
      StatsAt i True False { s with connections := s.connections.add i } := by
  have hi : i ∉ s.connections.who := fun hmem => h.connection.mp hmem
  have hkept (hk : StatsKept s) : StatsKept { s with connections := s.connections.add i } :=
    ⟨hk.connections.add hi, hk.fragmented, List.Subset.trans hk.before Tally.prefix_add.subset⟩
  have hgrow : StatsGrow s { s with connections := s.connections.add i } :=
    ⟨Tally.prefix_add, List.prefix_rfl, hkept⟩
  refine ⟨⟨hgrow, fun j hj => ⟨hgrow, Tally.mem_add_of_ne hj, Iff.rfl⟩⟩, ?_⟩
  exact ⟨iff_true_intro Tally.mem_add_self, h.fragment, hkept h.kept⟩

theorem StatsAt.countFragmented (h : StatsAt i True False s) :
    StatsGuarantees i s { s with fragmented := s.fragmented.add i } ∧
      StatsAt i True True { s with fragmented := s.fragmented.add i } := by
  have hi : i ∉ s.fragmented.who := fun hmem => h.fragment.mp hmem
  have hconnected : i ∈ s.connections.who := h.connection.mpr trivial
  have hkept (hk : StatsKept s) : StatsKept { s with fragmented := s.fragmented.add i } := by
    refine ⟨hk.connections, hk.fragmented.add hi, ?_⟩
    intro j hj
    rcases List.mem_append.mp hj with hj | hj
    · exact hk.before hj
    · obtain rfl := List.mem_singleton.mp hj
      exact hconnected
  have hgrow : StatsGrow s { s with fragmented := s.fragmented.add i } :=
    ⟨List.prefix_rfl, Tally.prefix_add, hkept⟩
  refine ⟨⟨hgrow, fun j hj => ⟨hgrow, Iff.rfl, Tally.mem_add_of_ne hj⟩⟩, ?_⟩
  exact ⟨h.connection, iff_true_intro Tally.mem_add_self, hkept h.kept⟩

/-! ### One connection -/

theorem unmoved (h : StatsAt i p q s) (ht : t = s) : StatsGuarantees i s t ∧ StatsAt i p q t := by
  subst ht
  exact ⟨statsGuarantees_refl t, h⟩

theorem Counted.relies {incomer : Incomer} {e : Ended} (h : Counted i incomer e s)
    (hr : StatsRelies i s t) : Counted i incomer e t := by
  cases h with
  | dropped why h => exact .dropped why (h.relies hr)
  | silent h => exact .silent (h.relies hr)
  | redirectedSilent hip h => exact .redirectedSilent hip (h.relies hr)
  | tunnelled hframed h => exact .tunnelled hframed (h.relies hr)
  | redirected hip hframed h => exact .redirected hip hframed (h.relies hr)

theorem StatsAt.congr {q' : Prop} (h : StatsAt i p q s) (hq : q ↔ q') : StatsAt i p q' s :=
  ⟨h.connection, h.fragment.trans hq, h.kept⟩

theorem StatsKept.length_le (h : StatsKept s) :
    s.fragmented.who.length ≤ s.connections.who.length :=
  (List.subperm_of_subset h.fragmented.once h.before).length_le

theorem counting_step {o : DpiOp} {r : o.Ret} (he : counting i o s r t)
    (hj : j ∈ t.connections.who) : j ∈ s.connections.who ∨ j = i := by
  cases o with
  | countConnection =>
    obtain rfl := he
    exact (List.mem_append.mp hj).imp_right List.mem_singleton.mp
  | countFragmented =>
    obtain rfl := he
    exact .inl hj
  | loadConnections | loadFragmented =>
    obtain ⟨-, rfl⟩ := he
    exact .inl hj
  | read | connect | respond | send | relay | loadRunning =>
    obtain rfl : t = s := he
    exact .inl hj

theorem Reframed.length_ne_iff {data sent : Bytes} (h : Reframed data sent) :
    sent.length ≠ data.length ↔ sent ≠ data := by
  rcases h.length with rfl | hlong
  · exact iff_of_false (fun h => h rfl) fun h => h rfl
  · refine iff_of_true (by omega) ?_
    rintro rfl
    omega

namespace DpiProxy

theorem countFramed_assures (first framed : Bytes) (h : StatsAt i True False s) :
    (countFramed first framed).Assures (counting i) (StatsRelies i) (StatsGuarantees i)
      (fun _ => StatsAt i True (framed.length ≠ first.length)) s := by
  rw [countFramed]
  split
  next hne =>
    rintro s₁ hs r t rfl
    obtain ⟨hg, h⟩ := (h.relies hs).countFragmented
    exact ⟨hg, fun t' ht' => (h.relies ht').congr (iff_of_true trivial hne)⟩
  next heq => exact fun t' ht' => (h.relies ht').congr (iff_of_false id heq)

theorem sendOn_assures (framed : Bytes) (h : StatsAt i p q s) :
    (sendOn framed).Assures (counting i) (StatsRelies i) (StatsGuarantees i)
      (fun _ => StatsAt i p q) s := by
  intro s₁ hs sent t ht
  obtain ⟨hg, h⟩ := unmoved (h.relies hs) ht
  refine ⟨hg, ?_⟩
  cases sent with
  | false => exact fun t' ht' => h.relies ht'
  | true =>
    intro s₂ hs _ t ht
    obtain ⟨hg, h⟩ := unmoved (h.relies hs) ht
    exact ⟨hg, fun t' ht' => h.relies ht'⟩

def Spliced (i : ι) (target : Target) (e : Ended) (s : Stats ι) : Prop :=
  (e = .silent ∧ StatsAt i True False s) ∨ ∃ first framed,
    e = .tunnelled target first framed ∧ Reframed first framed ∧ StatsAt i True (framed ≠ first) s

theorem splice_assures (target : Target) (h : StatsAt i True False s) :
    (splice target).Assures (counting i) (StatsRelies i) (StatsGuarantees i) (Spliced i target)
      s := by
  intro s₁ hs first t ht
  obtain ⟨hg, h⟩ := unmoved (h.relies hs) ht
  refine ⟨hg, ?_⟩
  have hsilent : Prog.Assures (counting i) (StatsRelies i) (StatsGuarantees i)
      (Spliced i target) (.done .silent) t := fun t' ht' => .inl ⟨rfl, h.relies ht'⟩
  cases first with
  | none => exact hsilent
  | some first =>
    change (spliceFirst target first.val).Assures _ _ _ _ t
    rw [spliceFirst]
    split
    next => exact hsilent
    next =>
      obtain ⟨framed, hframed, hreframed⟩ := fragment_reframes first.val
      rw [hframed]
      apply Prog.assures_bind (countFramed_assures first.val framed h)
      intro _ t ht
      apply Prog.assures_bind (sendOn_assures framed ht)
      intro _ t ht t' ht'
      exact .inr ⟨first.val, framed, rfl, hreframed, (ht.relies ht').congr hreframed.length_ne_iff⟩

theorem tunnel_assures (target : Target) (h : StatsAt i False False s) :
    (tunnel target).Assures (counting i) (StatsRelies i) (StatsGuarantees i) (Spliced i target)
      s := by
  rintro s₁ hs r t rfl
  obtain ⟨hg, h⟩ := (h.relies hs).countConnection
  exact ⟨hg, splice_assures target h⟩

theorem dropped_assures {incomer : Incomer} (why : Dropped) (h : StatsAt i False False s) :
    Prog.Assures (counting i) (StatsRelies i) (StatsGuarantees i) (Counted i incomer)
      (.done (.dropped why)) s := fun _ ht => .dropped why (h.relies ht)

theorem handleTransparent_assures (destination : Option (Ipv4Addr × UInt16))
    (h : StatsAt i False False s) : (handleTransparent destination).Assures (counting i)
      (StatsRelies i) (StatsGuarantees i) (Counted i (.redirected destination)) s := by
  match destination with
  | none => exact dropped_assures .unknown h
  | some (ip, port) =>
    rw [handleTransparent]
    split
    next => exact dropped_assures .loopback h
    next hip =>
      intro s₁ hs connected t ht
      obtain ⟨hg, h⟩ := unmoved (h.relies hs) ht
      refine ⟨hg, ?_⟩
      cases connected with
      | false => exact dropped_assures .unreached h
      | true =>
        apply (tunnel_assures _ h).mono
        rintro e t (⟨rfl, h⟩ | ⟨first, framed, rfl, hframed, h⟩)
        · exact .redirectedSilent hip h
        · exact .redirected hip hframed h

theorem readHead_all (buf : Bytes) : (readHead buf).All (· = .read 1) := by
  induction hn : 8193 - buf.length using Nat.strongRecOn generalizing buf with
  | ind n ih =>
    rw [readHead]
    refine ⟨rfl, fun byte => ?_⟩
    match byte with
    | none => trivial
    | some ⟨[], _⟩ => trivial
    | some ⟨b :: _, _⟩ =>
      change Prog.All _ (dite _ _ _)
      split
      next => trivial
      next hgo =>
        rw [not_or, List.length_append, List.length_singleton] at hgo
        apply ih _ _ _ rfl
        rw [List.length_append, List.length_singleton]
        omega

theorem readHead_assures (buf : Bytes) (h : StatsAt i p q s) :
    (readHead buf).Assures (counting i) (StatsRelies i) (StatsGuarantees i)
      (fun _ => StatsAt i p q) s := by
  apply Prog.assures_of_all (readHead_all buf) h (fun _ _ h hr => h.relies hr)
  rintro o t r t' rfl h ht
  exact unmoved h ht

theorem handle_assures (h : StatsAt i False False s) : handle.Assures (counting i)
    (StatsRelies i) (StatsGuarantees i) (Counted i .client) s := by
  apply Prog.assures_bind (readHead_assures [] h)
  intro head s h
  cases head with
  | none => exact dropped_assures .hungUp h
  | some buf =>
    change Prog.Assures _ _ _ _ (match parseConnectTarget (fromUtf8Lossy buf) with
      | none => _
      | some target => _) s
    cases parseConnectTarget (fromUtf8Lossy buf) with
    | none =>
      intro s₁ hs _ t ht
      obtain ⟨hg, h⟩ := unmoved (h.relies hs) ht
      exact ⟨hg, dropped_assures .notConnect h⟩
    | some target =>
      intro s₁ hs connected t ht
      obtain ⟨hg, h⟩ := unmoved (h.relies hs) ht
      refine ⟨hg, ?_⟩
      cases connected with
      | false =>
        intro s₁ hs _ t ht
        obtain ⟨hg, h⟩ := unmoved (h.relies hs) ht
        exact ⟨hg, dropped_assures .unreached h⟩
      | true =>
        intro s₁ hs answered t ht
        obtain ⟨hg, h⟩ := unmoved (h.relies hs) ht
        refine ⟨hg, ?_⟩
        cases answered with
        | false => exact dropped_assures .unanswered h
        | true =>
          apply (tunnel_assures _ h).mono
          rintro e t (⟨rfl, h⟩ | ⟨first, framed, rfl, hframed, h⟩)
          · exact .silent h
          · exact .tunnelled hframed h

theorem serve_assures (incomer : Incomer) (h : StatsAt i False False s) :
    (serve incomer).Assures (counting i) (StatsRelies i) (StatsGuarantees i) (Counted i incomer)
      s := by
  cases incomer with
  | client => exact handle_assures h
  | redirected destination => exact handleTransparent_assures destination h

end DpiProxy

/-! ### A connection alone -/

structure Left where
  response : Bytes
  upstream : Bytes
  downstream : Bytes
  connections : Nat
  fragmented : Nat

structure Wire where
  client : Incoming
  server : Incoming
  left : Left

theorem length_read (cap : Nat) (s : Incoming) : (read cap s).1.length ≤ cap := by
  cases s with
  | nil => exact Nat.zero_le cap
  | cons chunk chunks => exact List.length_take_le cap chunk

def wire (connect : Text → Option Incoming) : Handler DpiOp DpiOp.Ret Wire
  | .read cap, w => (some ⟨(read cap w.client).1, length_read cap w.client⟩,
    { w with client := (read cap w.client).2 })
  | .connect (.authority target), w => match connect target with
    | some server => (true, { w with server := server })
    | none => (false, w)
  | .connect (.address _ _), w => (false, w)
  | .respond bytes, w =>
    (true, { w with left := { w.left with response := w.left.response ++ bytes } })
  | .countConnection, w =>
    ((), { w with left := { w.left with connections := w.left.connections + 1 } })
  | .countFragmented, w =>
    ((), { w with left := { w.left with fragmented := w.left.fragmented + 1 } })
  | .send bytes, w =>
    (true, { w with left := { w.left with upstream := w.left.upstream ++ bytes } })
  | .relay, w => ((), ⟨[], [], { w.left with
      upstream := w.left.upstream ++ copy w.client
      downstream := w.left.downstream ++ copy w.server }⟩)
  | .loadRunning, w => (true, w)
  | .loadConnections, w => (UInt64.ofNat w.left.connections, w)
  | .loadFragmented, w => (UInt64.ofNat w.left.fragmented, w)

def Handled.left : Handled → Left
  | .closed => ⟨[], [], [], 0, 0⟩
  | .answered response => ⟨response, [], [], 0, 0⟩
  | .tunnelled _ response out => ⟨response, out.upstream, out.downstream, 1, out.fragmented⟩

variable {connect : Text → Option Incoming} {buf : Bytes} {w : Wire}

namespace DpiProxy

theorem readHead_run (buf : Bytes) (client server : Incoming) (left : Left) : ∃ rest,
    (readHead buf).run (wire connect) ⟨client, server, left⟩ =
      ((Dpi.readHead buf client).map Prod.fst, ⟨rest, server, left⟩) ∧
      ∀ x, Dpi.readHead buf client = some x → x.2 = rest := by
  induction hn : client.flatten.length using Nat.strongRecOn generalizing buf client with
  | ind n ih =>
    have hflat := congrArg List.length (read_flatten 1 client)
    rw [Dpi.readHead, readHead]
    have hnone (rest : Incoming) (x : Bytes × Incoming) (hx : none = some x) : x.2 = rest :=
      absurd hx.symm (Option.some_ne_none x)
    cases client with
    | nil => exact ⟨_, rfl, hnone _⟩
    | cons chunk chunks =>
      cases chunk with
      | nil => exact ⟨_, rfl, hnone _⟩
      | cons b bs =>
        have hbyte : (read 1 ((b :: bs) :: chunks)).1 = [b] := rfl
        rw [hbyte, if_neg (List.cons_ne_nil b [])]
        rw [hbyte, List.length_append, List.length_singleton] at hflat
        dsimp only
        change ∃ rest, Prog.run _ (dite _ _ _) _ = _ ∧ _
        split
        next hend => exact ⟨_, rfl, fun x hx => by rw [← Option.some.inj hx]⟩
        next hgo =>
          have hlt : (read 1 ((b :: bs) :: chunks)).2.flatten.length < n := by omega
          exact ih _ hlt _ _ rfl

theorem countFramed_run (first framed : Bytes) (w : Wire) :
    ((countFramed first framed).run (wire connect) w).2 = { w with left := { w.left with
      fragmented := w.left.fragmented + if framed.length ≠ first.length then 1 else 0 } } := by
  rw [countFramed]
  split
  next => rfl
  next => rfl

theorem splice_run (target : Target) (client server : Incoming) (left : Left) :
    ∃ out, Dpi.splice client server = .ok out ∧
      ((splice target).run (wire connect) ⟨client, server, left⟩).2.left = { left with
        upstream := left.upstream ++ out.upstream
        downstream := left.downstream ++ out.downstream
        fragmented := left.fragmented + out.fragmented } := by
  have hrun : (splice target).run (wire connect) ⟨client, server, left⟩ =
      (spliceFirst target (read (16 * 1024) client).1).run (wire connect)
        ⟨(read (16 * 1024) client).2, server, left⟩ := rfl
  rw [splice_eq, hrun, spliceFirst]
  split
  next =>
    refine ⟨_, rfl, ?_⟩
    rw [List.append_nil, List.append_nil]
    rfl
  next =>
    obtain ⟨framed, hframed, -⟩ := fragment_reframes (read (16 * 1024) client).1
    rw [hframed]
    refine ⟨_, rfl, ?_⟩
    dsimp only
    rw [Prog.run_bind, countFramed_run, ← List.append_assoc]
    rfl

/-- A connection alone, whose peers never fail, comes to what `handle` says. -/
theorem handle_run (connect : Text → Option Incoming) (client : Incoming) :
    ∃ out, Dpi.handle connect client = .ok out ∧
      (handle.run (wire connect) ⟨client, [], ⟨[], [], [], 0, 0⟩⟩).2.left = out.left := by
  obtain ⟨rest, hrun, hrest⟩ := @readHead_run connect [] client [] ⟨[], [], [], 0, 0⟩
  rw [handle, Prog.run_bind, hrun, Dpi.handle]
  cases hread : Dpi.readHead [] client with
  | none => exact ⟨_, rfl, rfl⟩
  | some x =>
    obtain ⟨buf, client'⟩ := x
    obtain rfl := hrest _ hread
    simp only [Option.map_some]
    cases htarget : parseConnectTarget (fromUtf8Lossy buf) with
    | none => exact ⟨_, rfl, rfl⟩
    | some target =>
      cases hconnect : connect target with
      | none =>
        have hdial (w : Wire) : wire connect (.connect (.authority target)) w = (false, w) := by
          rw [wire, hconnect]
        dsimp only
        rw [hconnect, Prog.run_bind, Prog.run_perform, hdial]
        exact ⟨_, rfl, rfl⟩
      | some server =>
        have hdial (w : Wire) : wire connect (.connect (.authority target)) w =
            (true, { w with server := server }) := by
          rw [wire, hconnect]
        obtain ⟨out, hout, hleft⟩ := @splice_run connect (.authority target) client'
          server ⟨ascii "HTTP/1.1 200 Connection established\r\n\r\n", [], [], 1, 0⟩
        dsimp only
        rw [hconnect, Prog.run_bind, Prog.run_perform, hdial]
        dsimp only
        rw [hout]
        refine ⟨_, rfl, hleft.trans ?_⟩
        rw [List.nil_append, List.nil_append, Nat.zero_add]
        rfl

end DpiProxy

end Detour.Dpi
