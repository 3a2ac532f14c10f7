import Detour.Lib.Datagrams
import Detour.Lib.RelyGuarantee
import Detour.Upstream.Forward

/-! Whose replies the calls of `forward` return, however their datagrams cross. -/

namespace Detour.Upstream

open Atomic Datagrams Detour.Rust

abbrev Network (ι : Type) := Net ι SocketAddr Bytes

def Echoed (query reply : Bytes) : Prop := reply.take 2 = query.take 2

variable {ι : Type}

/-- How the steps of call `i` are answered. The system may give a new socket any address that no
open socket has, and that `may` allows. -/
def answers (may : Network ι → SocketAddr → Prop) (i : ι) : Env UdpOp UdpOp.Ret (Network ι)
  | .bind addr, s, .ok k, t => ∃ port, s.Free k ⟨addr.ip, port⟩ ∧ may s ⟨addr.ip, port⟩ ∧
    t = s.bind i k ⟨addr.ip, port⟩
  | .bind _, s, .error _, t => t = s
  | .connect k server, s, .ok _, t => ∃ x, s.sockets k = some x ∧
    t = s.put k (some { x with peer := some server })
  | .connect _ _, s, .error _, t => t = s
  | .send k payload, s, .ok _, t => ∃ x server, s.sockets k = some x ∧ x.peer = some server ∧
    t = s.send k x server payload
  | .send _ _, s, .error _, t => t = s
  | .recv k size, s, some (.ok bytes), t => ∃ x b rest, s.sockets k = some x ∧
    x.inbox = b :: rest ∧ bytes = b.take size ∧ t = s.put k (some { x with inbox := rest })
  | .recv _ _, s, some (.error _), t => t = s
  | .recv _ _, s, none, t => t = s
  | .close k, s, _, t => t = s.put k none

def forwarding (f : Forwarder) (queries : ι → Bytes) :
    Pool ι UdpOp UdpOp.Ret (Except UpstreamError Bytes) (Network ι) :=
  Pool.start (fun i => (f.forward (queries i)).run) Net.empty

/-! ### What the calls rely on -/

structure Relies (i : ι) (s t : Network ι) : Prop where
  isolated : s.Isolated → t.Isolated
  kept : ∀ k, s.opener k = some i → t.opener k = some i ∧ t.sent k = s.sent k
  replied : s.replied ⊆ t.replied

def Guarantees (i : ι) (s t : Network ι) : Prop := (s.Isolated → t.Isolated) ∧
  ∀ j, j ≠ i → Relies j s t

instance (i : ι) : IsPreorder (Network ι) (Relies i) where
  refl s := ⟨id, fun _ h => ⟨h, rfl⟩, fun _ h => h⟩
  trans s t u hst htu := by
    refine ⟨fun h => htu.isolated (hst.isolated h), fun k hk => ?_,
      fun _ h => htu.replied (hst.replied h)⟩
    obtain ⟨ht, hsent⟩ := hst.kept k hk
    obtain ⟨hu, hsent'⟩ := htu.kept k ht
    exact ⟨hu, hsent'.trans hsent⟩

variable {i : ι} {s t : Network ι} {k : Socket} {query bytes : Bytes} {f : Forwarder}
  {queries : ι → Bytes} {server : SocketAddr} {payloads : List Bytes}

theorem relies_step (h : Net.Step Echoed s t) (i : ι) : Relies i s t := by
  obtain ⟨hopener, hsent, hreplied⟩ := h.keeps
  refine ⟨fun hs => hs.step h, fun k hk => ?_, hreplied⟩
  rw [hopener, hsent]
  exact ⟨hk, rfl⟩

theorem guarantees_refl : Guarantees i s s := ⟨id, fun _ _ => Std.Refl.refl s⟩

theorem guarantees_put {o : Option (Datagrams.Socket SocketAddr Bytes)}
    (h : s.Isolated → (s.put k o).Isolated) : Guarantees i s (s.put k o) :=
  ⟨h, fun _ _ => ⟨h, fun _ hk => ⟨hk, rfl⟩, fun _ hr => hr⟩⟩

theorem guarantees_bind {a : SocketAddr} (hfree : s.Free k a) (hquiet : s.Quiet a) :
    Guarantees i s (s.bind i k a) := by
  refine ⟨fun h => h.bind hfree hquiet i, fun j hj => ⟨fun h => h.bind hfree hquiet i, ?_,
    fun _ hr => hr⟩⟩
  intro k' hk'
  have hne : k' ≠ k := by
    rintro rfl
    rw [hfree.1] at hk'
    cases hk'
  exact ⟨by simpa [Net.bind, Net.put, hne] using hk', rfl⟩

theorem guarantees_send {x : Datagrams.Socket SocketAddr Bytes} (hk : s.opener k = some i)
    (hx : s.sockets k = some x) : Guarantees i s (s.send k x server bytes) := by
  refine ⟨fun h => h.send hx server bytes, fun j hj => ⟨fun h => h.send hx server bytes, ?_,
    fun _ hr => hr⟩⟩
  intro k' hk'
  refine ⟨hk', Net.sent_send_ne ?_⟩
  rintro rfl
  rw [hk] at hk'
  exact hj (Option.some.inj hk').symm

/-! ### One call -/

structure Holds (i : ι) (k : Socket) (payloads : List Bytes) (s : Network ι) : Prop where
  isolated : s.Isolated
  opener : s.opener k = some i
  sent : s.sent k = payloads

theorem Holds.rely (h : Holds i k payloads s) (hr : Relies i s t) : Holds i k payloads t := by
  obtain ⟨hopener, hsent⟩ := hr.kept k h.opener
  exact ⟨hr.isolated h.isolated, hopener, hsent.trans h.sent⟩

def Matched (query : Bytes) (r : Except UpstreamError Bytes) (s : Network ι) : Prop :=
  s.Isolated ∧ ∀ bytes, r = .ok bytes →
    ∃ server reply, (server, query, reply) ∈ s.replied ∧ bytes = reply.take MAX_UDP_RESPONSE

theorem Matched.rely {r : Except UpstreamError Bytes} (h : Matched query r s)
    (hr : Relies i s t) : Matched query r t := by
  refine ⟨hr.isolated h.1, fun bytes hbytes => ?_⟩
  obtain ⟨server, reply, hmem, heq⟩ := h.2 bytes hbytes
  exact ⟨server, reply, hr.replied hmem, heq⟩

theorem matched_error {e : UpstreamError} (h : s.Isolated) : Matched query (.error e) s :=
  ⟨h, nofun⟩

theorem assures_error {e : UpstreamError} (h : s.Isolated) :
    (Prog.done (.error e) : Prog UdpOp UdpOp.Ret (Except UpstreamError Bytes)).Assures
      (answers Net.Quiet i) (Relies i) (Guarantees i) (Matched query) s :=
  fun _ hr => matched_error (hr.isolated h)

theorem exchange_assures (h : Holds i k [] s) :
    (ExceptT.run (exchange k server query)).Assures (answers Net.Quiet i) (Relies i)
      (Guarantees i) (Matched query) s := by
  apply Fallible.assures_sys_bind
  intro s₁ hs connected t₁ he
  have h₁ := h.rely hs
  cases connected with
  | error e =>
    obtain rfl : t₁ = s₁ := he
    exact ⟨guarantees_refl, assures_error h₁.isolated⟩
  | ok _ =>
    obtain ⟨x, hx, rfl⟩ := he
    have hput : (s₁.put k (some { x with peer := some server })).Isolated :=
      h₁.isolated.put hx rfl (h₁.isolated.owned k x hx).inbox
    refine ⟨guarantees_put fun _ => hput, ?_⟩
    apply Fallible.assures_sys_bind
    intro s₂ hs sent t₂ he
    have h₂ : Holds i k [] s₂ := Holds.rely ⟨hput, h₁.opener, h₁.sent⟩ hs
    cases sent with
    | error e =>
      obtain rfl : t₂ = s₂ := he
      exact ⟨guarantees_refl, assures_error h₂.isolated⟩
    | ok _ =>
      obtain ⟨x, peer, hx, -, rfl⟩ := he
      have hsent : Holds i k [query] (s₂.send k x peer query) := by
        refine ⟨h₂.isolated.send hx peer query, h₂.opener, ?_⟩
        rw [Net.sent_send_self, h₂.sent]
        rfl
      refine ⟨guarantees_send h₂.opener hx, ?_⟩
      apply Fallible.assures_sys_bind
      intro s₃ hs received t₃ he
      have h₃ := hsent.rely hs
      cases received with
      | none =>
        obtain rfl : t₃ = s₃ := he
        exact ⟨guarantees_refl, assures_error h₃.isolated⟩
      | some answer =>
        cases answer with
        | error e =>
          obtain rfl : t₃ = s₃ := he
          exact ⟨guarantees_refl, assures_error h₃.isolated⟩
        | ok bytes =>
          obtain ⟨x, b, rest, hx, hinbox, rfl, rfl⟩ := he
          have howned := (h₃.isolated.owned k x hx).inbox
          rw [hinbox, h₃.sent] at howned
          have hput : (s₃.put k (some { x with inbox := rest })).Isolated := by
            refine h₃.isolated.put hx rfl ?_
            rw [h₃.sent]
            exact fun b' hb' => howned b' (List.mem_cons_of_mem b hb')
          obtain ⟨server', q, hq, hreplied⟩ := howned b List.mem_cons_self
          obtain rfl := List.mem_singleton.mp hq
          refine ⟨guarantees_put fun _ => hput, fun t ht => ?_⟩
          apply Matched.rely ⟨hput, ?_⟩ ht
          rintro _ ⟨⟩
          exact ⟨server', b, hreplied, rfl⟩

theorem tryOne_assures (h : s.Isolated) : (ExceptT.run (tryOne server query)).Assures
    (answers Net.Quiet i) (Relies i) (Guarantees i) (Matched query) s := by
  apply Fallible.assures_sys_bind
  intro s₁ hs bound t₁ he
  have h₁ := hs.isolated h
  cases bound with
  | error e =>
    obtain rfl : t₁ = s₁ := he
    exact ⟨guarantees_refl, assures_error h₁⟩
  | ok k =>
    obtain ⟨port, hfree, hquiet, rfl⟩ := he
    refine ⟨guarantees_bind hfree hquiet, ?_⟩
    have hheld : Holds i k [] (s₁.bind i k ⟨(anyPort server).ip, port⟩) := by
      refine ⟨h₁.bind hfree hquiet i, ?_, (h₁.opened k hfree.1).2⟩
      simp [Net.bind, Net.put]
    apply Fallible.assures_bind (Fallible.assures_lift (exchange_assures hheld)
      fun _ _ _ hm ht => hm.rely ht)
    · intro result t hresult
      apply Fallible.assures_sys_bind
      rintro t' ht _ _ rfl
      have hclose := (hresult.rely ht).1.close k
      refine ⟨guarantees_put fun _ => hclose, fun u hu => ?_⟩
      exact Matched.rely ⟨hclose, (hresult.rely ht).2⟩ hu
    · exact fun e t t' hm ht => hm.rely ht

theorem tryServers_assures (tried : Nat) (servers : List SocketAddr) (h : s.Isolated) :
    (tryServers query tried servers).Assures (answers Net.Quiet i) (Relies i) (Guarantees i)
      (Matched query) s := by
  induction servers generalizing s with
  | nil => exact assures_error h
  | cons server servers ih =>
    apply Prog.assures_bind (tryOne_assures h)
    intro result t hresult
    cases result with
    | ok bytes => exact fun t' ht => hresult.rely ht
    | error e => exact ih hresult.1

theorem forward_assures (h : s.Isolated) : (ExceptT.run (f.forward query)).Assures
    (answers Net.Quiet i) (Relies i) (Guarantees i) (Matched query) s := by
  unfold Forwarder.forward
  split
  · exact assures_error h
  · exact tryServers_assures f.servers.length f.servers h

/-! ### Every run -/

/-- When no socket gets an address at which something is still to come, every call returns what
was replied to its own query, and all of it where it fits. -/
theorem forward_isolated [DecidableEq ι]
    {p : Pool ι UdpOp UdpOp.Ret (Except UpstreamError Bytes) (Network ι)}
    (hr : Pool.Runs (answers Net.Quiet) (Net.Step Echoed) (forwarding f queries) p)
    (hp : p.prog i = .done (.ok bytes)) :
    (∃ server reply, (server, queries i, reply) ∈ p.state.replied ∧
      bytes = reply.take MAX_UDP_RESPONSE) ∧
    ((∀ x ∈ p.state.replied, x.2.2.length ≤ MAX_UDP_RESPONSE) →
      ∃ server, (server, queries i, bytes) ∈ p.state.replied) := by
  have hstart : (forwarding f queries).Assured (answers Net.Quiet) Relies Guarantees
      fun i => Matched (queries i) := fun i => forward_assures Net.isolated_empty
  have hmatched := (hstart.runs (fun i _ _ hb => relies_step hb i)
    (fun i j _ _ hij hg => hg.2 i hij) hr).done hp
  obtain ⟨server, reply, hmem, rfl⟩ := hmatched.2 bytes rfl
  refine ⟨⟨server, reply, hmem, rfl⟩, fun hfits => ⟨server, ?_⟩⟩
  rw [List.take_of_length_le (hfits _ hmem)]
  exact hmem

/-! ### A reply that comes late -/

def router : SocketAddr := ⟨.v4 (Ipv4Addr.new 192 168 1 1), 53⟩

def onPort (port : UInt16) : SocketAddr := ⟨UNSPECIFIED_V4, port⟩

def connected (port : UInt16) (inbox : List Bytes) : Datagrams.Socket SocketAddr Bytes :=
  ⟨onPort port, some router, inbox⟩

def asked (s : Network ι) (i : ι) (k : Socket) (port : UInt16) (query : Bytes) : Network ι :=
  ((s.bind i k (onPort port)).put k (some (connected port []))).send k (connected port []) router
    query

theorem forward_visits (port : UInt16) (may : Network ι → SocketAddr → Prop) (query : Bytes)
    (hfree : s.Free k (onPort port)) (hmay : may s (onPort port)) : ∃ rest,
    Prog.Visits (answers may i) (ExceptT.run (Forwarder.forward ⟨[router]⟩ query)) s rest
      (asked s i k port query) ∧
    (∀ t, Prog.Visits (answers may i) rest t (.done (.error (.allFailed 1))) (t.put k none)) ∧
    ∀ t b, t.sockets k = some (connected port [b]) → Prog.Visits (answers may i) rest t
      (.done (.ok (b.take MAX_UDP_RESPONSE)))
      ((t.put k (some (connected port []))).put k none) := by
  have hbind : answers may i (.bind (anyPort router)) s (.ok k) (s.bind i k (onPort port)) :=
    ⟨port, hfree, hmay, rfl⟩
  have hconnect : answers may i (.connect k router) (s.bind i k (onPort port)) (.ok ())
      ((s.bind i k (onPort port)).put k (some (connected port []))) :=
    ⟨⟨onPort port, none, []⟩, Net.put_self _, rfl⟩
  have hsend : answers may i (.send k query)
      ((s.bind i k (onPort port)).put k (some (connected port []))) (.ok ())
      (asked s i k port query) :=
    ⟨connected port [], router, Net.put_self _, rfl, rfl⟩
  refine ⟨_, .step hbind (.step hconnect (.step hsend .refl)), fun t => ?_, fun t b hb => ?_⟩
  · have hrecv : answers may i (.recv k MAX_UDP_RESPONSE) t none t := rfl
    have hclose : answers may i (.close k) t () (t.put k none) := rfl
    exact .step hrecv (.step hclose .refl)
  · have hrecv : answers may i (.recv k MAX_UDP_RESPONSE) t
        (some (.ok (b.take MAX_UDP_RESPONSE))) (t.put k (some (connected port []))) :=
      ⟨connected port [b], b, [], hb, rfl, rfl, rfl⟩
    have hclose : answers may i (.close k) (t.put k (some (connected port []))) ()
        ((t.put k (some (connected port []))).put k none) := rfl
    exact .step hrecv (.step hclose .refl)

variable {port : UInt16}

theorem router_replies (query : Bytes) (hmem : ⟨onPort port, router, query⟩ ∈ s.heard)
    (hk : s.sockets k = some (connected port [])) :
    ∃ t, Relation.ReflTransGen (Net.Step Echoed) s t ∧
      t.sockets k = some (connected port [query]) ∧
      t.replied = (router, query, query) :: s.replied ∧
      t.heard = s.heard ∧ ∀ j, j ≠ k → t.sockets j = s.sockets j := by
  refine ⟨_, .tail (.single (.reply ⟨onPort port, router, query⟩ query hmem rfl))
    (.arrive ⟨onPort port, router, query⟩ k (connected port []) List.mem_cons_self hk rfl ?_),
    Net.put_self _, rfl, rfl, fun j hj => Net.put_ne _ hj⟩
  rintro _ ⟨⟩
  rfl

def heard (s : Network ι) (i : ι) (k : Socket) (port : UInt16) (query : Bytes) : Network ι :=
  { asked s i k port query with heard := ⟨onPort port, router, query⟩ :: s.heard }

theorem heard_asked : Net.Step Echoed (asked s i k port query) (heard s i k port query) :=
  .hear ⟨onPort port, router, query⟩ List.mem_cons_self

theorem sockets_asked (query : Bytes) :
    (asked s i k port query).sockets k = some (connected port []) := by
  rw [asked, Net.send, Net.put_self]

theorem sockets_asked_ne {j : Socket} (query : Bytes) (hj : j ≠ k) :
    (asked s i k port query).sockets j = s.sockets j :=
  (Net.put_ne _ hj).trans (Net.put_ne _ hj)

def queryOf : Bool → Bytes
  | false => [0, 1]
  | true => [0, 2]

def waiting : Network Bool := heard Net.empty false 0 40000 (queryOf false)

theorem sockets_waiting {j : Socket} {x : Datagrams.Socket SocketAddr Bytes}
    (hj : waiting.sockets j = some x) : j = 0 ∧ x = connected 40000 [] := by
  obtain ⟨rfl, hnew⟩ | ⟨hj0, hold⟩ := Net.sockets_put hj
  · cases hnew
    exact ⟨rfl, rfl⟩
  · obtain ⟨rfl, -⟩ | ⟨-, hold⟩ := Net.sockets_put hold
    · exact absurd rfl hj0
    · cases hold

theorem waiting_free : waiting.Free 1 (onPort 40001) := by
  refine ⟨rfl, fun j x hj => ?_⟩
  rw [(sockets_waiting hj).2]
  decide

theorem waiting_quiet : waiting.Quiet (onPort 40001) := by
  have honly : ∀ p ∈ [(⟨onPort 40000, router, queryOf false⟩ : Packet SocketAddr Bytes)],
      p.client ≠ onPort 40001 := by
    intro p hp
    rw [List.mem_singleton.mp hp]
    decide
  exact ⟨honly, nofun, honly⟩

def gaveUp : Network Bool := waiting.put 0 none

theorem gaveUp_free : gaveUp.Free 1 (onPort 40000) := by
  refine ⟨rfl, fun j x hj => ?_⟩
  obtain ⟨-, hnew⟩ | ⟨hj0, hold⟩ := Net.sockets_put hj
  · cases hnew
  · exact absurd (sockets_waiting hold).1 hj0

/-- The first call gives up, the second gets its port, and then the router replies to the first. -/
theorem late_reply_crosses :
    ∃ p : Pool Bool UdpOp UdpOp.Ret (Except UpstreamError Bytes) (Network Bool),
      Pool.Runs (answers fun _ _ => True) (Net.Step Echoed) (forwarding ⟨[router]⟩ queryOf) p ∧
      p.prog true = .done (.ok [0, 1]) ∧
      ¬ ∃ server, (server, queryOf true, [0, 1]) ∈ p.state.replied := by
  obtain ⟨rest, hasks, htimesOut, -⟩ := forward_visits (s := Net.empty) (i := false) 40000
    (fun _ _ => True) (queryOf false) ⟨rfl, nofun⟩ trivial
  obtain ⟨p₁, hr₁, rfl, hs₁, hother₁⟩ := Pool.exists_runs_background (B := Net.Step Echoed)
    (E := answers fun _ _ => True) (p := forwarding ⟨[router]⟩ queryOf) hasks
    (.single heard_asked)
  have hends := htimesOut p₁.state
  obtain ⟨p₂, hr₂, -, hs₂, hother₂⟩ := Pool.exists_runs (B := Net.Step Echoed)
    (E := answers fun _ _ => True) hends
  have hp₂ : p₂.state = gaveUp := by
    rw [hs₂, hs₁, gaveUp, waiting]
  obtain ⟨rest', hasks', -, hreceives⟩ := forward_visits (i := true) 40000 (fun _ _ => True)
    (queryOf true) gaveUp_free trivial
  obtain ⟨t, hreplies, hsockets, hreplied, -⟩ := router_replies (queryOf false)
    (s := asked gaveUp true 1 40000 (queryOf true)) List.mem_cons_self
    (sockets_asked (queryOf true))
  have hprog : p₂.prog true = ExceptT.run (Forwarder.forward ⟨[router]⟩ (queryOf true)) := by
    rw [hother₂ true nofun, hother₁ true nofun]
    rfl
  rw [← hprog] at hasks'
  nth_rewrite 1 [← hp₂] at hasks'
  obtain ⟨p₃, hr₃, rfl, rfl, -⟩ := Pool.exists_runs_background (B := Net.Step Echoed)
    (E := answers fun _ _ => True) hasks' hreplies
  obtain ⟨p₄, hr₄, hp₄, hs₄, -⟩ := Pool.exists_runs (B := Net.Step Echoed)
    (E := answers fun _ _ => True) (hreceives _ _ hsockets)
  refine ⟨p₄, ((hr₁.trans hr₂).trans hr₃).trans hr₄, hp₄, ?_⟩
  rintro ⟨server, hmem⟩
  rw [hs₄] at hmem
  change (server, queryOf true, [0, 1]) ∈ p₃.state.replied at hmem
  rw [hreplied] at hmem
  cases List.mem_cons.mp hmem with
  | inl h =>
    have hsame : queryOf true = queryOf false := congrArg (fun x => x.2.1) h
    exact absurd hsame (by decide)
  | inr h => cases h

/-- The second call is made and answered while the first one waits. -/
theorem waiting_isolated :
    ∃ p : Pool Bool UdpOp UdpOp.Ret (Except UpstreamError Bytes) (Network Bool),
      ∀ i, p.prog i = .done (.ok (queryOf i)) ∧
        (∃ server reply, (server, queryOf i, reply) ∈ p.state.replied ∧
          queryOf i = reply.take MAX_UDP_RESPONSE) ∧
        ((∀ x ∈ p.state.replied, x.2.2.length ≤ MAX_UDP_RESPONSE) →
          ∃ server, (server, queryOf i, queryOf i) ∈ p.state.replied) := by
  obtain ⟨rest, hasks, -, hreceives⟩ := forward_visits (s := Net.empty) (i := false) 40000
    Net.Quiet (queryOf false) ⟨rfl, nofun⟩ ⟨nofun, nofun, nofun⟩
  obtain ⟨p₁, hr₁, rfl, hs₁, hother₁⟩ := Pool.exists_runs_background (B := Net.Step Echoed)
    (E := answers Net.Quiet) (p := forwarding ⟨[router]⟩ queryOf) hasks (.single heard_asked)
  obtain ⟨rest', hasks', -, hreceives'⟩ := forward_visits (i := true) 40001 Net.Quiet (queryOf true)
    waiting_free waiting_quiet
  obtain ⟨t, hreplies, hsocket, -, hheard, hsockets⟩ := router_replies (queryOf true)
    (s := heard waiting true 1 40001 (queryOf true)) List.mem_cons_self
    (sockets_asked (s := waiting) (i := true) (queryOf true))
  have hbegins : Prog.Visits (answers Net.Quiet true) (p₁.prog true) p₁.state rest'
      (asked waiting true 1 40001 (queryOf true)) := by
    rw [hother₁ true nofun, hs₁]
    exact hasks'
  obtain ⟨p₂, hr₂, rfl, rfl, hother₂⟩ := Pool.exists_runs_background (B := Net.Step Echoed)
    hbegins (.head heard_asked hreplies)
  -- the socket of the first call is as it was, and the router still has its query
  have hstill : p₂.state.sockets 0 = some (connected 40000 []) := by
    have hfirst : (asked (Net.empty : Network Bool) false 0 40000 (queryOf false)).sockets 0 =
        some (connected 40000 []) := sockets_asked _
    have hkept : (asked waiting true 1 40001 (queryOf true)).sockets 0 = waiting.sockets 0 :=
      sockets_asked_ne _ (by decide)
    rw [hsockets 0 (by decide)]
    exact hkept.trans hfirst
  have hlater : ⟨onPort 40000, router, queryOf false⟩ ∈ p₂.state.heard := by
    rw [hheard]
    exact List.mem_cons_of_mem _ List.mem_cons_self
  have hopen : ((p₂.state.put 1 (some (connected 40001 []))).put 1 none).sockets 0 =
      some (connected 40000 []) := by
    rw [Net.put_ne _ (show 0 ≠ 1 by decide), Net.put_ne _ (show 0 ≠ 1 by decide), hstill]
  obtain ⟨u, hreplies', hsocket', -⟩ := router_replies (queryOf false)
    (s := (p₂.state.put 1 (some (connected 40001 []))).put 1 none) hlater hopen
  obtain ⟨p₃, hr₃, hp₃, rfl, hother₃⟩ := Pool.exists_runs_background (B := Net.Step Echoed)
    (hreceives' _ _ hsocket) hreplies'
  have hends := hreceives _ _ hsocket'
  rw [← hother₂ false nofun, ← hother₃ false nofun] at hends
  obtain ⟨p₄, hr₄, hp₄, -, hother₄⟩ := Pool.exists_runs (B := Net.Step Echoed)
    (E := answers Net.Quiet) hends
  have hdone : ∀ i, p₄.prog i = .done (.ok (queryOf i)) := by
    intro i
    cases i with
    | false => exact hp₄
    | true => exact (hother₄ true nofun).trans hp₃
  have hr := ((hr₁.trans hr₂).trans hr₃).trans hr₄
  exact ⟨p₄, fun i => ⟨hdone i, forward_isolated hr (hdone i)⟩⟩

end Detour.Upstream
