import Detour.Core.Answers
import Detour.Helper.Proxy
import Detour.Upstream.Forward
import Mathlib.Logic.Function.Basic

/-! What the proxy sends to its clients over UDP and over TCP, by what the side it chose has given
to it. -/

namespace Detour.Helper

open Atomic Detour.Core Detour.Rust Detour.Upstream

def MAX_UDP : Nat := 4096

variable (codec : Codec)

/-! ### Replies on the wire -/

def maxPayload (query : Bytes) : Nat :=
  match codec.fromBytes query with
  | .ok m => m.edns.elim 512 fun e => e.maxPayload.toNat
  | .error _ => 512

def advertised (query : Bytes) : Nat := clamp (maxPayload codec query) 512 MAX_UDP

def truncatedMessage (msg : Message) : Message := { Message.new with
  id := msg.id
  messageType := .response
  opCode := msg.opCode
  responseCode := msg.responseCode
  recursionDesired := msg.recursionDesired
  recursionAvailable := true
  truncated := true
  queries := msg.queries }

def truncateIfNeeded (response query : Bytes) : Bytes :=
  if response.length ≤ advertised codec query then response
  else match codec.fromBytes response with
    | .ok msg => match codec.toVec (truncatedMessage msg) with
      | .ok bytes => bytes
      | .error _ => response
    | .error _ => response

def frame (response : Bytes) : Bytes :=
  let length := response.length.toUInt16
  [(length >>> 8).toUInt8, length.toUInt8] ++ response

/-! ### Serving -/

inductive ServeOp
  | resolver (o : ResolverOp)
  | udp (o : UdpOp)

abbrev ServeOp.Ret : ServeOp → Type
  | .resolver o => o.Ret
  | .udp o => o.Ret

def carryOut (f : Forwarder) : (o : ProxyOp) → Prog ServeOp ServeOp.Ret o.Ret
  | .resolver o => Prog.perform (ServeOp.resolver o)
  | .forward query => do
    let forwarded ← (f.forward query).run.translate fun o => Prog.perform (ServeOp.udp o)
    return forwarded.mapError UpstreamError.display

def Proxy.answer (x : Proxy) (f : Forwarder) (query : Bytes) : Prog ServeOp ServeOp.Ret Bytes :=
  (x.handle codec query).translate (carryOut f)

def Proxy.answerUdp (x : Proxy) (f : Forwarder) (query : Bytes) :
    Prog ServeOp ServeOp.Ret Bytes := do
  return truncateIfNeeded codec (← x.answer codec f query) query

def Proxy.answerTcp (x : Proxy) (f : Forwarder) (query : Bytes) :
    Prog ServeOp ServeOp.Ret Bytes := do
  return frame (← x.answer codec f query)

/-! ### What the sides give -/

/-- What the chosen side gives: a provider a message, a resolver of the system a datagram. -/
inductive Reply
  | message (m : Message)
  | datagram (b : Bytes)
  deriving DecidableEq

/-- What is assumed of the two sides. -/
structure Sides where
  /-- What a resolver of the system may reply to a query. -/
  upstream : Bytes → Bytes → Prop
  /-- What a provider may answer, or have answered before. -/
  doh : Message → Prop
  /-- Whatever is asked is answered. -/
  reliable : Prop

structure Exchange where
  /-- What was last sent on a socket. -/
  sent : Socket → Option Bytes
  given : List Reply

def Exchange.give (s : Exchange) (replies : List Reply) : Exchange :=
  { s with given := s.given ++ replies }

def gave (upstream : Upstream) (answer : Answer) : Option Message :=
  match readResponse codec upstream answer with
  | .ok m => if m.responseCode = .servFail then none else some m
  | .error _ => none

variable (sides : Sides)

/-- A datagram that outgrows the buffer loses what does not fit. -/
def giving : Env ServeOp ServeOp.Ret Exchange
  | .resolver (.cacheGet _), s, hit, t =>
    (∀ m, hit = some m → sides.doh m) ∧ t = s.give (hit.toList.map .message)
  | .resolver (.post upstream _), s, answer, t =>
    (∀ m, gave codec upstream answer = some m → sides.doh m) ∧
      (sides.reliable → gave codec upstream answer ≠ none) ∧
      t = s.give ((gave codec upstream answer).toList.map .message)
  | .resolver (.cacheInsert _ _), s, _, t => t = s
  | .udp (.bind _), s, r, t => (sides.reliable → ∃ k, r = .ok k) ∧ t = s
  | .udp (.connect _ _), s, r, t => (sides.reliable → r = .ok ()) ∧ t = s
  | .udp (.send k payload), s, r, t => (sides.reliable → r = .ok ()) ∧
    t = { s with sent := Function.update s.sent k (some payload) }
  | .udp (.recv k size), s, r, t =>
    (∃ query b, s.sent k = some query ∧ sides.upstream query b ∧ r = some (.ok (b.take size)) ∧
      t = s.give [.datagram b]) ∨ (¬sides.reliable ∧ (∀ b, r ≠ some (.ok b)) ∧ t = s)
  | .udp (.close _), s, _, t => t = s

variable {codec sides} {x : Proxy} {f : Forwarder} {query : Bytes} {s : Exchange}

/-! ### The forwarder -/

variable (codec sides) in
abbrev receiving : Env UdpOp UdpOp.Ret Exchange := fun o s r t => giving codec sides (.udp o) s r t

variable (sides query) in
def Brings (failing : Prop) (given : List Reply) : Except UpstreamError Bytes → Exchange → Prop
  | .ok bytes, t => ∃ b, sides.upstream query b ∧ bytes = b.take MAX_UDP_RESPONSE ∧
    t.given = given ++ [.datagram b]
  | .error _, t => failing ∧ t.given = given

theorem Brings.fails {failing : Prop} {e : UpstreamError} (h : failing) :
    Brings sides query failing s.given (.error e) s := ⟨h, rfl⟩

theorem exchange_keeps (k : Socket) (server : SocketAddr) :
    (ExceptT.run (exchange k server query)).Keeps (receiving codec sides) (fun _ => True)
      (Brings sides query (¬sides.reliable) s.given) s := by
  apply Fallible.keeps_sys_bind trivial
  rintro connected _ ⟨hr, rfl⟩
  cases connected with
  | error e => exact ⟨trivial, .fails fun h => nomatch hr h⟩
  | ok _ =>
    apply Fallible.keeps_sys_bind trivial
    rintro sent _ ⟨hr, rfl⟩
    cases sent with
    | error e => exact ⟨trivial, .fails fun h => nomatch hr h⟩
    | ok _ =>
      apply Fallible.keeps_sys_bind trivial
      intro received t he
      cases he with
      | inl hb =>
        obtain ⟨q, b, hq, hb, rfl, rfl⟩ := hb
        simp only [Function.update_self, Option.some.injEq] at hq
        subst hq
        exact ⟨trivial, b, hb, rfl, rfl⟩
      | inr hnone =>
        obtain ⟨hr, hno, rfl⟩ := hnone
        cases received with
        | none => exact ⟨trivial, .fails hr⟩
        | some answer =>
          cases answer with
          | error e => exact ⟨trivial, .fails hr⟩
          | ok b => exact absurd rfl (hno b)

theorem tryOne_keeps (server : SocketAddr) :
    (ExceptT.run (tryOne server query)).Keeps (receiving codec sides) (fun _ => True)
      (Brings sides query (¬sides.reliable) s.given) s := by
  apply Fallible.keeps_sys_bind trivial
  rintro bound _ ⟨hr, rfl⟩
  cases bound with
  | error e => exact ⟨trivial, .fails fun h => nomatch hr h⟩
  | ok k =>
    apply Fallible.keeps_bind (Fallible.keeps_lift (exchange_keeps k server))
    intro result t _ hresult
    apply Fallible.keeps_sys_bind trivial
    rintro _ _ rfl
    cases result with
    | error e => exact ⟨trivial, hresult⟩
    | ok bytes => exact ⟨trivial, hresult⟩

theorem tryServers_keeps (tried : Nat) (servers : List SocketAddr) :
    (tryServers query tried servers).Keeps (receiving codec sides) (fun _ => True)
      (Brings sides query (servers = [] ∨ ¬sides.reliable) s.given) s := by
  induction servers generalizing s with
  | nil => exact ⟨trivial, .fails (.inl rfl)⟩
  | cons server servers ih =>
    apply (tryOne_keeps server).bind
    intro result t _ hresult
    cases result with
    | ok bytes => exact ⟨trivial, hresult⟩
    | error e =>
      obtain ⟨hr, hgiven⟩ := hresult
      rw [← hgiven]
      apply ih.mono (fun _ h => h)
      intro r t' h
      cases r with
      | ok bytes => exact h
      | error e' => exact ⟨.inr hr, h.2⟩

theorem forward_keeps : (ExceptT.run (f.forward query)).Keeps (receiving codec sides)
    (fun _ => True) (Brings sides query (f.servers = [] ∨ ¬sides.reliable) s.given) s := by
  unfold Forwarder.forward
  split
  next hnil => exact ⟨trivial, .fails (.inl hnil)⟩
  next => exact tryServers_keeps f.servers.length f.servers

/-! ### The resolver -/

variable (codec sides) in
abbrev resolving : Env ResolverOp ResolverOp.Ret Exchange :=
  fun o s r t => giving codec sides (.resolver o) s r t

variable (sides) in
def Resolves (failing : Prop) (given : List Reply) : Except ResolveError Message → Exchange → Prop
  | .ok m, t => sides.doh m ∧ t.given = given ++ [.message m]
  | .error _, t => failing ∧ t.given = given

theorem Resolves.fails {failing : Prop} {e : ResolveError} (h : failing) :
    Resolves sides failing s.given (.error e) s := ⟨h, rfl⟩

theorem give_nil : s.give [] = s := by
  rw [Exchange.give, List.append_nil]

def Unanswered (codec : Codec) (sides : Sides) (upstreams : List Upstream) (question : Message) :
    Prop :=
  ¬sides.reliable ∨ upstreams = [] ∨ ∃ e, codec.toVec question = .error e

variable {question : Message} {body : Bytes}

theorem tryUpstreams_keeps (hbody : codec.toVec question = .ok body) (tried : Nat)
    (last : Option ResolveError) (upstreams : List Upstream) :
    (tryUpstreams codec question tried last upstreams).Keeps (resolving codec sides)
      (fun _ => True)
      (Resolves sides (Unanswered codec sides upstreams question) s.given) s := by
  induction upstreams generalizing s last with
  | nil => exact ⟨trivial, .fails (.inr (.inl rfl))⟩
  | cons upstream upstreams ih =>
    rw [tryUpstreams_cons hbody]
    refine ⟨trivial, ?_⟩
    rintro answer _ ⟨hdoh, hreliable, rfl⟩
    -- a provider that gives nothing is passed over
    have hnext (hgave : gave codec upstream answer = none) (last' : Option ResolveError) :
        (tryUpstreams codec question tried last' upstreams).Keeps (resolving codec sides)
          (fun _ => True)
          (Resolves sides (Unanswered codec sides (upstream :: upstreams) question) s.given)
          (s.give ((gave codec upstream answer).toList.map .message)) := by
      have hr : ¬sides.reliable := fun h => hreliable h hgave
      rw [hgave, Option.toList_none, List.map_nil, give_nil]
      apply (ih last').mono (fun _ h => h)
      intro r t h
      cases r with
      | ok m => exact h
      | error e => exact ⟨.inl hr, h.2⟩
    beta_reduce
    cases hread : readResponse codec upstream answer with
    | error e =>
      apply hnext
      rw [gave, hread]
    | ok m =>
      by_cases hcode : m.responseCode = .servFail
      · simp only [if_pos hcode]
        apply hnext
        rw [gave, hread]
        exact if_pos hcode
      · have hgave : gave codec upstream answer = some m := by
          rw [gave, hread]
          exact if_neg hcode
        simp only [if_neg hcode]
        rw [hgave]
        exact ⟨trivial, hdoh m hgave, rfl⟩

theorem resolve_keeps (d : DohResolver) (name : Name) (type : RecordType) :
    (d.resolve codec name type).run.Keeps (resolving codec sides) (fun _ => True)
      (Resolves sides (Unanswered codec sides d.upstreams (buildQuery name type)) s.given) s := by
  rw [resolve_eq]
  refine ⟨trivial, ?_⟩
  rintro hit _ ⟨hdoh, rfl⟩
  cases hit with
  | some m => exact ⟨trivial, hdoh m rfl, rfl⟩
  | none =>
    rw [Option.toList_none, List.map_nil, give_nil]
    cases hbody : codec.toVec (buildQuery name type) with
    | error err =>
      obtain ⟨e, he⟩ := tryUpstreams_unsendable hbody d.upstreams.length none d.upstreams
      simp only [he]
      exact ⟨trivial, .fails (.inr (.inr ⟨err, hbody⟩))⟩
    | ok body =>
      apply (tryUpstreams_keeps hbody d.upstreams.length none d.upstreams).bind
      intro r t _ hr
      cases r with
      | error e => exact ⟨trivial, hr⟩
      | ok m =>
        refine ⟨trivial, ?_⟩
        rintro _ _ rfl
        exact ⟨trivial, hr⟩

/-! ### The proxy -/

variable (codec sides x f query) in
inductive Handled (given : List Reply) : Bytes → List Reply → Prop
  | malformed (e : ProtoError) : codec.fromBytes query = .error e →
    Handled given (servfailFromRaw codec query) given
  | empty (m : Message) : codec.fromBytes query = .ok m → m.queries.head? = none →
    Handled given (servfail codec m.id .formErr) given
  | resolved (m : Message) (question : Query) (reply : Message) :
    codec.fromBytes query = .ok m → m.queries.head? = some question →
    x.policy.route question.name = .doh → sides.doh reply →
    Handled given (dohReply codec m.id (.ok reply)) (given ++ [.message reply])
  | unresolved (m : Message) (question : Query) (e : ResolveError) :
    codec.fromBytes query = .ok m → m.queries.head? = some question →
    x.policy.route question.name = .doh →
    Unanswered codec sides x.resolver.upstreams (buildQuery question.name question.queryType) →
    Handled given (dohReply codec m.id (.error e)) given
  | forwarded (m : Message) (question : Query) (b : Bytes) :
    codec.fromBytes query = .ok m → m.queries.head? = some question →
    x.policy.route question.name = .systemUpstream → sides.upstream query b →
    Handled given (b.take MAX_UDP_RESPONSE) (given ++ [.datagram b])
  | unforwarded (m : Message) (question : Query) :
    codec.fromBytes query = .ok m → m.queries.head? = some question →
    x.policy.route question.name = .systemUpstream → f.servers = [] ∨ ¬sides.reliable →
    Handled given (servfail codec m.id .servFail) given

variable (codec sides f) in
def asking : Env ProxyOp ProxyOp.Ret Exchange
  | .resolver o, s, r, t => giving codec sides (.resolver o) s r t
  | .forward query, s, .ok bytes, t => ∃ b, sides.upstream query b ∧
    bytes = b.take MAX_UDP_RESPONSE ∧ t.given = s.given ++ [.datagram b]
  | .forward _, s, .error _, t => (f.servers = [] ∨ ¬sides.reliable) ∧ t.given = s.given

theorem carryOut_keeps (o : ProxyOp) (s : Exchange) :
    (carryOut f o).Keeps (giving codec sides) (fun _ => True) (asking codec sides f o s) s := by
  cases o with
  | resolver o => exact Prog.keeps_perform trivial fun _ _ _ => trivial
  | forward query =>
    have hudp (o : UdpOp) (s : Exchange) (_ : True) :
        (Prog.perform (ServeOp.udp o) : Prog ServeOp ServeOp.Ret _).Keeps (giving codec sides)
          (fun _ => True) (receiving codec sides o s) s :=
      Prog.keeps_perform trivial fun _ _ _ => trivial
    apply (Prog.Keeps.translate hudp forward_keeps).bind
    intro r t _ hr
    cases r with
    | ok bytes => exact ⟨trivial, hr⟩
    | error e => exact ⟨trivial, hr⟩

theorem handle_keeps : (x.handle codec query).Keeps (asking codec sides f) (fun _ => True)
    (fun bytes t => Handled codec sides x f query s.given bytes t.given) s := by
  unfold Proxy.handle
  cases hquery : codec.fromBytes query with
  | error e => exact ⟨trivial, .malformed e hquery⟩
  | ok m =>
    cases hhead : m.queries.head? with
    | none =>
      simp only [hhead]
      exact ⟨trivial, .empty m hquery hhead⟩
    | some question =>
      simp only [hhead]
      cases hroute : x.policy.route question.name with
      | doh =>
        have hresolver (o : ResolverOp) (s : Exchange) (_ : True) :
            (Prog.perform (ProxyOp.resolver o) : Prog ProxyOp ProxyOp.Ret _).Keeps
              (asking codec sides f) (fun _ => True) (resolving codec sides o s) s :=
          Prog.keeps_perform trivial fun _ _ _ => trivial
        apply (Prog.Keeps.translate hresolver
          (resolve_keeps x.resolver question.name question.queryType)).bind
        intro r t _ hr
        refine ⟨trivial, ?_⟩
        cases r with
        | ok reply => exact hr.2 ▸ .resolved m question reply hquery hhead hroute hr.1
        | error e => exact hr.2 ▸ .unresolved m question e hquery hhead hroute hr.1
      | systemUpstream =>
        refine ⟨trivial, ?_⟩
        intro r t he
        cases r with
        | ok bytes =>
          obtain ⟨b, hb, rfl, hgiven⟩ := he
          refine ⟨trivial, ?_⟩
          change Handled codec sides x f query s.given _ t.given
          rw [hgiven]
          exact .forwarded m question b hquery hhead hroute hb
        | error e =>
          refine ⟨trivial, ?_⟩
          exact he.2 ▸ .unforwarded m question hquery hhead hroute he.1

theorem answer_keeps : (x.answer codec f query).Keeps (giving codec sides) (fun _ => True)
    (fun bytes t => Handled codec sides x f query s.given bytes t.given) s :=
  Prog.Keeps.translate (fun o s _ => carryOut_keeps o s) handle_keeps

end Detour.Helper
