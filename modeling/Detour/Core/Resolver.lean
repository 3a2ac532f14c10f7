import Detour.Core.Cache
import Detour.Core.Provider
import Detour.Lib.RelyGuarantee

/-! RFC 8484 DNS-over-HTTPS resolver with provider fallback and caching. -/

namespace Detour.Core

open Atomic Detour.Rust

def DNS_MESSAGE : Text := "application/dns-message".toList

abbrev ProtoError := String

abbrev ReqwestError := String

inductive ResolveError
  | noProviders
  | allProvidersFailed (tried : Nat) (source : ResolveError)
  | httpStatus (provider : Text) (status : UInt16)
  | badContentType (provider : Text) (contentType : Option Text)
  | transport (provider : Text) (source : ReqwestError)
  | decode (provider : Text) (source : ProtoError)
  | encode (source : ProtoError)
  | badEndpoint (provider url : Text)
  | clientBuild (provider : Text) (source : ReqwestError)
  deriving DecidableEq

def ResolveError.display (contentType : Option Text → String) : ResolveError → String
  | .noProviders => "no DoH providers configured"
  | .allProvidersFailed tried source => "all " ++ toString tried ++
    " provider(s) failed; last error: " ++ source.display contentType
  | .httpStatus provider status => "provider " ++ String.ofList provider ++ " returned HTTP " ++
    toString status.toNat
  | .badContentType provider given => "provider " ++ String.ofList provider ++
    " returned content-type " ++ contentType given ++ ", expected application/dns-message"
  | .transport provider source => "transport error talking to " ++ String.ofList provider ++ ": " ++
    source
  | .decode provider source => "could not parse DNS response from " ++ String.ofList provider ++
    ": " ++ source
  | .encode source => "could not encode DNS query: " ++ source
  | .badEndpoint provider url => "provider " ++ String.ofList provider ++
    " has no usable https endpoint (" ++ String.ofList url ++ ")"
  | .clientBuild provider source => "failed to build HTTP client for " ++ String.ofList provider ++
    ": " ++ source

/-- How messages are written to the wire and read from it. -/
structure Codec where
  toVec : Message → Except ProtoError Bytes
  fromBytes : Bytes → Except ProtoError Message

/-! ### The resolver -/

structure Client where
  resolveToAddrs : Option (Text × List SocketAddr)
  deriving DecidableEq

structure Upstream where
  provider : Provider
  client : Client
  deriving DecidableEq

structure DohResolver where
  upstreams : List Upstream

def Provider.pinned (build : Client → Except ReqwestError Unit) (p : Provider) :
    Except ResolveError Upstream := do
  let host ← p.host.elim (.error (.badEndpoint p.name p.url)) .ok
  -- Pin the endpoint's addresses so the HTTP client never asks the system resolver.
  let client : Client := ⟨if p.bootstrapAddrs = [] then none else some (host, p.bootstrapAddrs)⟩
  (build client).mapError (.clientBuild p.name)
  return ⟨p, client⟩

/-- The resolver and its cache. `build` says whether an HTTP client can be made. -/
def DohResolver.withCapacity (build : Client → Except ReqwestError Unit)
    (providers : List Provider) (cacheCapacity : Nat) :
    Except ResolveError (DohResolver × Cache) := do
  if providers = [] then throw .noProviders
  let upstreams ← providers.mapM (Provider.pinned build)
  return (⟨upstreams⟩, Cache.new cacheCapacity)

section

variable {build : Client → Except ReqwestError Unit} {p : Provider} {u : Upstream}

theorem Provider.pinned_eq_ok (h : p.pinned build = .ok u) : ∃ host, p.host = some host ∧
    u = ⟨p, ⟨if p.bootstrapAddrs = [] then none else some (host, p.bootstrapAddrs)⟩⟩ := by
  unfold Provider.pinned at h
  cases hhost : p.host with
  | none =>
    rw [hhost] at h
    cases h
  | some host =>
    rw [hhost] at h
    simp only [Option.elim_some, bind, Except.bind, pure, Except.pure] at h
    split at h
    next => cases h
    next =>
      cases h
      exact ⟨host, rfl, rfl⟩

theorem mapM_pinned {providers : List Provider} {us : List Upstream}
    (h : providers.mapM (Provider.pinned build) = .ok us) :
    List.Forall₂ (fun p u => p.pinned build = .ok u) providers us := by
  induction providers generalizing us with
  | nil =>
    cases h
    exact .nil
  | cons p ps ih =>
    rw [List.mapM_cons] at h
    cases hp : p.pinned build with
    | error e =>
      rw [hp] at h
      cases h
    | ok u =>
      cases hps : ps.mapM (Provider.pinned build) with
      | error e =>
        rw [hp, hps] at h
        cases h
      | ok us' =>
        rw [hp, hps] at h
        cases h
        exact .cons hp (ih hps)

theorem pinned_upstream {providers : List Provider} {us : List Upstream}
    (h : List.Forall₂ (fun p u => p.pinned build = .ok u) providers us) (hu : u ∈ us) :
    u.provider.pinned build = .ok u := by
  induction h with
  | nil => cases hu
  | @cons p v ps us hv _ ih =>
    rcases List.mem_cons.mp hu with rfl | hu
    · obtain ⟨host, -, heq⟩ := Provider.pinned_eq_ok hv
      rw [heq] at hv ⊢
      exact hv
    · exact ih hu

theorem DohResolver.withCapacity_eq_ok {providers : List Provider} {capacity : Nat}
    {d : DohResolver} {cache : Cache}
    (h : DohResolver.withCapacity build providers capacity = .ok (d, cache)) :
    List.Forall₂ (fun p u => p.pinned build = .ok u) providers d.upstreams ∧
      cache = Cache.new capacity := by
  unfold DohResolver.withCapacity at h
  split at h
  · cases h
  · cases hm : providers.mapM (Provider.pinned build) with
    | error e =>
      rw [hm] at h
      cases h
    | ok us =>
      rw [hm] at h
      cases h
      exact ⟨mapM_pinned hm, rfl⟩

end

/-! ### Queries -/

structure HttpResponse where
  status : UInt16
  /-- The content type, where its bytes are a text. -/
  contentType : Option Text
  /-- The body, which may fail to arrive. -/
  bytes : Except ReqwestError Bytes

abbrev Answer := Except ReqwestError HttpResponse

/-- The steps between which other calls may run. -/
inductive ResolverOp
  | cacheGet (key : Key)
  | post (upstream : Upstream) (body : Bytes)
  | cacheInsert (key : Key) (message : Message)

abbrev ResolverOp.Ret : ResolverOp → Type
  | .cacheGet _ => Option Message
  | .post _ _ => Answer
  | .cacheInsert _ _ => Unit

def buildQuery (name : Name) (recordType : RecordType) : Message := { Message.new with
  id := 0
  messageType := .query
  opCode := .query
  recursionDesired := true
  queries := [Query.query name recordType] }

variable (codec : Codec)

/-- The part of `query_one` after the request is sent. -/
def readResponse (upstream : Upstream) (answer : Answer) : Except ResolveError Message := do
  let name := upstream.provider.name
  let response ← answer.mapError (.transport name)
  if ¬(200 ≤ response.status ∧ response.status < 300) then
    throw (.httpStatus name response.status)
  -- A captive portal will return 200 with an HTML body; refuse to parse that as DNS.
  if ¬response.contentType.any fun c => DNS_MESSAGE.isPrefixOf c then
    throw (.badContentType name response.contentType)
  let bytes ← response.bytes.mapError (.transport name)
  (codec.fromBytes bytes).mapError (.decode name)

def queryOne (upstream : Upstream) (query : Message) :
    Fallible ResolverOp ResolverOp.Ret ResolveError Message := do
  let body ← ExceptT.mk (pure ((codec.toVec query).mapError .encode))
  let answer ← Fallible.sys (ResolverOp.post upstream body)
  ExceptT.mk (pure (readResponse codec upstream answer))

def tryUpstreams (query : Message) (tried : Nat) (last : Option ResolveError) :
    List Upstream → Prog ResolverOp ResolverOp.Ret (Except ResolveError Message)
  | [] => pure (.error (.allProvidersFailed tried (last.getD .noProviders)))
  | upstream :: upstreams => do
    match ← (queryOne codec upstream query).run with
    | .ok response =>
      -- A provider that answers SERVFAIL has not really answered.
      if response.responseCode = .servFail then
        tryUpstreams query tried (some (.httpStatus upstream.provider.name 502)) upstreams
      else pure (.ok response)
    | .error err => tryUpstreams query tried (some err) upstreams

def DohResolver.resolveUncached (d : DohResolver) (query : Message) :
    Fallible ResolverOp ResolverOp.Ret ResolveError Message :=
  ExceptT.mk (tryUpstreams codec query d.upstreams.length none d.upstreams)

def DohResolver.resolve (d : DohResolver) (name : Name) (recordType : RecordType) :
    Fallible ResolverOp ResolverOp.Ret ResolveError Message := do
  let key := Key.new name recordType
  let cached : Option Message ← Fallible.sys (ResolverOp.cacheGet key)
  match cached with
  | some hit => return hit
  | none =>
    let response ← d.resolveUncached codec (buildQuery name recordType)
    let _ : Unit ← Fallible.sys (ResolverOp.cacheInsert key response)
    return response

end Detour.Core
