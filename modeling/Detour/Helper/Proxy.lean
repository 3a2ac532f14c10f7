import Detour.Core.Policy
import Detour.Core.Resolver

/-! The local DNS proxy: routes each query to either DoH or the system's original resolver, per
policy. -/

namespace Detour.Helper

open Atomic Detour.Core Detour.Rust

inductive ProxyOp
  | resolver (o : ResolverOp)
  | forward (query : Bytes)

abbrev ProxyOp.Ret : ProxyOp → Type
  | .resolver o => o.Ret
  | .forward _ => Except String Bytes

structure Proxy where
  resolver : DohResolver
  policy : Policy

variable (codec : Codec)

def servfailMessage (id : UInt16) (code : ResponseCode) : Message := { Message.new with
  id := id
  messageType := .response
  opCode := .query
  responseCode := code
  recursionDesired := true
  recursionAvailable := true }

def servfail (id : UInt16) (code : ResponseCode) : Bytes :=
  match codec.toVec (servfailMessage id code) with
  | .ok bytes => bytes
  | .error _ => []

def servfailFromRaw (query : Bytes) : Bytes :=
  match query with
  | high :: low :: _ => servfail codec (high.toUInt16 <<< 8 ||| low.toUInt16) .formErr
  | _ => servfail codec 0 .formErr

def dohReply (id : UInt16) : Except ResolveError Message → Bytes
  | .ok response =>
    -- The cached/DoH message carries id 0; the client is matching on its own id.
    match codec.toVec { response with id := id } with
    | .ok bytes => bytes
    | .error _ => servfail codec id .servFail
  | .error _ => servfail codec id .servFail

def Proxy.handle (x : Proxy) (queryBytes : Bytes) : Prog ProxyOp ProxyOp.Ret Bytes :=
  match codec.fromBytes queryBytes with
  | .error _ => pure (servfailFromRaw codec queryBytes)
  | .ok query =>
    match query.queries.head? with
    | none => pure (servfail codec query.id .formErr)
    | some question =>
      match x.policy.route question.name with
      | .doh => do
        let resolved ← (x.resolver.resolve codec question.name question.queryType).run.translate
          fun o => Prog.perform (ProxyOp.resolver o)
        return dohReply codec query.id resolved
      | .systemUpstream => do
        let forwarded : Except String Bytes ← Prog.perform (ProxyOp.forward queryBytes)
        match forwarded with
        | .ok bytes => return bytes
        | .error _ => return servfail codec query.id .servFail

end Detour.Helper
