import Detour.Lib.Environment
import Detour.Rust.Bytes
import Detour.Rust.IpAddr

/-! Plain-DNS forwarding to the resolvers the system used before the takeover. -/

namespace Detour.Upstream

open Atomic Detour.Rust

def MAX_UDP_RESPONSE : Nat := 4096

inductive UpstreamError
  | noUpstreams
  | allFailed (tried : Nat)
  | io (source : String)
  deriving DecidableEq

def UpstreamError.display : UpstreamError → String
  | .noUpstreams => "no system upstream resolvers are configured"
  | .allFailed tried => "all " ++ toString tried ++ " upstream resolver(s) failed or timed out"
  | .io source => "socket error: " ++ source

/-! ### Sockets -/

abbrev Socket := Nat

/-- A socket that goes out of scope is closed. -/
inductive UdpOp
  | bind (addr : SocketAddr)
  | connect (socket : Socket) (server : SocketAddr)
  | send (socket : Socket) (payload : Bytes)
  | recv (socket : Socket) (size : Nat)
  | close (socket : Socket)

/-- Nothing is received when the time is up. -/
abbrev UdpOp.Ret : UdpOp → Type
  | .bind _ => Except String Socket
  | .connect _ _ | .send _ _ => Except String Unit
  | .recv _ _ => Option (Except String Bytes)
  | .close _ => Unit

abbrev UdpM := Fallible UdpOp UdpOp.Ret UpstreamError

abbrev ask (o : UdpOp) : UdpM o.Ret := Fallible.sys o

def orIo : Except String α → UdpM α
  | .ok a => pure a
  | .error e => throw (.io e)

/-! ### The forwarder -/

structure Forwarder where
  servers : List SocketAddr

def UNSPECIFIED_V4 : IpAddr := .v4 (Ipv4Addr.new 0 0 0 0)

def UNSPECIFIED_V6 : IpAddr := .v6 ⟨Vector.replicate 8 0⟩

def anyPort (server : SocketAddr) : SocketAddr :=
  match server.ip with
  | .v4 _ => ⟨UNSPECIFIED_V4, 0⟩
  | .v6 _ => ⟨UNSPECIFIED_V6, 0⟩

def orTimedOut (server : SocketAddr) : Option (Except String Bytes) → UdpM Bytes
  | some answer => orIo answer
  | none => throw (.io ("no reply from " ++ server.display ++ " within 3s"))

def exchange (socket : Socket) (server : SocketAddr) (query : Bytes) : UdpM Bytes := do
  orIo (← ask (.connect socket server))
  orIo (← ask (.send socket query))
  orTimedOut server (← ask (.recv socket MAX_UDP_RESPONSE))

def tryOne (server : SocketAddr) (query : Bytes) : UdpM Bytes := do
  let socket ← orIo (← ask (.bind (anyPort server)))
  let result ← ExceptT.lift (ExceptT.run (exchange socket server query))
  ask (.close socket)
  ExceptT.mk (pure result)

def tryServers (query : Bytes) (tried : Nat) :
    List SocketAddr → Prog UdpOp UdpOp.Ret (Except UpstreamError Bytes)
  | [] => pure (.error (.allFailed tried))
  | server :: servers => do
    match ← (tryOne server query).run with
    | .ok response => pure (.ok response)
    | .error _ => tryServers query tried servers

def Forwarder.forward (f : Forwarder) (query : Bytes) : UdpM Bytes :=
  if f.servers = [] then throw .noUpstreams
  else ExceptT.mk (tryServers query f.servers.length f.servers)

end Detour.Upstream
