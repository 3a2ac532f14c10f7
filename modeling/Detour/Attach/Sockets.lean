import Detour.Tunnel.Parse

/-! The open sockets that `ss` lists, and which of them are worth resetting. -/

namespace Detour.Attach

open Detour.Rust Detour.Tunnel

structure SocketEntry where
  /-- `tcp` or `udp`. -/
  proto : Text
  localAddr : SocketAddr
  peer : SocketAddr
  pids : List UInt32
  deriving DecidableEq

def parseSockaddr (s : Text) : Option SocketAddr := do
  -- ss prints IPv6 as [addr]:port and may append %iface to the address.
  let (addr, port) ← rsplitOnce ':' s
  let addr := addr.dropWhile (· = '[')
  let addr := (addr.reverse.dropWhile (· = ']')).reverse
  let addr ← (split '%' addr).head?
  return ⟨← IpAddr.parse addr, ← parseU16 port⟩

/-- Parse a line of `ss -tunpH`. Unconnected sockets (peer `*`) yield `none`. -/
def parseSsLine (line : Text) : Option SocketEntry :=
  match splitWhitespace line with
  | proto :: _ :: _ :: _ :: localAddr :: peer :: users :: more =>
    if proto ≠ "tcp".toList ∧ proto ≠ "udp".toList then none
    else do
      let localAddr ← parseSockaddr localAddr
      let peer ← parseSockaddr peer
      let users := List.intercalate [' '] (users :: more)
      let pids := ((splitStr "pid=".toList users).drop 1).filterMap fun p =>
        parseU32 (p.takeWhile Char.isDigit)
      return ⟨proto, localAddr, peer, pids⟩
  -- fewer than seven columns
  | _ => none

def Ipv4Addr.isLocal (a : Ipv4Addr) : Bool :=
  match a.octets.toList with
  | [x, y, z, w] => x == 127
    || (x == 10 || (x == 172 && 16 ≤ y && y ≤ 31) || (x == 192 && y == 168))
    || (x == 169 && y == 254) || (x == 0 && y == 0 && z == 0 && w == 0)
    || (x == 100 && 64 ≤ y && y < 128)
  | _ => false

def Ipv6Addr.isLocal (a : Ipv6Addr) : Bool :=
  a.segments.toList == [0, 0, 0, 0, 0, 0, 0, 1] || a.segments.toList == [0, 0, 0, 0, 0, 0, 0, 0]
    || (a.firstSegment &&& 0xfe00) == 0xfc00 || (a.firstSegment &&& 0xffc0) == 0xfe80

def isLocalDestination : IpAddr → Bool
  | .v4 a => Ipv4Addr.isLocal a
  | .v6 a => Ipv6Addr.isLocal a

def ssKillFilter (sock : SocketEntry) : String :=
  s!"src {sock.localAddr.display} and dst {sock.peer.display}"

end Detour.Attach
