import Detour.Lib.Sections
import Detour.Rust.Numbers
import Detour.Tunnel.Up

/-! `WgConfig::parse`: which texts it accepts, and what it passes on of them. -/

namespace Detour.Tunnel

open Detour.Rust Sections

/-! ### Addresses -/

def parseIpv4 (s : Text) : Option Ipv4Addr :=
  match readIpv4Addr s with
  | some (a, rest) => if rest = [] then some a else none
  | none => none

def isIpv4Cidr (s : Text) : Bool :=
  let (ip, pfx) := (splitOnce '/' s).getD (s, "32".toList)
  (parseIpv4 ip).isSome && (parseU8 pfx).any fun p => p ≤ 32

/-! ### The loop -/

def INTERFACE_KEYS : List Text := ["privatekey", "listenport", "fwmark"].map String.toList

def PEER_KEYS : List Text :=
  ["publickey", "presharedkey", "allowedips", "endpoint", "persistentkeepalive"].map String.toList

inductive Section
  | outside
  | interface
  | peer
  deriving DecidableEq

structure Parser where
  sect : Section
  setconf : Text
  addressesV4 : List Text
  mtu : Option UInt32
  endpoint : Option Text
  hasPrivateKey : Bool
  peers : Nat
  peerHasKey : List Bool

def Parser.start : Parser := ⟨.outside, [], [], none, none, false, 0, []⟩

def invalid (message : Text) : TunnelError := .invalidConfig (String.ofList message)

def isHeader (line : Text) : Bool := line.head? == some '[' && line.getLast? == some ']'

def sectionOf (line : Text) : Option Section :=
  if toAsciiLowercase line = "[interface]".toList then some .interface
  else if toAsciiLowercase line = "[peer]".toList then some .peer
  else none

def entryLine (key value : Text) : Text := key ++ " = ".toList ++ value ++ ['\n']

def ipv4Items (value : Text) : List Text := ((split ',' value).map trim).filter isIpv4Cidr

def setLast : List Bool → List Bool
  | [] => []
  | [_] => [true]
  | b :: bs => b :: setLast bs

def Parser.readHeader (st : Parser) (line : Text) : Except TunnelError Parser :=
  match sectionOf line with
  | some .peer => .ok { st with
      sect := .peer
      peers := st.peers + 1
      peerHasKey := st.peerHasKey ++ [false]
      setconf := st.setconf ++ line ++ ['\n'] }
  | some sect => .ok { st with sect := sect, setconf := st.setconf ++ line ++ ['\n'] }
  | none => .error (invalid ("unknown section ".toList ++ toAsciiLowercase line))

def Parser.readInterface (st : Parser) (key value : Text) : Except TunnelError Parser :=
  if key = "address".toList then
    .ok { st with addressesV4 := st.addressesV4 ++ ipv4Items value }
  else if key = "mtu".toList then
    match parseU32 value with
    | some mtu => .ok { st with mtu := some mtu }
    | none => .error (invalid ("bad MTU ".toList ++ value))
  else if key ∈ INTERFACE_KEYS then
    .ok { st with
      hasPrivateKey := st.hasPrivateKey || key == "privatekey".toList
      setconf := st.setconf ++ entryLine key value }
  else .ok st

def Parser.readPeer (st : Parser) (key value : Text) : Parser :=
  if key ∈ PEER_KEYS then { st with
    peerHasKey := if key = "publickey".toList then setLast st.peerHasKey else st.peerHasKey
    endpoint := if key = "endpoint".toList then st.endpoint.or (some value) else st.endpoint
    setconf := st.setconf ++ entryLine key value }
  else st

def Parser.readEntry (st : Parser) (line : Text) : Except TunnelError Parser :=
  match splitOnce '=' line with
  | none => .error (invalid ("malformed line: ".toList ++ line))
  | some (key, value) =>
    match st.sect with
    | .interface => st.readInterface (toAsciiLowercase (trim key)) (trim value)
    | .peer => .ok (st.readPeer (toAsciiLowercase (trim key)) (trim value))
    | .outside => .error (invalid "key outside of any section".toList)

def content (raw : Text) : Text := trim ((split '#' raw).headD [])

def Parser.readLine (st : Parser) (raw : Text) : Except TunnelError Parser :=
  if content raw = [] then .ok st
  else if isHeader (content raw) then st.readHeader (content raw)
  else st.readEntry (content raw)

def Parser.finish (st : Parser) : Except TunnelError WgConfig :=
  if st.hasPrivateKey = false then .error (invalid "[Interface] has no PrivateKey".toList)
  else if st.peers = 0 then .error (invalid "no [Peer] section".toList)
  else if st.peerHasKey.any not then .error (invalid "a [Peer] has no PublicKey".toList)
  else if st.addressesV4 = [] then .error (invalid "[Interface] has no IPv4 Address".toList)
  else .ok ⟨st.addressesV4, st.mtu, st.setconf, st.endpoint⟩

def WgConfig.parse (text : Text) : Except TunnelError WgConfig := do
  (← (lines text).foldlM Parser.readLine Parser.start).finish

end Detour.Tunnel
