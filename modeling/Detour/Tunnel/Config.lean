import Detour.Lib.Nft
import Detour.Rust.IpAddr

/-! The parts of a WireGuard config that the tunnel needs, and the rule set that marks the
packets of its slice. -/

namespace Detour.Tunnel

open Detour.Rust

abbrev Text := List Char

def IFACE : String := "detour0"

def TABLE : String := "51820"

def MARK : Nat := 0x5157

def RULE_PRIORITY : String := "5157"

def NFT_TABLE : String := "detour_tunnel"

def SLICE : String := "detourtunnel.slice"

def DEFAULT_MTU : UInt32 := 1280

/-! ### The config -/

structure WgConfig where
  /-- IPv4 interface addresses in CIDR form. -/
  addressesV4 : List Text
  mtu : Option UInt32
  /-- Config reduced to what `wg setconf` understands. -/
  setconf : Text
  endpoint : Option Text
  deriving DecidableEq

def withEndpoint (setconf endpoint : Text) : Text :=
  List.intercalate ['\n'] ((lines setconf).map fun l =>
    if "endpoint".toList.isPrefixOf (toAsciiLowercase l) then "endpoint = ".toList ++ endpoint
    else l) ++ ['\n']

/-! ### The rule set -/

def v4 (a b c d : Nat) : BitVec 32 := BitVec.ofNat 32 (((a * 256 + b) * 256 + c) * 256 + d)

def BYPASS_V4 : List (Nft.Net 32) :=
  [⟨v4 127 0 0 0, 8⟩, ⟨v4 10 0 0 0, 8⟩, ⟨v4 172 16 0 0, 12⟩, ⟨v4 192 168 0 0, 16⟩,
    ⟨v4 169 254 0 0, 16⟩, ⟨v4 100 64 0 0, 10⟩]

/-- `::1/128`, `fc00::/7` and `fe80::/10`. -/
def BYPASS_V6 : List (Nft.Net 128) :=
  [⟨1, 128⟩, ⟨0xfc00 <<< 112, 7⟩, ⟨0xfe80 <<< 112, 10⟩]

def sliceCgroup (uid : UInt32) : String × Nat :=
  let path := s!"user.slice/user-{uid}.slice/user@{uid}.service/" ++ SLICE
  (path, (split '/' path.toList).length)

def nftRuleset (uid : UInt32) : Nft.Table String where
  family := .inet
  name := NFT_TABLE
  chains := [
    { name := "output", type := .route, hook := .output, priority := .mangle
      rules := [
        ⟨[.ipDaddr BYPASS_V4], .ret⟩,
        ⟨[.ip6Daddr BYPASS_V6], .ret⟩,
        ⟨[.socketCgroupv2 (sliceCgroup uid).2 (sliceCgroup uid).1], .metaMarkSet MARK⟩] },
    { name := "postrouting", type := .nat, hook := .postrouting, priority := .srcnat
      rules := [⟨[.oifname IFACE], .masquerade⟩] }]

end Detour.Tunnel
