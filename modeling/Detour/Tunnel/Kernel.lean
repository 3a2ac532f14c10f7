import Detour.Lib.Environment
import Detour.ResolvConf.FileSystem
import Detour.Tunnel.Config

/-! What the commands of the tunnel do to the network configuration of the kernel. -/

namespace Detour.Tunnel

open Atomic Detour.Rust Detour.ResolvConf

abbrev Path := String

/-! ### Commands -/

inductive Command
  | linkAdd
  | wgSetconf (path : Path)
  | addressAdd (addr : Text)
  | linkSetUp (mtu : UInt32)
  | routeAddDefault
  | routeAddUnreachable
  | ruleAdd
  | routeAddUnreachable6
  | ruleAdd6
  | nftLoad (path : Path)
  | nftDelete (family : Nft.Family) (table : String)
  | ruleDel
  | ruleDel6
  | routeFlush
  | routeFlush6
  | linkDel
  deriving DecidableEq

def familyWord : Nft.Family → String
  | .ip => "ip"
  | .inet => "inet"

def Command.argv : Command → List String
  | .linkAdd => ["ip", "link", "add", IFACE, "type", "wireguard"]
  | .wgSetconf path => ["wg", "setconf", IFACE, path]
  | .addressAdd addr => ["ip", "-4", "address", "add", String.ofList addr, "dev", IFACE]
  | .linkSetUp mtu => ["ip", "link", "set", "mtu", toString mtu, "up", "dev", IFACE]
  | .routeAddDefault =>
    ["ip", "-4", "route", "add", "default", "dev", IFACE, "table", TABLE]
  | .routeAddUnreachable =>
    ["ip", "-4", "route", "add", "unreachable", "default", "metric", "4096", "table", TABLE]
  | .ruleAdd =>
    ["ip", "-4", "rule", "add", "fwmark", "0x5157", "lookup", TABLE, "priority", RULE_PRIORITY]
  | .routeAddUnreachable6 =>
    ["ip", "-6", "route", "add", "unreachable", "default", "table", TABLE]
  | .ruleAdd6 =>
    ["ip", "-6", "rule", "add", "fwmark", "0x5157", "lookup", TABLE, "priority", RULE_PRIORITY]
  | .nftLoad path => ["nft", "-f", path]
  | .nftDelete family table => ["nft", "delete", "table", familyWord family, table]
  | .ruleDel => ["ip", "-4", "rule", "del", "priority", RULE_PRIORITY]
  | .ruleDel6 => ["ip", "-6", "rule", "del", "priority", RULE_PRIORITY]
  | .routeFlush => ["ip", "-4", "route", "flush", "table", TABLE]
  | .routeFlush6 => ["ip", "-6", "route", "flush", "table", TABLE]
  | .linkDel => ["ip", "link", "del", IFACE]

/-! ### The kernel -/

/-- A cgroup itself: one that is created anew is another one, though the path be the same. -/
abbrev CgroupId := Nat

structure Link where
  conf : Option Text
  addresses : List Text
  mtu : Option UInt32
  up : Bool
  deriving DecidableEq

def Link.fresh : Link := ⟨none, [], none, false⟩

inductive Content
  | data (bytes : Text)
  | ruleset (table : Nft.Table String)

@[ext] structure World where
  link : Option Link
  /-- The default route of table 51820 by `detour0`. -/
  defaultRoute : Bool
  /-- The `unreachable` default of that table. -/
  unreachable : Bool
  unreachable6 : Bool
  /-- How many rules send marked packets to that table. -/
  rules : Nat
  rules6 : Nat
  tables : Nft.Family × String → Option (Nft.Table CgroupId)
  ipv6 : Bool
  cgroups : String → Option CgroupId
  files : Path → Option Content

/-- What a command that succeeds leaves; `none` where it cannot succeed. -/
def Command.effect (w : World) : Command → Option World
  | .linkAdd => match w.link with
    | none => some { w with link := some .fresh }
    | some _ => none
  | .wgSetconf path => match w.link, w.files path with
    | some l, some (.data bytes) => some { w with link := some { l with conf := some bytes } }
    | _, _ => none
  | .addressAdd addr => match w.link with
    | some l =>
      if addr ∈ l.addresses then none
      else some { w with link := some { l with addresses := l.addresses ++ [addr] } }
    | none => none
  | .linkSetUp mtu => match w.link with
    | some l => some { w with link := some { l with mtu := some mtu, up := true } }
    | none => none
  | .routeAddDefault => match w.link with
    | some l => if l.up ∧ !w.defaultRoute then some { w with defaultRoute := true } else none
    | none => none
  | .routeAddUnreachable => if w.unreachable then none else some { w with unreachable := true }
  -- some kernels take a second rule like one that is there
  | .ruleAdd => some { w with rules := w.rules + 1 }
  | .routeAddUnreachable6 =>
    if w.unreachable6 then none else some { w with unreachable6 := true }
  | .ruleAdd6 => some { w with rules6 := w.rules6 + 1 }
  | .nftLoad path => match w.files path with
    | some (.ruleset text) => (text.resolve w.cgroups).map fun new =>
      let key := (new.family, new.name)
      { w with tables := Function.update w.tables key (some (match w.tables key with
        | some old => old.merge new
        | none => new)) }
    | _ => none
  | .nftDelete family table =>
    if (w.tables (family, table)).isSome then
      some { w with tables := Function.update w.tables (family, table) none }
    else none
  -- one rule goes, however many there are
  | .ruleDel => if 0 < w.rules then some { w with rules := w.rules - 1 } else none
  | .ruleDel6 => if 0 < w.rules6 then some { w with rules6 := w.rules6 - 1 } else none
  | .routeFlush => some { w with defaultRoute := false, unreachable := false }
  | .routeFlush6 => some { w with unreachable6 := false }
  -- the route by an interface goes with it
  | .linkDel => match w.link with
    | some _ => some { w with link := none, defaultRoute := false }
    | none => none

def World.dropLink (w : World) : World := { w with link := none, defaultRoute := false }

/-! ### Where a packet goes -/

inductive Route
  | tunnel
  | refused
  | main
  deriving DecidableEq

def tunnelKey : Nft.Family × String := (.inet, NFT_TABLE)

def World.mark (w : World) (p : Nft.Packet CgroupId) : Nat :=
  match w.tables tunnelKey with
  | some t => (t.traverse "output" p).mark
  | none => p.mark

/-- Table 51820, which is passed over when it has no route. -/
def World.lookup (w : World) : Route :=
  if w.defaultRoute then .tunnel else if w.unreachable then .refused else .main

def World.routeMarked (w : World) (mark : Nat) : Route :=
  if mark = MARK ∧ 0 < w.rules then w.lookup else .main

def World.routeMarked6 (w : World) (mark : Nat) : Route :=
  if w.ipv6 = false then .refused
  else if mark = MARK ∧ 0 < w.rules6 ∧ w.unreachable6 = true then .refused
  else .main

def World.route (w : World) (p : Nft.Packet CgroupId) : Route := w.routeMarked (w.mark p)

end Detour.Tunnel
