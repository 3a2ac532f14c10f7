import Mathlib.Algebra.Group.Nat.Defs
import Mathlib.Data.List.Basic
import Mathlib.Logic.Function.Basic

/-! Rule sets of `nft`: what a table says, what loading it comes to, and what its chains do to a
packet.  A cgroup is a path in the text of a rule set; once loaded it is what the path named. -/

namespace Nft

variable {γ δ : Type} {w : Nat}

/-! ### Addresses -/

structure Net (w : Nat) where
  addr : BitVec w
  len : Nat
  deriving DecidableEq

def Net.contains (n : Net w) (a : BitVec w) : Bool :=
  a >>> (w - n.len) == n.addr >>> (w - n.len)

theorem Net.contains_iff {net : Net w} {a : BitVec w} : net.contains a = true ↔
    a.toNat / 2 ^ (w - net.len) = net.addr.toNat / 2 ^ (w - net.len) := by
  rw [Net.contains, beq_iff_eq, ← BitVec.toNat_inj, BitVec.toNat_ushiftRight,
    BitVec.toNat_ushiftRight, Nat.shiftRight_eq_div_pow, Nat.shiftRight_eq_div_pow]

inductive Dest
  | v4 (a : BitVec 32)
  | v6 (a : BitVec 128)
  deriving DecidableEq

/-! ### Rule sets -/

inductive Match (γ : Type)
  | ipDaddr (nets : List (Net 32))
  | ip6Daddr (nets : List (Net 128))
  | l4protoTcp
  | socketCgroupv2 (level : Nat) (cgroup : γ)
  | tcpDport (port : Nat)
  | oifname (name : String)

inductive Statement
  | ret
  | metaMarkSet (mark : Nat)
  | redirectTo (port : Nat)
  | masquerade
  deriving DecidableEq

structure Rule (γ : Type) where
  conditions : List (Match γ)
  statement : Statement

inductive ChainType
  | filter
  | nat
  | route
  deriving DecidableEq

inductive Hook
  | output
  | postrouting
  deriving DecidableEq

inductive Priority
  | mangle
  | dstnat
  | srcnat
  deriving DecidableEq

def Priority.value : Priority → Int
  | .mangle => -150
  | .dstnat => -100
  | .srcnat => 100

structure Chain (γ : Type) where
  name : String
  type : ChainType
  hook : Hook
  priority : Priority
  rules : List (Rule γ)

inductive Family
  | ip
  | inet
  deriving DecidableEq

structure Table (γ : Type) where
  family : Family
  name : String
  chains : List (Chain γ)

/-! ### Loading -/

def Match.resolve (f : γ → Option δ) : Match γ → Option (Match δ)
  | .ipDaddr nets => some (.ipDaddr nets)
  | .ip6Daddr nets => some (.ip6Daddr nets)
  | .l4protoTcp => some .l4protoTcp
  | .socketCgroupv2 level cgroup => (f cgroup).map (.socketCgroupv2 level)
  | .tcpDport port => some (.tcpDport port)
  | .oifname name => some (.oifname name)

def Rule.resolve (f : γ → Option δ) (r : Rule γ) : Option (Rule δ) := do
  return { conditions := ← r.conditions.mapM (Match.resolve f), statement := r.statement }

def Chain.resolve (f : γ → Option δ) (c : Chain γ) : Option (Chain δ) := do
  return { c with rules := ← c.rules.mapM (Rule.resolve f) }

/-- The paths of a rule set are looked up when it is loaded. -/
def Table.resolve (f : γ → Option δ) (t : Table γ) : Option (Table δ) := do
  return { t with chains := ← t.chains.mapM (Chain.resolve f) }

/-- Loading over a table that is there: the rules are added to the chains of the same name. -/
def Table.merge (old new : Table γ) : Table γ where
  family := old.family
  name := old.name
  chains := old.chains.map (fun c => { c with
      rules := c.rules ++ (new.chains.filter (fun d => d.name = c.name)).flatMap Chain.rules }) ++
    new.chains.filter (fun d => ∀ c ∈ old.chains, c.name ≠ d.name)

/-! ### Packets -/

/-- A packet on its way out: the cgroup its socket is in, as the way down to it, where it is
headed, the destination port if it is of TCP, its mark, and the interface it leaves by. -/
structure Packet (γ : Type) where
  cgroup : List γ
  dst : Dest
  dport : Option Nat
  mark : Nat
  oif : String

variable [DecidableEq γ]

def Match.holds (p : Packet γ) : Match γ → Bool
  | .ipDaddr nets => match p.dst with
    | .v4 a => nets.any (·.contains a)
    | .v6 _ => false
  | .ip6Daddr nets => match p.dst with
    | .v4 _ => false
    | .v6 a => nets.any (·.contains a)
  | .l4protoTcp => p.dport.isSome
  | .socketCgroupv2 level cgroup => decide (p.cgroup[level - 1]? = some cgroup)
  | .tcpDport port => decide (p.dport = some port)
  | .oifname name => decide (p.oif = name)

def Rule.holds (p : Packet γ) (r : Rule γ) : Bool := r.conditions.all (Match.holds p)

structure Outcome where
  mark : Nat
  nat : Option Statement
  deriving DecidableEq

def traverse : List (Rule γ) → Packet γ → Outcome
  | [], p => ⟨p.mark, none⟩
  | r :: rs, p =>
    if r.holds p then match r.statement with
      | .ret => ⟨p.mark, none⟩
      | .metaMarkSet mark => traverse rs { p with mark := mark }
      | statement => ⟨p.mark, some statement⟩
    else traverse rs p

def Table.traverse (t : Table γ) (chain : String) (p : Packet γ) : Outcome :=
  Nft.traverse ((t.chains.filter (fun c => c.name = chain)).flatMap Chain.rules) p

end Nft
