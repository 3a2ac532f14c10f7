import Detour.Tunnel.Rollback

/-! The redirect of a slice's HTTPS into the local fragmenting proxy, and the commands that put
it up and take it down. -/

namespace Detour.FilterRoute

open Atomic Detour.Rust Detour.ResolvConf Detour.Tunnel

def NFT_TABLE : String := "detour_filter"

def BYPASS_V4 : List (Nft.Net 32) :=
  [⟨v4 127 0 0 0, 8⟩, ⟨v4 10 0 0 0, 8⟩, ⟨v4 172 16 0 0, 12⟩, ⟨v4 192 168 0 0, 16⟩,
    ⟨v4 169 254 0 0, 16⟩]

def nftRuleset (uid : UInt32) (port : UInt16) : Nft.Table String where
  family := .ip
  name := NFT_TABLE
  chains := [
    { name := "output", type := .nat, hook := .output, priority := .dstnat
      rules := [
        ⟨[.ipDaddr BYPASS_V4], .ret⟩,
        ⟨[.l4protoTcp, .socketCgroupv2 (sliceCgroup uid).2 (sliceCgroup uid).1, .tcpDport 443],
          .redirectTo port.toNat⟩] }]

/-! ### Commands -/

def upSteps (nftPath : Tunnel.Path) : List Step := [step (.nftLoad nftPath)]

def downSteps : List Step := [optional (.nftDelete .ip NFT_TABLE)]

inductive FilterError
  | rootSlice
  | io (source : ErrorKind)
  | failed (command : String) (stderr : Text)
  deriving DecidableEq

abbrev FilterM := Fallible Op Op.Ret FilterError

abbrev ask (o : Op) : FilterM o.Ret := Fallible.sys o

def tryExec (s : Step) : Prog Op Op.Ret Unit := Prog.perform (.exec s.command) >>= fun _ => pure ()

def down : Prog Op Op.Ret Unit := Prog.forEach tryExec downSteps

def orIo : Except ErrorKind Unit → FilterM Unit
  | .ok () => pure ()
  | .error source => throw (.io source)

def install (s : Step) : FilterM Unit := do
  match ← ask (.exec s.command) with
  | .notSpawned source => throw (.io source)
  | .exited true _ => pure ()
  | .exited false stderr =>
    ExceptT.lift down
    throw (.failed (commandLine s.command) (trim stderr))

def nftPath : Tunnel.Path := "/run/detour/filter.nft"

def up (uid : UInt32) (port : UInt16) : FilterM Unit :=
  if uid = 0 then throw .rootSlice
  else do
    -- Replace any previous rule set rather than stacking.
    ExceptT.lift down
    orIo (← ask (.createDirAll "/run/detour"))
    orIo (← ask (.openTruncate nftPath))
    orIo (← ask (.writeAll nftPath (.ruleset (nftRuleset uid port))))
    Fallible.tryForEach install (upSteps nftPath)

/-! ### What the rules do -/

section Rules

open Nft

variable {γ δ : Type} {g : γ}

def filterTable (g : γ) (port : UInt16) : Table γ where
  family := .ip
  name := NFT_TABLE
  chains := [⟨"output", .nat, .output, .dstnat,
    [⟨[.ipDaddr BYPASS_V4], .ret⟩,
      ⟨[.l4protoTcp, .socketCgroupv2 4 g, .tcpDport 443], .redirectTo port.toNat⟩]⟩]

theorem nftRuleset_eq (uid : UInt32) (port : UInt16) :
    nftRuleset uid port = filterTable (sliceCgroup uid).1 port := by
  rw [nftRuleset, sliceCgroup_level]
  rfl

theorem resolve_filterTable (f : γ → Option δ) (port : UInt16) :
    (filterTable g port).resolve f = (f g).map fun h => filterTable h port := by
  cases h : f g with
  | none => simp [filterTable, Table.resolve, Chain.resolve, Rule.resolve, Match.resolve, h]
  | some d => simp [filterTable, Table.resolve, Chain.resolve, Rule.resolve, Match.resolve, h]

theorem filterTable_inj {h : γ} {port port' : UInt16} :
    filterTable g port = filterTable h port' ↔ g = h ∧ port = port' := by
  constructor
  · intro heq
    simp only [filterTable, Table.mk.injEq, List.cons.injEq, Chain.mk.injEq, Rule.mk.injEq,
      Match.socketCgroupv2.injEq, Statement.redirectTo.injEq, and_true, true_and] at heq
    exact ⟨heq.1, UInt16.toNat_inj.mp heq.2⟩
  · rintro ⟨rfl, rfl⟩
    rfl

theorem bypass_subset (a : BitVec 32) (h : BYPASS_V4.any (·.contains a) = true) :
    bypassed (.v4 a) = true := by
  obtain ⟨n, hn, hc⟩ := List.any_eq_true.mp h
  refine List.any_eq_true.mpr ⟨n, ?_, hc⟩
  simp only [BYPASS_V4, Tunnel.BYPASS_V4, List.mem_cons, List.not_mem_nil, or_false] at hn ⊢
  tauto

variable [DecidableEq γ]

theorem traverse_filterTable (p : Packet γ) (port : UInt16) {a : BitVec 32} (hd : p.dst = .v4 a)
    (hp : bypassed p.dst = false) :
    ((filterTable g port).traverse "output" p).nat =
      if InSlice p g ∧ p.dport = some 443 then some (.redirectTo port.toNat) else none := by
  have hbypass : Match.holds p (.ipDaddr BYPASS_V4) = false := by
    rw [hd] at hp
    simp only [Match.holds, hd]
    by_contra hany
    rw [Bool.not_eq_false] at hany
    rw [bypass_subset a hany] at hp
    cases hp
  have hcgroup : Match.holds p (.socketCgroupv2 4 g) = decide (InSlice p g) := by
    simp [Match.holds, InSlice]
  have hport : Match.holds p (.tcpDport 443) = decide (p.dport = some 443) := rfl
  have htcp : p.dport = some 443 → Match.holds p .l4protoTcp = true := by
    intro h
    simp [Match.holds, h]
  have hrules : (filterTable g port).traverse "output" p = Nft.traverse
      [⟨[.ipDaddr BYPASS_V4], .ret⟩,
        ⟨[.l4protoTcp, .socketCgroupv2 4 g, .tcpDport 443], .redirectTo port.toNat⟩] p := by
    simp [filterTable, Table.traverse]
  rw [hrules]
  by_cases h443 : p.dport = some 443
  · by_cases hg : InSlice p g
    · simp [Nft.traverse, Rule.holds, hbypass, hcgroup, hport, htcp h443, h443, hg]
    · simp [Nft.traverse, Rule.holds, hbypass, hcgroup, hg]
  · simp [Nft.traverse, Rule.holds, hbypass, hport, h443]

end Rules

end Detour.FilterRoute
