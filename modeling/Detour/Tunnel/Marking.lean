import Detour.Rust.AddrText
import Detour.Tunnel.Kernel

/-! What the rules of the tunnel mark, once they are loaded. -/

namespace Detour.Tunnel

open Detour.Rust Nft

variable {γ δ : Type} {g : γ} {gs : List γ}

/-! ### The table -/

def markRules (g : γ) : List (Rule γ) :=
  [⟨[.ipDaddr BYPASS_V4], .ret⟩, ⟨[.ip6Daddr BYPASS_V6], .ret⟩,
    ⟨[.socketCgroupv2 4 g], .metaMarkSet MARK⟩]

def tunnelTable (gs : List γ) : Table γ where
  family := .inet
  name := NFT_TABLE
  chains := [
    ⟨"output", .route, .output, .mangle, gs.flatMap markRules⟩,
    ⟨"postrouting", .nat, .postrouting, .srcnat,
      gs.flatMap fun _ => [⟨[.oifname IFACE], .masquerade⟩]⟩]

theorem sliceCgroup_path (uid : UInt32) : (sliceCgroup uid).1.toList =
    "user.slice".toList ++ '/' ::
      (("user-".toList ++ (Nat.toDigits 10 uid.toNat ++ ".slice".toList)) ++ '/' ::
        (("user@".toList ++ (Nat.toDigits 10 uid.toNat ++ ".service".toList)) ++ '/' ::
          SLICE.toList)) := by
  have huid : (toString uid).toList = Nat.toDigits 10 uid.toNat := by
    have hrepr : toString uid = Nat.repr uid.toNat := rfl
    rw [hrepr, Nat.toList_repr]
  have hpath : (sliceCgroup uid).1 = "user.slice/user-" ++ toString uid ++ ".slice/user@" ++
      toString uid ++ ".service/" ++ SLICE := rfl
  rw [hpath]
  simp only [String.toList_append, huid]
  simp

theorem sliceCgroup_level (uid : UInt32) : (sliceCgroup uid).2 = 4 := by
  have hdigits : '/' ∉ Nat.toDigits 10 uid.toNat := by
    intro h
    have hchar : AddrChar '/' := addrChar_of_mem_toDigits (.inl rfl) h
    unfold AddrChar at hchar
    exact absurd hchar (by decide)
  have hpiece {before after : Text} (hbefore : '/' ∉ before) (hafter : '/' ∉ after) :
      '/' ∉ before ++ (Nat.toDigits 10 uid.toNat ++ after) := by
    rw [List.mem_append, List.mem_append, not_or, not_or]
    exact ⟨hbefore, hdigits, hafter⟩
  have hslice : '/' ∉ "user-".toList ++ (Nat.toDigits 10 uid.toNat ++ ".slice".toList) :=
    hpiece (by decide) (by decide)
  have hservice : '/' ∉ "user@".toList ++ (Nat.toDigits 10 uid.toNat ++ ".service".toList) :=
    hpiece (by decide) (by decide)
  have hfirst : split '/' "user.slice".toList = ["user.slice".toList] := by decide
  have hlast : split '/' SLICE.toList = [SLICE.toList] := by decide
  have hlevel : (sliceCgroup uid).2 = (split '/' (sliceCgroup uid).1.toList).length := rfl
  rw [hlevel, sliceCgroup_path, split_append, split_append, split_append, hfirst,
    split_of_notMem hslice, split_of_notMem hservice, hlast]
  rfl

theorem nftRuleset_eq (uid : UInt32) : nftRuleset uid = tunnelTable [(sliceCgroup uid).1] := by
  rw [nftRuleset, sliceCgroup_level]
  rfl

theorem resolve_tunnelTable (f : γ → Option δ) :
    (tunnelTable [g]).resolve f = (f g).map fun h => tunnelTable [h] := by
  cases h : f g with
  | none =>
    simp [tunnelTable, markRules, Table.resolve, Chain.resolve, Rule.resolve, Match.resolve, h]
  | some d =>
    simp [tunnelTable, markRules, Table.resolve, Chain.resolve, Rule.resolve, Match.resolve, h]

theorem merge_tunnelTable (hs : List γ) :
    (tunnelTable gs).merge (tunnelTable hs) = tunnelTable (gs ++ hs) := by
  simp [tunnelTable, Table.merge]

theorem tunnelTable_singleton (h : γ) : tunnelTable [g] = tunnelTable gs → h ∈ gs → h = g := by
  intro heq hmem
  simp only [tunnelTable, Table.mk.injEq, List.cons.injEq, Chain.mk.injEq, true_and] at heq
  have hrule : ⟨[.socketCgroupv2 4 h], .metaMarkSet MARK⟩ ∈ gs.flatMap markRules :=
    List.mem_flatMap.mpr ⟨h, hmem, by simp [markRules]⟩
  rw [← heq.1] at hrule
  simpa [markRules] using hrule

/-! ### What it marks -/

def bypassed : Dest → Bool
  | .v4 a => BYPASS_V4.any (·.contains a)
  | .v6 a => BYPASS_V6.any (·.contains a)

def InSlice (p : Packet γ) (g : γ) : Prop := p.cgroup[3]? = some g

variable [DecidableEq γ]

instance (p : Packet γ) (g : γ) : Decidable (InSlice p g) := by
  unfold InSlice
  infer_instance

theorem holds_bypass (p : Packet γ) :
    (Match.holds p (.ipDaddr BYPASS_V4) || Match.holds p (.ip6Daddr BYPASS_V6)) =
      bypassed p.dst := by
  cases hd : p.dst with
  | v4 a => simp only [Match.holds, hd, bypassed, Bool.or_false]
  | v6 a => simp only [Match.holds, hd, bypassed, Bool.false_or]

theorem traverse_markRules (p : Packet γ) (rs : List (Rule γ)) :
    Nft.traverse (markRules g ++ rs) p =
      if bypassed p.dst then ⟨p.mark, none⟩
      else Nft.traverse rs { p with mark := if InSlice p g then MARK else p.mark } := by
  rw [← holds_bypass]
  cases h4 : Match.holds p (.ipDaddr BYPASS_V4) with
  | true => simp [markRules, Nft.traverse, Rule.holds, h4]
  | false =>
    cases h6 : Match.holds p (.ip6Daddr BYPASS_V6) with
    | true => simp [markRules, Nft.traverse, Rule.holds, h4, h6]
    | false =>
      have hc : Match.holds p (.socketCgroupv2 4 g) = decide (InSlice p g) := by
        simp [Match.holds, InSlice]
      by_cases hg : InSlice p g
      · simp [markRules, Nft.traverse, Rule.holds, h4, h6, hc, hg]
      · simp [markRules, Nft.traverse, Rule.holds, h4, h6, hc, hg]

theorem traverse_tunnelTable (gs : List γ) (p : Packet γ) :
    (tunnelTable gs).traverse "output" p =
      ⟨if bypassed p.dst = false ∧ ∃ g ∈ gs, InSlice p g then MARK else p.mark, none⟩ := by
  have houtput : (tunnelTable gs).traverse "output" p = Nft.traverse (gs.flatMap markRules) p := by
    simp [tunnelTable, Table.traverse]
  rw [houtput]
  clear houtput
  induction gs generalizing p with
  | nil => simp [Nft.traverse]
  | cons g gs ih =>
    rw [List.flatMap_cons, traverse_markRules, ih]
    cases hp : bypassed p.dst with
    | true => simp
    | false =>
      have hmark : ∀ m h, InSlice { p with mark := m } h ↔ InSlice p h := fun _ _ => Iff.rfl
      by_cases hg : InSlice p g
      · simp [hmark, hg]
      · simp [hmark, hg]

end Detour.Tunnel
