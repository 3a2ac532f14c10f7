import Detour.Attach.Command
import Detour.Rust.AddrBits
import Detour.Rust.AddrText
import Detour.Tunnel.Marking

/-! Which destinations are local to `tunnel attach`, and which the tunnel's rules leave alone. -/

namespace Detour.Attach

open Atomic Detour.Rust Detour.Tunnel Nft

def wireDest : IpAddr → Dest
  | .v4 a => .v4 (.ofNat 32 a.toNat)
  | .v6 a => match a.toIpv4Mapped with
    | some b => .v4 (.ofNat 32 b.toNat)
    | none => .v6 (.ofNat 128 a.toNat)

/-- No socket is connected to the unspecified address. -/
def CanBePeer (ip : IpAddr) : Prop :=
  ip ≠ .v4 (.new 0 0 0 0) ∧ ip ≠ .v6 ⟨#v[0, 0, 0, 0, 0, 0, 0, 0]⟩

instance (ip : IpAddr) : Decidable (CanBePeer ip) := by
  unfold CanBePeer
  infer_instance

def Mapped : IpAddr → Prop
  | .v4 _ => False
  | .v6 a => a.toIpv4Mapped ≠ none

/-! ### IPv4 -/

theorem toNat_new (x y z w : UInt8) : (Ipv4Addr.new x y z w).toNat =
    ((x.toNat * 256 + y.toNat) * 256 + z.toNat) * 256 + w.toNat := by
  change Nat.ofDigits 256 [w.toNat, z.toNat, y.toNat, x.toNat] = _
  simp only [Nat.ofDigits_cons, Nat.ofDigits_nil]
  omega

theorem bypassed_v4_iff {n : Nat} (hn : n < 2 ^ 32) : bypassed (.v4 (.ofNat 32 n)) = true ↔
    n / 2 ^ 24 = 127 ∨ n / 2 ^ 24 = 10 ∨ n / 2 ^ 20 = 2753 ∨ n / 2 ^ 16 = 49320 ∨
      n / 2 ^ 16 = 43518 ∨ n / 2 ^ 22 = 401 := by
  simp only [bypassed, BYPASS_V4, List.any_cons, List.any_nil, Bool.or_false, Bool.or_eq_true,
    Net.contains_iff, BitVec.toNat_ofNat, Nat.mod_eq_of_lt hn]
  exact Iff.rfl

theorem isLocal_new_iff (x y z w : UInt8) : Ipv4Addr.isLocal (.new x y z w) = true ↔
    x.toNat = 127 ∨ x.toNat = 10 ∨ (x.toNat = 172 ∧ 16 ≤ y.toNat ∧ y.toNat ≤ 31) ∨
      (x.toNat = 192 ∧ y.toNat = 168) ∨ (x.toNat = 169 ∧ y.toNat = 254) ∨
      (x.toNat = 0 ∧ y.toNat = 0 ∧ z.toNat = 0 ∧ w.toNat = 0) ∨
      (x.toNat = 100 ∧ 64 ≤ y.toNat ∧ y.toNat < 128) := by
  change (x == 127 || (x == 10 || (x == 172 && decide (16 ≤ y) && decide (y ≤ 31)) ||
    (x == 192 && y == 168)) || (x == 169 && y == 254) ||
    (x == 0 && y == 0 && z == 0 && w == 0) || (x == 100 && decide (64 ≤ y) && decide (y < 128))) =
    true ↔ _
  simp only [Bool.or_eq_true, Bool.and_eq_true, beq_iff_eq, decide_eq_true_eq, or_assoc,
    and_assoc, ← UInt8.toNat_inj, UInt8.le_iff_toNat_le, UInt8.lt_iff_toNat_lt]
  exact Iff.rfl

theorem isLocal_v4 {a : Ipv4Addr} (ha : a ≠ .new 0 0 0 0) :
    Ipv4Addr.isLocal a = bypassed (.v4 (.ofNat 32 a.toNat)) := by
  obtain ⟨x, y, z, w, rfl⟩ := a.exists_new
  have hx := x.toNat_lt
  have hy := y.toNat_lt
  have hz := z.toNat_lt
  have hw := w.toNat_lt
  have hne : ¬(x.toNat = 0 ∧ y.toNat = 0 ∧ z.toNat = 0 ∧ w.toNat = 0) := by
    rintro ⟨h0, h1, h2, h3⟩
    apply ha
    rw [UInt8.toNat_inj.mp (h0.trans UInt8.toNat_zero.symm),
      UInt8.toNat_inj.mp (h1.trans UInt8.toNat_zero.symm),
      UInt8.toNat_inj.mp (h2.trans UInt8.toNat_zero.symm),
      UInt8.toNat_inj.mp (h3.trans UInt8.toNat_zero.symm)]
  rw [Bool.eq_iff_iff, isLocal_new_iff, bypassed_v4_iff (Ipv4Addr.toNat_lt _), toNat_new]
  generalize ha : x.toNat = a at *
  generalize hb : y.toNat = b at *
  generalize hn : (((a * 256 + b) * 256 + z.toNat) * 256 + w.toNat) = n
  have h24 : n / 2 ^ 24 = a := by omega
  have h20 : n / 2 ^ 20 = a * 16 + b / 16 := by omega
  have h16 : n / 2 ^ 16 = a * 256 + b := by omega
  have h22 : n / 2 ^ 22 = a * 4 + b / 64 := by omega
  have hprivate : a * 16 + b / 16 = 2753 ↔ a = 172 ∧ 16 ≤ b ∧ b ≤ 31 := by omega
  have hhome : a * 256 + b = 49320 ↔ a = 192 ∧ b = 168 := by omega
  have hlink : a * 256 + b = 43518 ↔ a = 169 ∧ b = 254 := by omega
  have hshared : a * 4 + b / 64 = 401 ↔ a = 100 ∧ 64 ≤ b ∧ b < 128 := by omega
  rw [h24, h20, h16, h22, hprivate, hhome, hlink, hshared]
  simp only [hne, false_or]

/-! ### IPv6 -/

theorem exists_segments (a : Ipv6Addr) :
    ∃ (x : UInt16) (n : Nat), a.firstSegment = x ∧ n < 2 ^ 112 ∧
      a.toNat = x.toNat * 2 ^ 112 + n := by
  have hlen : a.segments.toList.length = 8 := by simp
  cases hs : a.segments.toList with
  | nil => simp [hs] at hlen
  | cons x rest =>
    refine ⟨x, Nat.ofDigits 65536 (rest.map UInt16.toNat).reverse, ?_, ?_, ?_⟩
    · have hget : a.segments.toList[0]? = some x := by rw [hs]; rfl
      simpa [Ipv6Addr.firstSegment] using hget
    · have hlt := Nat.ofDigits_lt_base_pow_length (b := 65536)
        (l := (rest.map UInt16.toNat).reverse) (by decide) (by
          intro d hd
          obtain ⟨o, -, rfl⟩ := List.mem_map.mp (List.mem_reverse.mp hd)
          exact o.toNat_lt)
      rw [hs] at hlen
      simp only [List.length_reverse, List.length_map] at hlt
      simp only [List.length_cons] at hlen
      have hrest : rest.length = 7 := by omega
      rw [hrest] at hlt
      simpa using hlt
    · rw [hs] at hlen
      simp only [List.length_cons] at hlen
      have hrest : rest.length = 7 := by omega
      rw [Ipv6Addr.toNat, Ipv6Addr.digits, hs, List.map_cons, List.reverse_cons,
        Nat.ofDigits_append, Nat.ofDigits_singleton, List.length_reverse, List.length_map, hrest]
      omega

theorem and_upper {n k w : Nat} (hn : n < 2 ^ (k + w)) :
    n &&& (2 ^ w - 1) <<< k = n / 2 ^ k * 2 ^ k := by
  have hdiv : (n &&& (2 ^ w - 1) <<< k) / 2 ^ k = n / 2 ^ k := by
    rw [← Nat.shiftRight_eq_div_pow, Nat.shiftRight_and_distrib, Nat.shiftLeft_shiftRight,
      Nat.and_two_pow_sub_one_eq_mod, Nat.shiftRight_eq_div_pow, Nat.mod_eq_of_lt]
    apply Nat.div_lt_of_lt_mul
    rwa [← Nat.pow_add]
  have hmod : (n &&& (2 ^ w - 1) <<< k) % 2 ^ k = 0 := by
    rw [← Nat.and_two_pow_sub_one_eq_mod, Nat.and_assoc, Nat.and_two_pow_sub_one_eq_mod,
      Nat.shiftLeft_eq, Nat.mul_mod_left, Nat.and_zero]
  have hsplit := Nat.div_add_mod (n &&& (2 ^ w - 1) <<< k) (2 ^ k)
  rw [hdiv, hmod, Nat.add_zero, Nat.mul_comm] at hsplit
  exact hsplit.symm

theorem mask_unique_local (x : UInt16) : x &&& 0xfe00 = 0xfc00 ↔ x.toNat / 512 = 126 := by
  have hmask : x.toNat &&& 0xfe00 = x.toNat / 2 ^ 9 * 2 ^ 9 :=
    and_upper (k := 9) (w := 7) x.toNat_lt
  rw [← UInt16.toNat_inj, UInt16.toNat_and]
  change x.toNat &&& 0xfe00 = 0xfc00 ↔ _
  omega

theorem mask_link_local (x : UInt16) : x &&& 0xffc0 = 0xfe80 ↔ x.toNat / 64 = 1018 := by
  have hmask : x.toNat &&& 0xffc0 = x.toNat / 2 ^ 6 * 2 ^ 6 :=
    and_upper (k := 6) (w := 10) x.toNat_lt
  rw [← UInt16.toNat_inj, UInt16.toNat_and]
  change x.toNat &&& 0xffc0 = 0xfe80 ↔ _
  omega

theorem bypassed_v6_iff {n : Nat} (hn : n < 2 ^ 128) : bypassed (.v6 (.ofNat 128 n)) = true ↔
    n = 1 ∨ n / 2 ^ 121 = 126 ∨ n / 2 ^ 118 = 1018 := by
  simp only [bypassed, BYPASS_V6, List.any_cons, List.any_nil, Bool.or_false, Bool.or_eq_true,
    Net.contains_iff, BitVec.toNat_ofNat, Nat.mod_eq_of_lt hn]
  change n / 1 = 1 ∨ n / 2 ^ 121 = 126 ∨ n / 2 ^ 118 = 1018 ↔ _
  rw [Nat.div_one]

theorem segments_eq_iff {a : Ipv6Addr} {v : Vector UInt16 8} :
    a.segments.toList = v.toList ↔ a.toNat = (Ipv6Addr.mk v).toNat := by
  constructor
  · intro h
    rw [Ipv6Addr.toNat, Ipv6Addr.digits, h]
    rfl
  · intro h
    rw [Ipv6Addr.toNat_inj h]

theorem isLocal_v6 {a : Ipv6Addr} (ha : a ≠ ⟨#v[0, 0, 0, 0, 0, 0, 0, 0]⟩) :
    Ipv6Addr.isLocal a = bypassed (.v6 (.ofNat 128 a.toNat)) := by
  obtain ⟨x, n, hx, hn, htoNat⟩ := exists_segments a
  have hone : a.segments.toList = [0, 0, 0, 0, 0, 0, 0, 1] ↔ a.toNat = 1 :=
    segments_eq_iff (v := #v[0, 0, 0, 0, 0, 0, 0, 1])
  have hzero : a.segments.toList ≠ [0, 0, 0, 0, 0, 0, 0, 0] := by
    intro h
    exact ha (Ipv6Addr.toNat_inj (segments_eq_iff (v := #v[0, 0, 0, 0, 0, 0, 0, 0]).mp h))
  rw [Bool.eq_iff_iff, bypassed_v6_iff a.toNat_lt, Ipv6Addr.isLocal]
  simp only [Bool.or_eq_true, beq_iff_eq, hone, hzero, or_false, hx, mask_unique_local,
    mask_link_local, or_assoc]
  have hxlt := x.toNat_lt
  omega

theorem isLocal_mapped {a : Ipv6Addr} (h : a.toIpv4Mapped ≠ none) :
    Ipv6Addr.isLocal a = false := by
  unfold Ipv6Addr.toIpv4Mapped at h
  split at h
  · next x y hs =>
    have hfirst : a.firstSegment = 0 := by
      have hget : a.segments.toList[0]? = some 0 := by rw [hs]; rfl
      simpa [Ipv6Addr.firstSegment] using hget
    rw [Ipv6Addr.isLocal, hs, hfirst]
    rfl
  · exact absurd rfl h

/-! ### What is reset -/

def Resets (moved : List UInt32) (line : Text) : Prop :=
  ∃ args, (ExceptT.run (resetAll moved 0 [line])).next = some (.ss ("-K" :: args))

theorem resets_iff {moved : List UInt32} {line : Text} {sock : SocketEntry}
    (hline : parseSsLine line = some sock) (hmoved : ∃ pid ∈ sock.pids, pid ∈ moved) :
    Resets moved line ↔ isLocalDestination sock.peer.ip = false := by
  have hany : (!sock.pids.any (· ∈ moved)) = false := by simpa using hmoved
  rw [Resets, resetAll, hline]
  simp only [hany]
  cases isLocalDestination sock.peer.ip with
  | true =>
    refine ⟨?_, nofun⟩
    rintro ⟨args, h⟩
    cases h
  | false => exact ⟨fun _ => rfl, fun _ => ⟨_, rfl⟩⟩

/-- New packets of a process in the slice to an address are marked for the tunnel. -/
def Tunnelled (uid : UInt32) (ip : IpAddr) : Prop :=
  ∀ p : Packet String, InSlice p (sliceCgroup uid).1 → p.dst = wireDest ip →
    ((nftRuleset uid).traverse "output" p).mark = MARK

theorem tunnelled_iff (uid : UInt32) (ip : IpAddr) :
    Tunnelled uid ip ↔ bypassed (wireDest ip) = false := by
  have htable : nftRuleset uid = tunnelTable [(sliceCgroup uid).1] := nftRuleset_eq uid
  constructor
  · intro h
    let p : Packet String := ⟨["", "", "", (sliceCgroup uid).1], wireDest ip, none, 0, ""⟩
    have hmark := h p rfl rfl
    rw [htable, traverse_tunnelTable] at hmark
    cases hb : bypassed (wireDest ip) with
    | false => rfl
    | true =>
      have hp : bypassed p.dst = true := hb
      rw [if_neg (by simp [hp])] at hmark
      have hunmarked : (0 : Nat) ≠ MARK := by decide
      exact absurd hmark hunmarked
  · intro hb p hin hdst
    rw [htable, traverse_tunnelTable, if_pos ⟨hdst ▸ hb, _, List.mem_singleton_self _, hin⟩]

/-- Exempt and local mean the same thing, and connections are reset exactly if they would go
through the tunnel, unless the peer is an exempt IPv4 address written as an IPv6 address. -/
theorem local_iff_exempt (uid : UInt32) (ip : IpAddr) (hpeer : CanBePeer ip) :
    ((isLocalDestination ip = true ↔ bypassed (wireDest ip) = true) ∧
      ∀ moved line sock, parseSsLine line = some sock → sock.peer.ip = ip →
        (∃ pid ∈ sock.pids, pid ∈ moved) → (Resets moved line ↔ Tunnelled uid ip)) ↔
    ¬(Mapped ip ∧ bypassed (wireDest ip) = true) := by
  have hreset (heq : isLocalDestination ip = bypassed (wireDest ip)) (moved : List UInt32)
      (line : Text) (sock : SocketEntry) (hline : parseSsLine line = some sock)
      (hip : sock.peer.ip = ip) (hmoved : ∃ pid ∈ sock.pids, pid ∈ moved) :
      Resets moved line ↔ Tunnelled uid ip := by
    rw [resets_iff hline hmoved, tunnelled_iff, hip, heq]
  cases ip with
  | v4 a =>
    have heq : isLocalDestination (.v4 a) = bypassed (wireDest (.v4 a)) :=
      isLocal_v4 fun h => hpeer.1 (congrArg IpAddr.v4 h)
    exact ⟨fun _ hmapped => hmapped.1, fun _ => ⟨by rw [heq], hreset heq⟩⟩
  | v6 a =>
    cases hmap : a.toIpv4Mapped with
    | none =>
      have hwire : wireDest (.v6 a) = .v6 (.ofNat 128 a.toNat) := by rw [wireDest, hmap]
      have heq : isLocalDestination (.v6 a) = bypassed (wireDest (.v6 a)) := by
        rw [hwire]
        exact isLocal_v6 fun h => hpeer.2 (congrArg IpAddr.v6 h)
      exact ⟨fun _ hmapped => hmapped.1 hmap, fun _ => ⟨by rw [heq], hreset heq⟩⟩
    | some b =>
      have hmapped : a.toIpv4Mapped ≠ none := by
        rw [hmap]
        nofun
      have hfalse : isLocalDestination (.v6 a) = false := isLocal_mapped hmapped
      constructor
      · rintro ⟨hsame, -⟩ ⟨-, hb⟩
        rw [hsame.mpr hb] at hfalse
        cases hfalse
      · intro h
        have heq : isLocalDestination (.v6 a) = bypassed (wireDest (.v6 a)) := by
          rw [hfalse]
          exact (Bool.eq_false_iff.mpr fun hb => h ⟨hmapped, hb⟩).symm
        exact ⟨by rw [heq], hreset heq⟩

theorem public_exempt :
    isLocalDestination (.v4 (.new 142 251 151 4)) = true ↔
      bypassed (wireDest (.v4 (.new 142 251 151 4))) = true :=
  ((local_iff_exempt 1000 (.v4 (.new 142 251 151 4)) (by decide)).mpr fun h => h.1).1

def mappedPrivate : IpAddr := .v6 ⟨#v[0, 0, 0, 0, 0, 0xffff, 0x0a00, 0x0001]⟩

/-- A private address is exempt when it is written as an IPv6 address, but not local. -/
theorem mapped_not_local : ¬∀ ip : IpAddr, CanBePeer ip →
    (isLocalDestination ip = true ↔ bypassed (wireDest ip) = true) := by
  intro hall
  have h := hall mappedPrivate (by decide)
  have hexempt : bypassed (wireDest mappedPrivate) = true := by decide +kernel
  have hlocal : isLocalDestination mappedPrivate = false := by decide
  rw [h.mpr hexempt] at hlocal
  cases hlocal

end Detour.Attach
