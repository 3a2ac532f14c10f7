import Detour.Dpi.Splice
import Detour.Rust.Bytes

/-! What of a host name is still in one piece when its ClientHello goes out in two records. -/

namespace Detour.Dpi

open Detour.Rust Tls

/-! ### The host name -/

section HostName

variable {c : ClientHello} {version : UInt8 × UInt8} {fits : c.encode.length < 65536}

theorem fragmentClientHello_hello (h : HostName c) (hlong : 2 ≤ h.name.length) :
    fragmentClientHello (helloRecord c version fits).encode =
      .ok (((helloRecord c version fits).take (h.offset + h.name.length / 2)).encode ++
        ((helloRecord c version fits).drop (h.offset + h.name.length / 2)).encode) := by
  have hcut : cutOffset (helloRecord c version fits).payload =
      some (h.offset + h.name.length / 2) := cutOffset_hostName h hlong
  rw [fragmentClientHello_encode _ rfl, hcut]

/-- The cut severs the host name of every ClientHello that has one; where there is none there is
no such cut, and of any bytes it is strictly inside. -/
theorem sniSplitOffset_severs :
    (∀ (c : ClientHello) (h : HostName c), 2 ≤ h.name.length →
      sniSplitOffset c.encode = some (h.offset + h.name.length / 2) ∧
        h.offset < h.offset + h.name.length / 2 ∧
        h.offset + h.name.length / 2 < h.offset + h.name.length ∧
        ∀ (version : UInt8 × UInt8) (fits : c.encode.length < 65536), ∃ a b : Record,
          fragmentClientHello (helloRecord c version fits).encode = .ok (a.encode ++ b.encode) ∧
            a.payload ++ b.payload = c.encode ∧
            ¬Whole (a.encode ++ b.encode) h.offset h.name.length) ∧
    (∀ c : ClientHello, (∀ e ∈ c.extensions, e.type ≠ serverName) →
      sniSplitOffset c.encode = none) ∧
    (∀ c : ClientHello, sniSplitOffset c.encodeBare = none) ∧
    ∀ (p : List UInt8) (cut : Nat), sniSplitOffset p = some cut → 0 < cut ∧ cut < p.length := by
  refine ⟨fun c h hlong => ?_, fun c hc => sniSplitOffset_nameless hc, sniSplitOffset_bare,
    fun p cut => sniSplitOffset_inside⟩
  refine ⟨sniSplitOffset_hostName h hlong, by omega, by omega, fun version fits => ?_⟩
  refine ⟨_, _, fragmentClientHello_hello h hlong, List.take_append_drop _ _, ?_⟩
  have hle : h.offset + h.name.length ≤ (helloRecord c version fits).payload.length := h.name_le
  rw [← List.append_nil (Record.encode _ ++ _)]
  apply not_whole_split _ _ _ _ hle
  · omega
  · omega

end HostName

theorem shortName_severed : ∃ a b : Record,
    fragmentClientHello shortRecord.encode = .ok (a.encode ++ b.encode) ∧
      a.payload ++ b.payload = shortHello.encode ∧
      ¬Whole (a.encode ++ b.encode) shortName.offset shortName.name.length :=
  (sniSplitOffset_severs.1 shortHello shortName (by decide)).2.2.2 (3, 1) (by decide)

/-! ### A label of it -/

theorem whole_split (r : Record) (bs : List UInt8) {o n cut : Nat} (h : o + n ≤ cut ∨ cut ≤ o)
    (hle : o + n ≤ r.payload.length) :
    Whole ((r.take cut).encode ++ (r.drop cut).encode ++ bs) o n := by
  rw [Whole, List.append_assoc, records_encode_append, records_encode_append]
  rcases h with h | h
  · refine ⟨[], _, _, rfl, Nat.zero_le o, ?_⟩
    simp only [List.flatMap_nil, List.length_nil, Record.take, List.length_take]
    omega
  · refine ⟨[_], _, _, rfl, ?_, ?_⟩
    · simp only [List.flatMap_cons, List.flatMap_nil, List.append_nil, Record.take,
        List.length_take]
      omega
    · simp only [List.flatMap_cons, List.flatMap_nil, List.append_nil, Record.take, Record.drop,
        List.length_take, List.length_drop]
      omega

theorem not_whole_split_iff (r : Record) (bs : List UInt8) {o n cut : Nat}
    (hle : o + n ≤ r.payload.length) :
    ¬Whole ((r.take cut).encode ++ (r.drop cut).encode ++ bs) o n ↔ o < cut ∧ cut < o + n := by
  constructor
  · intro h
    by_contra hcut
    apply h
    apply whole_split r bs _ hle
    omega
  · rintro ⟨h1, h2⟩
    exact not_whole_split r bs h1 h2 hle

def DOT : UInt8 := 0x2e

structure Labels (name : List UInt8) where
  subdomains : List (List UInt8)
  domain : List UInt8
  top : List UInt8
  label : ∀ l ∈ domain :: top :: subdomains, l ≠ [] ∧ DOT ∉ l
  name_eq : name = subdomains.flatMap (fun l => l ++ [DOT]) ++ (domain ++ DOT :: top)

namespace Labels

variable {name : List UInt8} (ls : Labels name)

def start : Nat := (ls.subdomains.flatMap fun l => l ++ [DOT]).length

theorem length_eq : name.length = ls.start + (ls.domain.length + (1 + ls.top.length)) := by
  have h := congrArg List.length ls.name_eq
  simp only [List.length_append, List.length_cons] at h
  rw [h, start]
  omega

theorem drop_start : name.drop ls.start = ls.domain ++ DOT :: ls.top := by
  have h := congrArg (List.drop ls.start) ls.name_eq
  rw [h]
  exact List.drop_left

end Labels

theorem take_domain {c : ClientHello} (h : HostName c) (ls : Labels h.name) :
    (c.encode.drop (h.offset + ls.start)).take ls.domain.length = ls.domain := by
  have hlen := ls.length_eq
  rw [← List.drop_drop, h.drop_name, List.drop_append_of_le_length (by omega), ls.drop_start,
    List.append_assoc, List.take_left]

theorem domain_not_whole_iff {c : ClientHello} (h : HostName c) (ls : Labels h.name)
    (r : Record) (hr : r.payload = c.encode) (bs : List UInt8) :
    ¬Whole ((r.take (h.offset + h.name.length / 2)).encode ++
        (r.drop (h.offset + h.name.length / 2)).encode ++ bs) (h.offset + ls.start)
        ls.domain.length ↔
      ls.start < h.name.length / 2 ∧ h.name.length / 2 < ls.start + ls.domain.length := by
  have hlen := ls.length_eq
  have hle := h.name_le
  rw [not_whole_split_iff r bs (by rw [hr]; omega)]
  omega

/-- The domain is severed when the middle of the whole name is inside it. -/
theorem domain_severed_iff {c : ClientHello} (h : HostName c) (ls : Labels h.name)
    (hlong : 2 ≤ ls.domain.length) (version : UInt8 × UInt8) (fits : c.encode.length < 65536) :
    ∃ a b : Record,
      fragmentClientHello (helloRecord c version fits).encode = .ok (a.encode ++ b.encode) ∧
        ((a.payload ++ b.payload).drop (h.offset + ls.start)).take ls.domain.length = ls.domain ∧
        (¬Whole (a.encode ++ b.encode) (h.offset + ls.start) ls.domain.length ↔
          ls.start < h.name.length / 2 ∧ h.name.length / 2 < ls.start + ls.domain.length) := by
  have hlen := ls.length_eq
  refine ⟨_, _, fragmentClientHello_hello h (by omega), ?_, ?_⟩
  · change ((List.take _ c.encode ++ List.drop _ c.encode).drop _).take _ = _
    rw [List.take_append_drop]
    exact take_domain h ls
  · rw [← List.append_nil (Record.encode _ ++ _)]
    exact domain_not_whole_iff h ls _ rfl []

/-! ### Two hosts -/

def helloFor (host : List UInt8) (short : host.length < 256) : ClientHello where
  version := (3, 3)
  random := List.replicate 32 7
  sessionId := []
  cipherSuites := [0x13, 0x01]
  compressions := [0]
  extensions := [⟨0, be16 (3 + host.length + 0) ++ (0 :: (be16 host.length ++ (host ++ []))),
    serverName_fits, by simp; omega⟩]
  random_length := shortHello.random_length
  sessionId_fits := shortHello.sessionId_fits
  cipherSuites_fits := shortHello.cipherSuites_fits
  compressions_fits := shortHello.compressions_fits
  extensions_fits := by simp [encodeExtensions]; omega

def hostFor (host : List UInt8) (short : host.length < 256) : HostName (helloFor host short) where
  before := []
  extension := ⟨0, be16 (3 + host.length + 0) ++ (0 :: (be16 host.length ++ (host ++ []))),
    serverName_fits, by simp; omega⟩
  after := []
  name := host
  more := []
  extensions := rfl
  first := shortName.first
  type := rfl
  data := rfl

def shortHost : List UInt8 := ascii "youtube.com"

def shortLabels : Labels shortHost where
  subdomains := []
  domain := ascii "youtube"
  top := ascii "com"
  label := by decide +kernel
  name_eq := by decide +kernel

theorem shortHost_severed : ∃ a b : Record,
    fragmentClientHello (helloRecord (helloFor shortHost (by decide)) (3, 1)
      (by decide +kernel)).encode = .ok (a.encode ++ b.encode) ∧
    ((a.payload ++ b.payload).drop ((hostFor shortHost (by decide)).offset +
      shortLabels.start)).take shortLabels.domain.length = shortLabels.domain ∧
    (¬Whole (a.encode ++ b.encode) ((hostFor shortHost (by decide)).offset + shortLabels.start)
        shortLabels.domain.length ↔ shortLabels.start < shortHost.length / 2 ∧
      shortHost.length / 2 < shortLabels.start + shortLabels.domain.length) :=
  domain_severed_iff (hostFor shortHost (by decide)) shortLabels (by decide +kernel) (3, 1)
    (by decide +kernel)

def longHost : List UInt8 := ascii "developers.youtube.com"

def longLabels : Labels longHost where
  subdomains := [ascii "developers"]
  domain := ascii "youtube"
  top := ascii "com"
  label := by decide +kernel
  name_eq := by decide +kernel

/-- The middle of this name is the dot before the domain, which the second record carries whole. -/
theorem longHost_whole : ¬∀ (c : ClientHello) (h : HostName c) (ls : Labels h.name)
    (version : UInt8 × UInt8) (fits : c.encode.length < 65536) (a b : Record),
    2 ≤ ls.domain.length →
    fragmentClientHello (helloRecord c version fits).encode = .ok (a.encode ++ b.encode) →
    ¬Whole (a.encode ++ b.encode) (h.offset + ls.start) ls.domain.length := by
  intro hall
  have hfits : (helloFor longHost (by decide)).encode.length < 65536 := by decide +kernel
  have hout := @fragmentClientHello_hello _ (3, 1) hfits (hostFor longHost (by decide))
    (by decide)
  have hcut := hall _ (hostFor longHost (by decide)) longLabels (3, 1) hfits _ _
    (by decide +kernel) hout
  have hiff := domain_not_whole_iff (hostFor longHost (by decide)) longLabels
    (helloRecord _ (3, 1) hfits) rfl []
  rw [List.append_nil] at hiff
  have hstart : ¬longLabels.start < longHost.length / 2 := by decide +kernel
  exact hstart (hiff.mp hcut).1

end Detour.Dpi
