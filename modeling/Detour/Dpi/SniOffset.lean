import Detour.Dpi.Fragment
import Detour.Lib.ClientHello

/-! Where `sni_split_offset` cuts a ClientHello. -/

namespace Detour.Dpi

open Tls

variable {p rest : List UInt8} {i n : Nat}

/-! ### Reading at an offset -/

theorem getElem?_of_drop {b : UInt8} (h : p.drop i = b :: rest) : p[i]? = some b := by
  have h0 := congrArg (·[0]?) h
  simpa [List.getElem?_drop] using h0

theorem u16be_of_drop (h : p.drop i = be16 n ++ rest) (hn : n < 65536) :
    u16be p i = some n := by
  have h1 : p.drop (i + 1) = UInt8.ofNat n :: rest := drop_add (a := [_]) h
  rw [u16be, getElem?_of_drop h, getElem?_of_drop h1]
  exact congrArg some ((shift_or _ _).trans (ofBe16_be16 hn))

theorem le_length_of_drop {as : List UInt8} (h : p.drop i = as ++ rest) (ha : 0 < as.length) :
    i + as.length ≤ p.length := by
  have hlen := congrArg List.length h
  rw [List.length_drop, List.length_append] at hlen
  omega

theorem toNat_ofNat {n : Nat} (h : n < 256) : (UInt8.ofNat n).toNat = n := by
  rw [UInt8.toNat_ofNat', Nat.mod_eq_of_lt h]

/-! ### The walk -/

theorem walkExtensions_encode {e : Extension} (h : p.drop i = e.encode ++ rest)
    (he : e.type ≠ serverName) :
    walkExtensions p i = walkExtensions p (i + e.encode.length) := by
  have hlen : i + 4 ≤ p.length := by
    have := le_length_of_drop h (by rw [e.length_encode]; omega)
    rw [e.length_encode] at this
    omega
  rw [Extension.encode, List.append_assoc, List.append_assoc] at h
  have htype : u16be p i = some e.type := u16be_of_drop h e.type_fits
  have hdata : u16be p (i + 2) = some e.data.length :=
    u16be_of_drop (drop_add (a := be16 _) h) e.fits
  rw [walkExtensions, if_pos hlen, htype, hdata, e.length_encode, ← Nat.add_assoc]
  exact if_neg he

theorem walkExtensions_pass {es : List Extension} (h : p.drop i = encodeExtensions es ++ rest)
    (hes : ∀ e ∈ es, e.type ≠ serverName) :
    walkExtensions p i = walkExtensions p (i + (encodeExtensions es).length) := by
  induction es generalizing i with
  | nil => rfl
  | cons e es ih =>
    rw [encodeExtensions_cons, List.append_assoc] at h
    rw [walkExtensions_encode h (hes e List.mem_cons_self),
      ih (drop_add h) (fun e' he' => hes e' (List.mem_cons_of_mem e he')),
      encodeExtensions_cons, List.length_append, Nat.add_assoc]

theorem sniSplitOffset_fixed {c : ClientHello} (htype : p[0]? = some HANDSHAKE_CLIENT_HELLO)
    (h : p.drop 38 = c.choicesThen rest) : sniSplitOffset p =
      (u16be p c.totalOffset).bind fun _ => walkExtensions p c.extensionsOffset := by
  have hsid : p[38]? = some (UInt8.ofNat c.sessionId.length) := getElem?_of_drop h
  have hcipher : u16be p c.ciphersOffset = some c.cipherSuites.length :=
    u16be_of_drop (ClientHello.drop_ciphers h) c.cipherSuites_fits
  have hcomp : p[c.compressionsOffset]? = some (UInt8.ofNat c.compressions.length) :=
    getElem?_of_drop (ClientHello.drop_compressions h)
  simp only [ClientHello.extensionsOffset, ClientHello.totalOffset,
    ClientHello.compressionsOffset, ClientHello.ciphersOffset] at hcipher hcomp ⊢
  simp [sniSplitOffset, htype, hsid, hcipher, hcomp, toNat_ofNat c.sessionId_fits,
    toNat_ofNat c.compressions_fits]

theorem sniSplitOffset_encode (c : ClientHello) :
    sniSplitOffset c.encode = walkExtensions c.encode c.extensionsOffset := by
  have htotal : u16be c.encode c.totalOffset = some (encodeExtensions c.extensions).length :=
    u16be_of_drop c.drop_extensionBlock c.extensions_fits
  rw [sniSplitOffset_fixed rfl c.drop_choices, htotal]
  rfl

theorem u16be_of_drop_nil (h : p.drop i = []) : u16be p i = none := by
  have h0 : p[i]? = none := List.getElem?_eq_none (List.drop_eq_nil_iff.mp h)
  rw [u16be, h0]
  rfl

theorem walkExtensions_of_drop_nil (h : p.drop i = []) : walkExtensions p i = none := by
  have hlen := List.drop_eq_nil_iff.mp h
  rw [walkExtensions, if_neg (by omega)]

theorem sniSplitOffset_nameless {c : ClientHello} (h : ∀ e ∈ c.extensions, e.type ≠ serverName) :
    sniSplitOffset c.encode = none := by
  have hall : c.encode.drop c.extensionsOffset = encodeExtensions c.extensions ++ [] := by
    rw [c.drop_extensions, List.append_nil]
  rw [sniSplitOffset_encode, walkExtensions_pass hall h]
  exact walkExtensions_of_drop_nil (drop_add hall)

theorem sniSplitOffset_bare (c : ClientHello) : sniSplitOffset c.encodeBare = none := by
  rw [sniSplitOffset_fixed rfl c.drop_bareChoices,
    u16be_of_drop_nil (ClientHello.drop_total c.drop_bareChoices)]
  rfl

theorem sniSplitOffset_hostName {c : ClientHello} (h : HostName c) (hlong : 2 ≤ h.name.length) :
    sniSplitOffset c.encode = some (h.offset + h.name.length / 2) := by
  have hbefore : c.encode.drop c.extensionsOffset = encodeExtensions h.before ++
      (h.extension.encode ++ encodeExtensions h.after) := by
    rw [c.drop_extensions, h.extensions, encodeExtensions_append, encodeExtensions_cons]
  rw [sniSplitOffset_encode, walkExtensions_pass hbefore h.first]
  change walkExtensions c.encode h.extensionOffset = _
  have hext := h.drop_extension
  have hlen : h.extensionOffset + 4 ≤ c.encode.length := by
    have := le_length_of_drop hext (by rw [Extension.length_encode]; omega)
    rw [Extension.length_encode] at this
    omega
  rw [Extension.encode, List.append_assoc, List.append_assoc] at hext
  have htype : u16be c.encode h.extensionOffset = some h.extension.type :=
    u16be_of_drop hext h.extension.type_fits
  have hdata : u16be c.encode (h.extensionOffset + 2) = some h.extension.data.length :=
    u16be_of_drop (drop_add (a := be16 _) hext) h.extension.fits
  have hlist := drop_add (a := be16 _) h.drop_data
  have hname : c.encode[h.extensionOffset + 4 + 2]? = some 0 := getElem?_of_drop hlist
  have hnameLen : u16be c.encode (h.extensionOffset + 4 + 3) = some h.name.length :=
    u16be_of_drop (drop_add (a := [0]) hlist) h.name_fits
  have hle : h.extensionOffset + 4 + 5 + h.name.length ≤ c.encode.length := h.name_le
  rw [walkExtensions, if_pos hlen, htype, hdata]
  simp only [bind, Option.bind, h.type, serverName, EXT_SNI, if_true]
  simp only [sniMiddle, hname, hnameLen, bind, Option.bind]
  rw [if_neg (by simp), if_neg (by omega)]
  rfl

/-! ### Any bytes -/

variable {cut start : Nat}

theorem sniMiddle_inside (h : sniMiddle p start = some cut) : 0 < cut ∧ cut < p.length := by
  obtain ⟨nameType, -, h⟩ := Option.bind_eq_some_iff.mp h
  split at h
  next => cases h
  next =>
    obtain ⟨nameLen, -, h⟩ := Option.bind_eq_some_iff.mp h
    dsimp only at h
    split at h
    next => cases h
    next hlen =>
      obtain rfl := Option.some.inj h
      omega

theorem walkExtensions_inside (h : walkExtensions p i = some cut) : 0 < cut ∧ cut < p.length := by
  induction i using walkExtensions.induct (p := p) with
  | case1 i hlen ih =>
    rw [walkExtensions, if_pos hlen] at h
    obtain ⟨etype, -, h⟩ := Option.bind_eq_some_iff.mp h
    obtain ⟨elen, -, h⟩ := Option.bind_eq_some_iff.mp h
    dsimp only at h
    split at h
    next => exact sniMiddle_inside h
    next => exact ih elen h
  | case2 i hlen =>
    rw [walkExtensions, if_neg hlen] at h
    cases h

theorem sniSplitOffset_inside (h : sniSplitOffset p = some cut) : 0 < cut ∧ cut < p.length := by
  obtain ⟨type, -, h⟩ := Option.bind_eq_some_iff.mp h
  split at h
  next => cases h
  next =>
    obtain ⟨sidLen, -, h⟩ := Option.bind_eq_some_iff.mp h
    obtain ⟨cipherLen, -, h⟩ := Option.bind_eq_some_iff.mp h
    obtain ⟨compLen, -, h⟩ := Option.bind_eq_some_iff.mp h
    obtain ⟨total, -, h⟩ := Option.bind_eq_some_iff.mp h
    exact walkExtensions_inside h

end Detour.Dpi
