import Detour.Rust.AddrText

/-! Which characters the readers of addresses take. -/

namespace Detour.Rust

variable {radix max maxDigits n : Nat} {azp : Bool} {cs ds rest : List Char}

def AddrLetter (c : Char) : Prop := toDigit 16 c ≠ none ∨ c = ':' ∨ c = '.'

theorem AddrLetter.bounds {c : Char} (h : AddrLetter c) : 46 ≤ c.toNat ∧ c.toNat ≤ 58 ∨
    97 ≤ c.toNat ∧ c.toNat ≤ 122 ∨ 65 ≤ c.toNat ∧ c.toNat ≤ 90 := by
  rcases h with h | rfl | rfl
  · by_contra hout
    apply h
    have hdigit : ¬(48 ≤ c.toNat ∧ c.toNat ≤ 57) := by omega
    have hlower : ¬(97 ≤ c.toNat ∧ c.toNat ≤ 122) := by omega
    have hupper : ¬(65 ≤ c.toNat ∧ c.toNat ≤ 90) := by omega
    simp only [toDigit, if_neg hdigit, if_neg hlower, if_neg hupper]
    rfl
  · decide
  · decide

theorem AddrLetter.plain {c : Char} (h : AddrLetter c) :
    isWhitespace c = false ∧ c ≠ '%' ∧ c ≠ '[' ∧ c ≠ ']' := by
  have hbounds := h.bounds
  refine ⟨?_, ?_, ?_, ?_⟩
  · rw [Bool.eq_false_iff]
    simp only [isWhitespace, ne_eq, Bool.or_eq_true, Bool.and_eq_true, decide_eq_true_eq,
      beq_iff_eq]
    omega
  · rintro rfl
    exact absurd hbounds (by decide)
  · rintro rfl
    exact absurd hbounds (by decide)
  · rintro rfl
    exact absurd hbounds (by decide)

def Takes (cs rest : List Char) : Prop := ∃ taken, cs = taken ++ rest ∧ ∀ c ∈ taken, AddrLetter c

theorem Takes.refl (cs : List Char) : Takes cs cs := ⟨[], rfl, List.forall_mem_nil _⟩

theorem Takes.trans (h : Takes cs ds) (h' : Takes ds rest) : Takes cs rest := by
  obtain ⟨taken, rfl, hc⟩ := h
  obtain ⟨more, rfl, hm⟩ := h'
  exact ⟨taken ++ more, (List.append_assoc ..).symm, List.forall_mem_append.mpr ⟨hc, hm⟩⟩

theorem Takes.cons {c : Char} (hc : AddrLetter c) (h : Takes cs rest) : Takes (c :: cs) rest := by
  obtain ⟨taken, rfl, ht⟩ := h
  exact ⟨c :: taken, rfl, List.forall_mem_cons.mpr ⟨hc, ht⟩⟩

theorem Takes.all (h : Takes cs []) : ∀ c ∈ cs, AddrLetter c := by
  obtain ⟨taken, rfl, hc⟩ := h
  rwa [List.append_nil]

theorem toDigit_sixteen {c : Char} (h : toDigit 10 c ≠ none) : toDigit 16 c ≠ none := by
  have hdigit : 48 ≤ c.toNat ∧ c.toNat ≤ 57 := by
    by_contra hout
    apply h
    simp only [toDigit, if_neg hout]
    split_ifs <;> first | omega | rfl
  have hlt : c.toNat - 48 < 16 := by omega
  simp only [toDigit, if_pos hdigit, if_pos hlt]
  exact Option.some_ne_none _

theorem readDigits_takes (hradix : radix = 10 ∨ radix = 16) (cs : List Char) :
    Takes cs (readDigits radix cs).2 := by
  induction cs with
  | nil => exact .refl []
  | cons c cs ih =>
    rw [readDigits]
    cases hd : toDigit radix c with
    | none => exact .refl _
    | some d =>
      have hdigit : toDigit radix c ≠ none := by
        rw [hd]
        exact Option.some_ne_none _
      apply ih.cons
      rcases hradix with rfl | rfl
      · exact .inl (toDigit_sixteen hdigit)
      · exact .inl hdigit

theorem readNumber_takes (hradix : radix = 10 ∨ radix = 16)
    (h : readNumber radix maxDigits azp max cs = some (n, rest)) : Takes cs rest := by
  unfold readNumber at h
  simp only [] at h
  have htakes := readDigits_takes hradix cs
  split at h
  · cases h
  · split at h
    · cases h
    · split at h
      · cases h
        exact htakes
      · cases h

theorem readGivenChar_eq {sep : Char} (h : readGivenChar sep cs = some rest) :
    cs = sep :: rest := by
  cases cs with
  | nil => cases h
  | cons c cs =>
    rw [readGivenChar] at h
    split at h
    · next hc =>
      cases h
      rw [hc]
    · cases h

theorem readSeparator_takes {sep : Char} {index : Nat} (hsep : AddrLetter sep)
    (h : readSeparator sep index cs = some rest) : Takes cs rest := by
  rw [readSeparator] at h
  split at h
  · rw [readGivenChar_eq h]
    exact (Takes.refl rest).cons hsep
  · cases h
    exact .refl cs

theorem readOctet_takes {index : Nat} {o : UInt8} (h : readOctet index cs = some (o, rest)) :
    Takes cs rest := by
  simp only [readOctet, Option.bind_eq_bind, Option.bind_eq_some_iff, Option.pure_def,
    Option.some.injEq, Prod.mk.injEq] at h
  obtain ⟨ds, hsep, ⟨n, rest'⟩, hnumber, -, rfl⟩ := h
  exact (readSeparator_takes (.inr (.inr rfl)) hsep).trans (readNumber_takes (.inl rfl) hnumber)

theorem readIpv4Addr_takes {a : Ipv4Addr} (h : readIpv4Addr cs = some (a, rest)) :
    Takes cs rest := by
  simp only [readIpv4Addr, Option.bind_eq_bind, Option.bind_eq_some_iff, Option.pure_def,
    Option.some.injEq, Prod.mk.injEq] at h
  obtain ⟨⟨w, c1⟩, hw, ⟨x, c2⟩, hx, ⟨y, c3⟩, hy, ⟨z, c4⟩, hz, -, rfl⟩ := h
  exact ((readOctet_takes hw).trans (readOctet_takes hx)).trans
    ((readOctet_takes hy).trans (readOctet_takes hz))

theorem readGroups_takes (slots index : Nat) (cs : List Char) :
    Takes cs (readGroups index slots cs).2.2 := by
  induction slots generalizing index cs with
  | zero => exact .refl cs
  | succ slots ih =>
    have hsep {body : List Char} (h : readSeparator ':' index cs = some body) : Takes cs body :=
      readSeparator_takes (.inr (.inl rfl)) h
    rw [readGroups]
    simp only []
    split
    · next v4 rest hv4 =>
      split at hv4
      · obtain ⟨body, hbody, hread⟩ := Option.bind_eq_some_iff.mp hv4
        exact (hsep hbody).trans (readIpv4Addr_takes hread)
      · cases hv4
    · split
      · next g rest hg =>
        obtain ⟨body, hbody, hread⟩ := Option.bind_eq_some_iff.mp hg
        exact ((hsep hbody).trans (readNumber_takes (.inr rfl) hread)).trans (ih (index + 1) rest)
      · exact .refl cs

theorem readGroups_next {slots index : Nat} (hindex : 0 < index)
    (h : (readGroups index slots cs).1 ≠ []) : ':' ∈ cs := by
  cases slots with
  | zero => exact absurd rfl h
  | succ slots =>
    have hsep {body : List Char} (h : readSeparator ':' index cs = some body) : ':' ∈ cs := by
      rw [readSeparator, if_pos hindex] at h
      rw [readGivenChar_eq h]
      exact List.mem_cons_self
    rw [readGroups] at h
    simp only [] at h
    split at h
    · next v4 rest hv4 =>
      split at hv4
      · obtain ⟨body, hbody, -⟩ := Option.bind_eq_some_iff.mp hv4
        exact hsep hbody
      · cases hv4
    · split at h
      · next g rest hg =>
        obtain ⟨body, hbody, -⟩ := Option.bind_eq_some_iff.mp hg
        exact hsep hbody
      · exact absurd rfl h

theorem readGroups_colon {slots : Nat} (h : 2 < (readGroups 0 slots cs).1.length) : ':' ∈ cs := by
  cases slots with
  | zero => cases h
  | succ slots =>
    rw [readGroups] at h
    simp only [] at h
    split at h
    · exact absurd h (by simp)
    · split at h
      · next g rest hg =>
        obtain ⟨body, hbody, hread⟩ := Option.bind_eq_some_iff.mp hg
        have hne : (readGroups 1 slots rest).1 ≠ [] := by
          intro hnil
          rw [hnil] at h
          cases h
          contradiction
        obtain ⟨taken, htaken, -⟩ := readNumber_takes (.inr rfl) hread
        have hcs : cs = body := Option.some.inj hbody
        rw [hcs, htaken]
        exact List.mem_append_right _ (readGroups_next Nat.one_pos hne)
      · cases h

theorem readIpv6Addr_takes {a : Ipv6Addr} (h : readIpv6Addr cs = some (a, rest)) :
    Takes cs rest := by
  have hcolon : AddrLetter ':' := .inr (.inl rfl)
  have hhead := readGroups_takes 8 0 cs
  unfold readIpv6Addr at h
  simp only [] at h
  split at h
  · cases h
    exact hhead
  · split at h
    · cases h
    · simp only [Option.bind_eq_bind, Option.bind_eq_some_iff, Option.pure_def,
        Option.some.injEq, Prod.mk.injEq] at h
      obtain ⟨c1, h1, c2, h2, -, rfl⟩ := h
      rw [readGivenChar_eq h2] at h1
      rw [readGivenChar_eq h1] at hhead
      exact hhead.trans (((readGroups_takes _ _ c2).cons hcolon).cons hcolon)

theorem readIpv6Addr_mem_colon {a : Ipv6Addr} (h : readIpv6Addr cs = some (a, rest)) :
    ':' ∈ cs := by
  have hhead := readGroups_takes 8 0 cs
  unfold readIpv6Addr at h
  simp only [] at h
  split at h
  · next hlen => exact readGroups_colon (by rw [hlen]; decide)
  · split at h
    · cases h
    · simp only [Option.bind_eq_bind, Option.bind_eq_some_iff] at h
      obtain ⟨c1, h1, -⟩ := h
      rw [readGivenChar_eq h1] at hhead
      obtain ⟨taken, htaken, -⟩ := hhead
      rw [htaken]
      exact List.mem_append_right _ List.mem_cons_self

theorem IpAddr.addrLetter_of_parse {ip : IpAddr} (h : IpAddr.parse cs = some ip) :
    ∀ c ∈ cs, AddrLetter c := by
  unfold IpAddr.parse at h
  split at h
  · next a rest hread =>
    split at h
    · next hrest =>
      rw [hrest] at hread
      exact (readIpv4Addr_takes hread).all
    · cases h
  · split at h
    · next a rest hread =>
      split at h
      · next hrest =>
        rw [hrest] at hread
        exact (readIpv6Addr_takes hread).all
      · cases h
    · cases h

end Detour.Rust
