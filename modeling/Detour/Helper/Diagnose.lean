import Detour.Rust.AddrBits

/-! `dns-helper diagnose`: what the verdict on a domain is, and what it means. -/

namespace Detour.Helper

open Detour.Rust

inductive Conclusion
  | healthy
  | dnsInterference
  | blockedBeyondDns
  | resolutionFailed
  | divergentButHealthy
  | contentRestrictionForced
  deriving DecidableEq

def sameSet (a b : List IpAddr) : Bool :=
  dedup (sortBy IpAddr.rank a) == dedup (sortBy IpAddr.rank b)

def conclude (isp doh reachable : List IpAddr) : Conclusion :=
  if isp.isEmpty && doh.isEmpty then .resolutionFailed
  else if reachable.isEmpty then .blockedBeyondDns
  else
    let ispWorks := isp.any fun ip => reachable.contains ip
    let dohWorks := doh.any fun ip => reachable.contains ip
    match ispWorks, dohWorks with
    -- The ISP's answers are useless and DoH's are not: interference.
    | false, true => .dnsInterference
    | true, true => if sameSet isp doh then .healthy else .divergentButHealthy
    -- DoH failed but the ISP works; nothing for this tool to fix.
    | true, false => .healthy
    | false, false => .blockedBeyondDns

/-! ### Meanings -/

def Works (addrs reachable : List IpAddr) : Prop := ∃ ip ∈ addrs, ip ∈ reachable

/-- What each verdict is documented to mean.  The last one is not drawn from the lists. -/
def Means (isp doh reachable : List IpAddr) : Conclusion → Prop
  | .healthy => (∀ ip, ip ∈ isp ↔ ip ∈ doh) ∧ isp ≠ [] ∧ Works isp reachable
  | .dnsInterference => (isp = [] ∨ ∀ ip ∈ isp, ip ∉ reachable) ∧ Works doh reachable
  | .blockedBeyondDns => isp ≠ [] ∧ doh ≠ [] ∧ ∀ ip ∈ isp ++ doh, ip ∉ reachable
  | .resolutionFailed => isp = [] ∧ doh = []
  | .divergentButHealthy => ¬(∀ ip, ip ∈ isp ↔ ip ∈ doh) ∧ Works isp reachable ∧ Works doh reachable
  | .contentRestrictionForced => False

variable {isp doh reachable : List IpAddr}

theorem sameSet_iff : sameSet isp doh = true ↔ ∀ ip, ip ∈ isp ↔ ip ∈ doh := by
  rw [sameSet, beq_iff_eq]
  exact dedup_sortBy_inj fun _ _ => IpAddr.rank_inj

theorem any_contains_iff {addrs : List IpAddr} :
    (addrs.any fun ip => reachable.contains ip) = true ↔ Works addrs reachable := by
  simp [Works]

theorem any_contains_eq_false {addrs : List IpAddr} :
    (addrs.any fun ip => reachable.contains ip) = false ↔ ¬Works addrs reachable := by
  rw [← any_contains_iff, Bool.not_eq_true]

theorem conclude_unreachable (h : ¬(isp = [] ∧ doh = [])) :
    conclude isp doh [] = .blockedBeyondDns := by
  have hany : (isp.isEmpty && doh.isEmpty) = false := by simpa using h
  simp [conclude, hany]

theorem conclude_reachable (h : ¬(isp = [] ∧ doh = [])) (hr : reachable ≠ []) :
    conclude isp doh reachable =
      match isp.any fun ip => reachable.contains ip, doh.any fun ip => reachable.contains ip with
      | false, true => .dnsInterference
      | true, true => if sameSet isp doh then .healthy else .divergentButHealthy
      | true, false => .healthy
      | false, false => .blockedBeyondDns := by
  have hany : (isp.isEmpty && doh.isEmpty) = false := by simpa using h
  have hempty : reachable.isEmpty = false := by simpa using hr
  simp [conclude, hany, hempty]

theorem Works.ne_nil {addrs : List IpAddr} (h : Works addrs reachable) : addrs ≠ [] := by
  obtain ⟨ip, hip, -⟩ := h
  exact List.ne_nil_of_mem hip

/-- A verdict means what it is documented to mean exactly when the provider's addresses connect
where the system's do, and no resolver failed alone where nothing connects. -/
theorem conclude_means_iff (isp doh reachable : List IpAddr)
    (hunion : ∀ ip ∈ reachable, ip ∈ isp ∨ ip ∈ doh) :
    Means isp doh reachable (conclude isp doh reachable) ↔
      (Works isp reachable → Works doh reachable) ∧
        (reachable = [] → (isp = [] ↔ doh = [])) := by
  by_cases hboth : isp = [] ∧ doh = []
  · obtain ⟨rfl, rfl⟩ := hboth
    exact ⟨fun _ => ⟨id, fun _ => Iff.rfl⟩, fun _ => ⟨rfl, rfl⟩⟩
  by_cases hr : reachable = []
  · subst hr
    rw [conclude_unreachable hboth]
    constructor
    · rintro ⟨hisp, hdoh, -⟩
      exact ⟨fun ⟨_, _, h⟩ => absurd h List.not_mem_nil, fun _ => ⟨fun h => absurd h hisp,
        fun h => absurd h hdoh⟩⟩
    · rintro ⟨-, hiff⟩
      have hiff := hiff rfl
      exact ⟨fun h => hboth ⟨h, hiff.mp h⟩, fun h => hboth ⟨hiff.mpr h, h⟩,
        fun _ _ => List.not_mem_nil⟩
  rw [conclude_reachable hboth hr]
  by_cases hisp : Works isp reachable
  · rw [any_contains_iff.mpr hisp]
    by_cases hdoh : Works doh reachable
    · rw [any_contains_iff.mpr hdoh]
      refine ⟨fun _ => ⟨fun _ => hdoh, fun h => absurd h hr⟩, fun _ => ?_⟩
      by_cases hsame : sameSet isp doh = true
      · simp only [hsame, if_true]
        exact ⟨sameSet_iff.mp hsame, hisp.ne_nil, hisp⟩
      · simp only [hsame]
        exact ⟨fun h => hsame (sameSet_iff.mpr h), hisp, hdoh⟩
    · rw [any_contains_eq_false.mpr hdoh]
      -- the lists would have the address that connects in common
      refine ⟨fun ⟨hsame, _⟩ => ?_, fun ⟨h, _⟩ => absurd (h hisp) hdoh⟩
      obtain ⟨ip, hip, hreach⟩ := hisp
      exact absurd ⟨ip, (hsame ip).mp hip, hreach⟩ hdoh
  · rw [any_contains_eq_false.mpr hisp]
    have hdoh : Works doh reachable := by
      obtain ⟨ip, hip⟩ := List.exists_mem_of_ne_nil reachable hr
      rcases hunion ip hip with h | h
      · exact absurd ⟨ip, h, hip⟩ hisp
      · exact ⟨ip, h, hip⟩
    rw [any_contains_iff.mpr hdoh]
    exact ⟨fun _ => ⟨fun h => absurd h hisp, fun h => absurd h hr⟩,
      fun _ => ⟨.inr fun ip hip hreach => hisp ⟨ip, hip, hreach⟩, hdoh⟩⟩

def localAnswer : IpAddr := .v4 (.new 192 168 1 10)

def publicAnswer : IpAddr := .v4 (.new 1 2 3 4)

/-- Different addresses that both connect. -/
theorem divergent_means : Means [localAnswer] [publicAnswer] [localAnswer, publicAnswer]
    (conclude [localAnswer] [publicAnswer] [localAnswer, publicAnswer]) := by
  apply (conclude_means_iff _ _ _ (by decide)).mpr
  exact ⟨fun _ => ⟨publicAnswer, by decide, by decide⟩, nofun⟩

/-- Where DoH fails alone, `Healthy` does not mean that both agree. -/
theorem one_sided_healthy : ¬∀ isp doh reachable : List IpAddr,
    (∀ ip ∈ reachable, ip ∈ isp ∨ ip ∈ doh) →
    Means isp doh reachable (conclude isp doh reachable) := by
  intro hall
  have hmeans := hall [publicAnswer] [] [publicAnswer] (by decide)
  have hconclude : conclude [publicAnswer] [] [publicAnswer] = .healthy := by decide
  rw [hconclude] at hmeans
  exact absurd ((hmeans.1 publicAnswer).mp (List.mem_singleton_self _)) List.not_mem_nil

end Detour.Helper
