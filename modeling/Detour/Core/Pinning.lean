import Detour.Core.Config
import Detour.Core.Resolver
import Detour.Rust.AddrLetters
import Mathlib

/-! The host in a provider's URL, and the one its bootstrap addresses are pinned under. -/

namespace Detour.Core

open Detour.Rust

/-! ### URLs -/

def isUnreserved (c : Char) : Bool := c.isAlphanum || ['-', '.', '_', '~'].contains c

def isSubDelim (c : Char) : Bool := "!$&'()*+,;=".toList.contains c

def isHexDigit (c : Char) : Bool := (toDigit 16 c).isSome

/-- Unreserved characters, sub-delimiters, percent-encoded bytes, and the characters in `extra`. -/
def isComponent (extra : List Char) : Text → Bool
  | [] => true
  | '%' :: a :: b :: s => isHexDigit a && isHexDigit b && isComponent extra s
  | c :: s => (isUnreserved c || isSubDelim c || extra.contains c) && isComponent extra s

inductive UrlHost
  | regName (name : Text)
  | literal (addr : Text)

def UrlHost.text : UrlHost → Text
  | .regName name => name
  | .literal addr => '[' :: (addr ++ [']'])

def UrlHost.Valid : UrlHost → Prop
  | .regName name => name ≠ [] ∧ isComponent [] name = true
  | .literal addr => ∃ a, readIpv6Addr addr = some (a, [])

def after (mark : Char) : Option Text → Text
  | none => []
  | some t => mark :: t

structure HttpsUrl where
  scheme : Text
  userinfo : Option Text
  host : UrlHost
  port : Option Text
  path : Text
  query : Option Text
  fragment : Option Text
  scheme_https : toAsciiLowercase scheme = "https".toList
  userinfo_valid : ∀ u, userinfo = some u → isComponent [':'] u = true
  host_valid : host.Valid
  port_valid : ∀ n, port = some n → ∀ c ∈ n, c.isDigit = true
  path_slash : path = [] ∨ path.head? = some '/'
  path_valid : isComponent [':', '@', '/'] path = true
  query_valid : ∀ q, query = some q → isComponent [':', '@', '/', '?'] q = true
  fragment_valid : ∀ f, fragment = some f → isComponent [':', '@', '/', '?'] f = true

namespace HttpsUrl

/-- What follows the host. -/
def tail (u : HttpsUrl) : Text :=
  after ':' u.port ++ (u.path ++ (after '?' u.query ++ after '#' u.fragment))

def authority (u : HttpsUrl) : Text :=
  match u.userinfo with
  | none => u.host.text ++ u.tail
  | some user => user ++ '@' :: (u.host.text ++ u.tail)

def text (u : HttpsUrl) : Text := u.scheme ++ ("://".toList ++ u.authority)

/-- The port that is dialled, unless there is no such port. -/
def portNumber (u : HttpsUrl) : Option UInt16 :=
  match u.port with
  | none | some [] => some 443
  | some digits =>
    let n := digits.foldl (fun n c => n * 10 + (c.toNat - 48)) 0
    if n < 65536 then some n.toUInt16 else none

def Plain (u : HttpsUrl) : Prop :=
  match u.userinfo with
  | none => (∃ name, u.host = .regName name) ∧
    (u.port ≠ none ∨ u.path ≠ [] ∨ (u.query = none ∧ u.fragment = none))
  | some user => ':' ∈ user ∧
    toAsciiLowercase (user.takeWhile (· ≠ ':')) = toAsciiLowercase u.host.text

end HttpsUrl

/-! ### Characters -/

variable {extra s t : Text} {c : Char}

theorem notMem_component (h : isComponent extra s = true)
    (hc : isUnreserved c = false ∧ isSubDelim c = false ∧ isHexDigit c = false ∧ c ≠ '%')
    (hextra : c ∉ extra) : c ∉ s := by
  obtain ⟨hunreserved, hdelim, hhex, hpercent⟩ := hc
  induction s using isComponent.induct with
  | case1 => exact List.not_mem_nil
  | case2 a b s ih =>
    simp only [isComponent, Bool.and_eq_true] at h
    obtain ⟨⟨ha, hb⟩, hs⟩ := h
    simp only [List.mem_cons, not_or]
    refine ⟨hpercent, ?_, ?_, ih hs⟩
    · rintro rfl
      rw [ha] at hhex
      cases hhex
    · rintro rfl
      rw [hb] at hhex
      cases hhex
  | case3 d s hne ih =>
    rw [isComponent] at h
    · simp only [Bool.and_eq_true, Bool.or_eq_true] at h
      obtain ⟨hd, hs⟩ := h
      rw [List.mem_cons, not_or]
      refine ⟨?_, ih hs⟩
      rintro rfl
      simp [hunreserved, hdelim, hextra] at hd
    · exact hne

theorem lower_eq_mark {d : Char} (hd : d = ':' ∨ d = '@') (h : c.toLower = d) : c = d := by
  rw [Char.toLower] at h
  split at h
  · next hupper =>
    obtain ⟨hge, hle⟩ := hupper
    have hval : c.val.toNat + 32 = d.val.toNat := by
      have hsum := congrArg (fun c => c.val.toNat) h
      have hle' : c.val.toNat ≤ 90 := hle
      simp only [UInt32.toNat_add] at hsum
      change (c.val.toNat + 32) % 4294967296 = d.val.toNat at hsum
      omega
    have hge' : 65 ≤ c.val.toNat := hge
    rcases hd with rfl | rfl
    · change c.val.toNat + 32 = 58 at hval
      omega
    · change c.val.toNat + 32 = 64 at hval
      omega
  · exact h

theorem mem_of_lower_eq {d : Char} (hd : d = ':' ∨ d = '@')
    (h : toAsciiLowercase s = toAsciiLowercase t) (ht : d ∈ t) : d ∈ s := by
  have hlower : d.toLower = d := by rcases hd with rfl | rfl <;> decide
  have hmem : d ∈ toAsciiLowercase s := by
    rw [h, toAsciiLowercase, ← hlower]
    exact List.mem_map_of_mem ht
  obtain ⟨c, hc, hcd⟩ := List.mem_map.mp hmem
  rwa [← lower_eq_mark hd hcd]

theorem toAsciiLowercase_append_eq_self :
    toAsciiLowercase (s ++ t) = toAsciiLowercase s ↔ t = [] := by
  constructor
  · intro h
    have hlen := congrArg List.length h
    simp only [toAsciiLowercase, List.length_map, List.length_append] at hlen
    exact List.length_eq_zero_iff.mp (by omega)
  · rintro rfl
    rw [List.append_nil]

/-! ### What comes before the first mark -/

def upToMark (rest : Text) : Text := rest.takeWhile fun c => c ≠ '/' ∧ c ≠ ':'

theorem upToMark_append (h : ∀ c ∈ s, c ≠ '/' ∧ c ≠ ':') : upToMark (s ++ t) = s ++ upToMark t :=
  List.takeWhile_append_of_pos fun c hc => decide_eq_true (h c hc)

theorem upToMark_mark (hc : c = '/' ∨ c = ':') : upToMark (c :: s) = [] := by
  rw [upToMark, List.takeWhile_cons_of_neg]
  rcases hc with rfl | rfl <;> decide

theorem upToMark_cons (hc : c ≠ '/' ∧ c ≠ ':') : upToMark (c :: s) = c :: upToMark s :=
  List.takeWhile_cons_of_pos (by simpa using hc)

theorem colon_notMem_upToMark (s : Text) : ':' ∉ upToMark s := by
  intro h
  have hkept : decide (':' ≠ '/' ∧ ':' ≠ ':') = true :=
    List.mem_takeWhile_imp (p := fun c => decide (c ≠ '/' ∧ c ≠ ':')) h
  exact (of_decide_eq_true hkept).2 rfl

theorem upToMark_user (hslash : '/' ∉ s) (hcolon : ':' ∈ s) :
    upToMark (s ++ t) = s.takeWhile (· ≠ ':') := by
  induction s with
  | nil => cases hcolon
  | cons c s ih =>
    rw [List.mem_cons, not_or] at hslash
    by_cases hc : c = ':'
    · subst hc
      rw [List.cons_append, upToMark_mark (.inr rfl), List.takeWhile_cons_of_neg (by decide)]
    · have hkept : c ≠ '/' ∧ c ≠ ':' := ⟨Ne.symm hslash.1, hc⟩
      rw [List.cons_append, upToMark_cons hkept, List.takeWhile_cons_of_pos (by simpa using hc)]
      congr 1
      apply ih hslash.2
      rcases List.mem_cons.mp hcolon with h | h
      · exact absurd h.symm hc
      · exact h

theorem HttpsUrl.upToMark_tail (u : HttpsUrl) : upToMark u.tail = [] ↔
    u.port ≠ none ∨ u.path ≠ [] ∨ (u.query = none ∧ u.fragment = none) := by
  have hslash := u.path_slash
  rw [HttpsUrl.tail]
  cases u.port with
  | some port => simp [after, upToMark_mark]
  | none =>
    cases hpath : u.path with
    | cons c path =>
      rw [hpath] at hslash
      obtain rfl : c = '/' := by simpa using hslash
      simp [after, upToMark_mark]
    | nil =>
      cases u.query with
      | some query =>
        have hmark : '?' ≠ '/' ∧ '?' ≠ ':' := by decide
        simp [after, upToMark_cons hmark]
      | none =>
        cases u.fragment with
        | some fragment =>
          have hmark : '#' ≠ '/' ∧ '#' ≠ ':' := by decide
          simp [after, upToMark_cons hmark]
        | none => simp [after, upToMark]

/-! ### The host -/

theorem UrlHost.at_notMem {h : UrlHost} (hv : h.Valid) : '@' ∉ h.text := by
  cases h with
  | regName name => exact notMem_component hv.2 (by decide) (by decide)
  | literal addr =>
    obtain ⟨a, ha⟩ := hv
    have hletters := (readIpv6Addr_takes ha).all
    simp only [UrlHost.text, List.mem_cons, List.mem_append, List.not_mem_nil, or_false, not_or]
    refine ⟨by decide, fun h => ?_, by decide⟩
    have hletter := hletters '@' h
    unfold AddrLetter at hletter
    exact absurd hletter (by decide)

theorem Provider.host_url {p : Provider} {u : HttpsUrl} (hurl : p.url = u.text)
    (h : p.host ≠ none) : p.host = some (upToMark u.authority) := by
  have hlit : "https://".toList = "https".toList ++ "://".toList := by decide
  have hpre : ("https".toList ++ "://".toList).isPrefixOf p.url = true := by
    by_contra hnot
    apply h
    rw [Provider.host, stripPrefix, hlit, if_neg hnot]
    rfl
  have hlen : u.scheme.length = "https".toList.length := by
    rw [← u.scheme_https, toAsciiLowercase, List.length_map]
  have hscheme : u.scheme = "https".toList := by
    have hboth := List.isPrefixOf_iff_prefix.mp hpre
    rw [hurl, HttpsUrl.text] at hboth
    have hfirst := (List.prefix_append _ _).trans hboth
    have hle := List.prefix_of_prefix_length_le hfirst (List.prefix_append _ _) hlen.ge
    exact (hle.eq_of_length hlen.symm).symm
  rw [Provider.host, stripPrefix, hlit, if_pos hpre, hurl, HttpsUrl.text, hscheme,
    ← List.append_assoc, List.drop_left]
  rfl

theorem HttpsUrl.host_iff (u : HttpsUrl) :
    toAsciiLowercase (upToMark u.authority) = toAsciiLowercase u.host.text ↔ u.Plain := by
  have hvalid := u.host_valid
  have hat := UrlHost.at_notMem hvalid
  rw [HttpsUrl.authority, HttpsUrl.Plain]
  cases huser : u.userinfo with
  | some user =>
    have huser := u.userinfo_valid user huser
    have hslash : '/' ∉ user := notMem_component huser (by decide) (by decide)
    simp only []
    by_cases hcolon : ':' ∈ user
    · rw [upToMark_user hslash hcolon, and_iff_right hcolon]
    · refine ⟨fun h => ?_, fun h => absurd h.1 hcolon⟩
      have hkept : ∀ c ∈ user ++ ['@'], c ≠ '/' ∧ c ≠ ':' := by
        intro c hc
        rcases List.mem_append.mp hc with hc | hc
        · exact ⟨ne_of_mem_of_not_mem hc hslash, ne_of_mem_of_not_mem hc hcolon⟩
        · rw [List.mem_singleton.mp hc]
          decide
      have hmem : '@' ∈ upToMark (user ++ '@' :: (u.host.text ++ u.tail)) := by
        rw [List.append_cons, upToMark_append hkept]
        simp
      exact absurd (mem_of_lower_eq (.inr rfl) h.symm hmem) hat
  | none =>
    simp only []
    cases hhost : u.host with
    | regName name =>
      rw [hhost] at hvalid
      have hslash : '/' ∉ name := notMem_component hvalid.2 (by decide) (by decide)
      have hcolon : ':' ∉ name := notMem_component hvalid.2 (by decide) (by decide)
      have hkept : ∀ c ∈ name, c ≠ '/' ∧ c ≠ ':' := fun c hc =>
        ⟨ne_of_mem_of_not_mem hc hslash, ne_of_mem_of_not_mem hc hcolon⟩
      rw [UrlHost.text, upToMark_append hkept, toAsciiLowercase_append_eq_self, u.upToMark_tail]
      exact ⟨fun h => ⟨⟨name, rfl⟩, h⟩, fun h => h.2⟩
    | literal addr =>
      rw [hhost] at hvalid
      obtain ⟨a, ha⟩ := hvalid
      have hcolon : ':' ∈ (UrlHost.literal addr).text :=
        List.mem_cons_of_mem _ (List.mem_append_left _ (readIpv6Addr_mem_colon ha))
      constructor
      · intro h
        exact absurd (mem_of_lower_eq (.inl rfl) h hcolon) (colon_notMem_upToMark _)
      · rintro ⟨⟨name, hname⟩, -⟩
        cases hname

/-! ### What is dialled -/

theorem forM_eq_ok {f : α → Except ε Unit} {xs : List α} (h : xs.forM f = .ok ()) :
    ∀ x ∈ xs, f x = .ok () := by
  induction xs with
  | nil => exact List.forall_mem_nil _
  | cons x xs ih =>
    change (f x >>= fun _ => xs.forM f) = .ok () at h
    cases hx : f x with
    | error e =>
      rw [hx] at h
      cases h
    | ok _ =>
      rw [hx] at h
      exact List.forall_mem_cons.mpr ⟨hx, ih h⟩

theorem Config.provider_of_validate {c : Config} {p : Provider} (h : c.validate = .ok ())
    (hp : p ∈ c.providers) : p.host ≠ none ∧ p.bootstrap ≠ [] := by
  unfold Config.validate at h
  split at h
  · cases h
  · cases hall : c.providers.forM Provider.validate with
    | error e =>
      rw [hall] at h
      cases h
    | ok _ =>
      have hvalid := forM_eq_ok hall p hp
      unfold Provider.validate at hvalid
      split at hvalid
      · cases hvalid
      · split at hvalid
        · cases hvalid
        · next hhost =>
          split at hvalid
          · cases hvalid
          · next hbootstrap => exact ⟨hhost, hbootstrap⟩

/-! ### The HTTP client -/

inductive ParsedHost
  | domain (name : Text)
  | ip (addr : IpAddr)

inductive Dialled
  | addrs (addrs : List SocketAddr)
  /-- The system resolver is asked. -/
  | lookup (name : Text)
  | nowhere

/-- `reqwest`, which is not part of the program. -/
structure Reqwest where
  parseHost : Text → Option ParsedHost
  dial : Client → HttpsUrl → Dialled

structure Reqwest.Documented (W : Reqwest) : Prop where
  refused : ∀ c u, W.parseHost u.host.text = none ∨ u.portNumber = none → W.dial c u = .nowhere
  /-- An address is dialled as it is, whatever has been pinned. -/
  literal : ∀ c u ip port, W.parseHost u.host.text = some (.ip ip) → u.portNumber = some port →
    W.dial c u = .addrs [⟨ip, port⟩]
  /-- `resolve_to_addrs`; the port is the one of the URL. -/
  pinned : ∀ u host addrs name port, W.parseHost u.host.text = some (.domain name) →
    u.portNumber = some port → toAsciiLowercase name = toAsciiLowercase host →
    W.dial ⟨some (host, addrs)⟩ u = .addrs (addrs.map fun a => ⟨a.ip, port⟩)
  unpinned : ∀ u host addrs name port, W.parseHost u.host.text = some (.domain name) →
    u.portNumber = some port → toAsciiLowercase name ≠ toAsciiLowercase host →
    W.dial ⟨some (host, addrs)⟩ u = .lookup name

/-- The port is one, and the host is taken for a name just as it is written, or for an address that
is the only one of the provider. -/
def HttpsUrl.Taken (parseHost : Text → Option ParsedHost) (bootstrap : List IpAddr)
    (u : HttpsUrl) : Prop :=
  u.portNumber ≠ none ∧ match parseHost u.host.text with
    | some (.domain name) => toAsciiLowercase name = toAsciiLowercase u.host.text
    | some (.ip ip) => ∀ b ∈ bootstrap, b = ip
    | none => False

def Provider.Dials (p : Provider) (u : HttpsUrl) : Dialled → Prop
  | .addrs addrs => ∃ port, u.portNumber = some port ∧
    ∀ a, a ∈ addrs ↔ a.port = port ∧ a.ip ∈ p.bootstrap
  | .lookup _ | .nowhere => False

/-- The host is the one in the URL, and every resolver of these providers connects to it at the
bootstrap addresses. -/
structure Provider.Pinned (W : Reqwest) (c : Config) (p : Provider) (u : HttpsUrl) : Prop where
  host : ∃ h, p.host = some h ∧ h ≠ [] ∧ toAsciiLowercase h = toAsciiLowercase u.host.text
  dialled : ∀ build capacity d cache,
    DohResolver.withCapacity build c.providers capacity = .ok (d, cache) →
    ∀ up ∈ d.upstreams, up.provider = p → p.Dials u (W.dial up.client u)

variable {W : Reqwest} {c : Config} {p : Provider} {u : HttpsUrl} {h : Text}

theorem Provider.dials_iff (hW : W.Documented) (hbootstrap : p.bootstrap ≠ [])
    (hlower : toAsciiLowercase h = toAsciiLowercase u.host.text) :
    p.Dials u (W.dial ⟨some (h, p.bootstrapAddrs)⟩ u) ↔ u.Taken W.parseHost p.bootstrap := by
  rw [HttpsUrl.Taken]
  cases hport : u.portNumber with
  | none =>
    rw [hW.refused _ _ (.inr hport)]
    exact iff_of_false id fun h => h.1 rfl
  | some port =>
    rw [and_iff_right (Option.some_ne_none port)]
    cases hparse : W.parseHost u.host.text with
    | none =>
      rw [hW.refused _ _ (.inl hparse)]
      exact Iff.rfl
    | some parsed =>
      cases parsed with
      | ip ip =>
        rw [hW.literal _ _ ip port hparse hport]
        constructor
        · rintro ⟨port', hport', hall⟩ b hb
          have hmem := (hall ⟨b, port'⟩).mpr ⟨rfl, hb⟩
          exact congrArg SocketAddr.ip (List.mem_singleton.mp hmem)
        · intro hall
          refine ⟨port, hport, fun a => ?_⟩
          rw [List.mem_singleton]
          constructor
          · rintro rfl
            obtain ⟨b, hb⟩ := List.exists_mem_of_ne_nil _ hbootstrap
            exact ⟨rfl, hall b hb ▸ hb⟩
          · rintro ⟨rfl, ha⟩
            rw [← hall a.ip ha]
      | domain name =>
        by_cases hname : toAsciiLowercase name = toAsciiLowercase h
        · rw [hW.pinned u h _ name port hparse hport hname]
          refine iff_of_true ⟨port, hport, fun a => ?_⟩ (hname.trans hlower)
          simp only [bootstrapAddrs, List.map_map, List.mem_map, Function.comp_apply]
          constructor
          · rintro ⟨ip, hip, rfl⟩
            exact ⟨rfl, hip⟩
          · rintro ⟨rfl, hip⟩
            exact ⟨a.ip, hip, rfl⟩
        · rw [hW.unpinned u h _ name port hparse hport hname]
          exact iff_of_false id fun heq => hname (heq.trans hlower.symm)

theorem mapM_pinned_ok {providers : List Provider} (hall : ∀ q ∈ providers, q.host ≠ none) :
    ∃ us, providers.mapM (Provider.pinned fun _ => .ok ()) = .ok us ∧
      us.map Upstream.provider = providers := by
  induction providers with
  | nil => exact ⟨[], rfl, rfl⟩
  | cons q providers ih =>
    obtain ⟨hq, hrest⟩ := List.forall_mem_cons.mp hall
    obtain ⟨host, hhost⟩ := Option.ne_none_iff_exists'.mp hq
    obtain ⟨us, hus, hmap⟩ := ih hrest
    have hpinned : ∃ client, q.pinned (fun _ => .ok ()) = .ok ⟨q, client⟩ := by
      rw [Provider.pinned, hhost]
      exact ⟨_, rfl⟩
    obtain ⟨client, hpinned⟩ := hpinned
    refine ⟨⟨q, client⟩ :: us, ?_, congrArg (q :: ·) hmap⟩
    rw [List.mapM_cons, hpinned, hus]
    rfl

theorem Config.exists_upstream (hc : c.validate = .ok ()) (hp : p ∈ c.providers) :
    ∃ d cache up, DohResolver.withCapacity (fun _ => .ok ()) c.providers 1 = .ok (d, cache) ∧
      up ∈ d.upstreams ∧ up.provider = p := by
  obtain ⟨us, hus, hmap⟩ :=
    mapM_pinned_ok fun q hq => (Config.provider_of_validate hc hq).1
  rw [← hmap] at hp
  obtain ⟨up, hup, hprovider⟩ := List.mem_map.mp hp
  refine ⟨⟨us⟩, Cache.new 1, up, ?_, hup, hprovider⟩
  have hne : c.providers ≠ [] := List.ne_nil_of_mem (hmap ▸ hp)
  rw [DohResolver.withCapacity, if_neg hne, hus]
  rfl

/-- The host of an accepted provider is pinned exactly if it is what comes before the first slash
or colon of the URL, and the client takes it for what it is. -/
theorem pinned_iff (W : Reqwest) (hW : W.Documented) (c : Config) (hc : c.validate = .ok ())
    (p : Provider) (hp : p ∈ c.providers) (u : HttpsUrl) (hurl : p.url = u.text) :
    p.Pinned W c u ↔ u.Plain ∧ u.Taken W.parseHost p.bootstrap := by
  obtain ⟨hhost, hbootstrap⟩ := Config.provider_of_validate hc hp
  have hbefore := Provider.host_url hurl hhost
  have hclient (build capacity d cache)
      (hd : DohResolver.withCapacity build c.providers capacity = .ok (d, cache)) (up : Upstream)
      (hup : up ∈ d.upstreams) (hprovider : up.provider = p) :
      up.client = ⟨some (upToMark u.authority, p.bootstrapAddrs)⟩ := by
    obtain ⟨hpinned, -⟩ := DohResolver.withCapacity_eq_ok hd
    have hup := pinned_upstream hpinned hup
    rw [hprovider] at hup
    obtain ⟨host, hhost, rfl⟩ := Provider.pinned_eq_ok hup
    rw [hbefore] at hhost
    have haddrs : p.bootstrapAddrs ≠ [] := mt List.map_eq_nil_iff.mp hbootstrap
    rw [← Option.some.inj hhost, if_neg haddrs]
  constructor
  · rintro ⟨⟨h, heq, -, hlower⟩, hdialled⟩
    obtain rfl : upToMark u.authority = h := Option.some.inj (hbefore.symm.trans heq)
    refine ⟨u.host_iff.mp hlower, ?_⟩
    obtain ⟨d, cache, up, hd, hup, hprovider⟩ := Config.exists_upstream hc hp
    have hdials := hdialled _ _ _ _ hd up hup hprovider
    rw [hclient _ _ _ _ hd up hup hprovider] at hdials
    exact (Provider.dials_iff hW hbootstrap hlower).mp hdials
  · rintro ⟨hplain, htaken⟩
    have hlower := u.host_iff.mpr hplain
    refine ⟨⟨_, hbefore, ?_, hlower⟩, fun build capacity d cache hd up hup hprovider => ?_⟩
    · intro hnil
      have hvalid := u.host_valid
      rw [hnil] at hlower
      have htext : u.host.text = [] := List.map_eq_nil_iff.mp hlower.symm
      cases hname : u.host with
      | regName name =>
        rw [hname] at hvalid htext
        exact hvalid.1 htext
      | literal addr =>
        rw [hname] at htext
        cases htext
    · rw [hclient build capacity d cache hd up hup hprovider]
      exact (Provider.dials_iff hW hbootstrap hlower).mpr htaken

def portUrl : HttpsUrl where
  scheme := "https".toList
  userinfo := none
  host := .regName "dns.example".toList
  port := some "8443".toList
  path := "/dns-query".toList
  query := none
  fragment := none
  scheme_https := by decide
  userinfo_valid := nofun
  host_valid := by
    refine ⟨by decide, ?_⟩
    decide +kernel
  port_valid := by
    rintro _ ⟨⟩
    exact List.all_iff_forall_prop.mp (by decide)
  path_slash := by decide
  path_valid := by decide +kernel
  query_valid := nofun
  fragment_valid := nofun

def literalUrl : HttpsUrl where
  scheme := "https".toList
  userinfo := none
  host := .literal "2620:fe::fe".toList
  port := none
  path := "/dns-query".toList
  query := none
  fragment := none
  scheme_https := by decide
  userinfo_valid := nofun
  host_valid := ⟨⟨#v[0x2620, 0xfe, 0, 0, 0, 0, 0, 0xfe]⟩, by decide +kernel⟩
  port_valid := nofun
  path_slash := by decide
  path_valid := by decide +kernel
  query_valid := nofun
  fragment_valid := nofun

def configOf (u : HttpsUrl) : Config :=
  ⟨"127.0.0.53:53".toList, [⟨"Quad9".toList, u.text, [.v4 (.new 9 9 9 9)]⟩]⟩

def plainReqwest : Reqwest where
  parseHost text := some (match IpAddr.parse text with
    | some ip => .ip ip
    | none => .domain (toAsciiLowercase text))
  dial c u := match u.portNumber, IpAddr.parse u.host.text, c.resolveToAddrs with
    | none, _, _ => .nowhere
    | some port, some ip, _ => .addrs [⟨ip, port⟩]
    | some port, none, some (host, addrs) =>
      if toAsciiLowercase (toAsciiLowercase u.host.text) = toAsciiLowercase host then
        .addrs (addrs.map fun a => ⟨a.ip, port⟩)
      else .lookup (toAsciiLowercase u.host.text)
    | some _, none, none => .lookup (toAsciiLowercase u.host.text)

theorem plainReqwest_domain {text name : Text}
    (h : plainReqwest.parseHost text = some (.domain name)) :
    IpAddr.parse text = none ∧ toAsciiLowercase text = name := by
  cases hip : IpAddr.parse text with
  | none => simpa [plainReqwest, hip] using h
  | some ip => simp [plainReqwest, hip] at h

theorem plainReqwest_documented : plainReqwest.Documented where
  refused c u h := by
    rcases h with h | h
    · cases h
    · simp only [plainReqwest, h]
  literal c u ip port hparse hport := by
    have hip : IpAddr.parse u.host.text = some ip := by
      cases htext : IpAddr.parse u.host.text with
      | none => simp [plainReqwest, htext] at hparse
      | some a => simpa [plainReqwest, htext] using hparse
    simp only [plainReqwest, hport, hip]
  pinned u host addrs name port hparse hport hname := by
    obtain ⟨hip, rfl⟩ := plainReqwest_domain hparse
    simp only [plainReqwest, hport, hip, if_pos hname]
  unpinned u host addrs name port hparse hport hname := by
    obtain ⟨hip, rfl⟩ := plainReqwest_domain hparse
    simp only [plainReqwest, hport, hip, if_neg hname]

theorem portUrl_pinned : Provider.Pinned plainReqwest (configOf portUrl)
    ⟨"Quad9".toList, portUrl.text, [.v4 (.new 9 9 9 9)]⟩ portUrl := by
  have hvalid : (configOf portUrl).validate = .ok () := by decide +kernel
  have htaken : portUrl.Taken plainReqwest.parseHost [.v4 (.new 9 9 9 9)] := by
    have hhost : plainReqwest.parseHost portUrl.host.text =
        some (.domain "dns.example".toList) := by
      have hip : IpAddr.parse portUrl.host.text = none := by decide +kernel
      simp only [plainReqwest, hip]
      rfl
    refine ⟨by decide, ?_⟩
    rw [hhost]
    rfl
  apply (pinned_iff plainReqwest plainReqwest_documented _ hvalid _ (List.mem_singleton_self _)
    portUrl rfl).mpr
  exact ⟨⟨⟨_, rfl⟩, .inl nofun⟩, htaken⟩

/-- Of an IPv6 literal only what comes before its first colon is taken. -/
theorem literal_unpinned : ¬∀ (c : Config) (p : Provider) (u : HttpsUrl), c.validate = .ok () →
    p ∈ c.providers → p.url = u.text →
    ∃ h, p.host = some h ∧ h ≠ [] ∧ toAsciiLowercase h = toAsciiLowercase u.host.text := by
  intro hall
  have hvalid : (configOf literalUrl).validate = .ok () := by decide +kernel
  obtain ⟨h, hhost, -, hlower⟩ :=
    hall (configOf literalUrl) _ literalUrl hvalid (List.mem_singleton_self _) rfl
  have hcut : Provider.host ⟨"Quad9".toList, literalUrl.text, [.v4 (.new 9 9 9 9)]⟩ =
      some "[2620".toList := by decide +kernel
  rw [hcut] at hhost
  rw [← Option.some.inj hhost] at hlower
  exact absurd hlower (by decide +kernel)

end Detour.Core
