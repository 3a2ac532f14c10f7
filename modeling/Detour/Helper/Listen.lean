import Detour.Core.Config
import Detour.ResolvConf.Manager
import Detour.Rust.AddrText
import Detour.Upstream.Forward

/-! The address the proxy listens at, and what `resolv.conf` lists. -/

namespace Detour.Helper

open Atomic Detour.Core Detour.Rust Detour.ResolvConf Detour.Upstream

def toSocketAddrs (servers : List IpAddr) : List SocketAddr := servers.map fun ip => ⟨ip, 53⟩

def forwarderOf (original : List IpAddr) : Forwarder := ⟨toSocketAddrs original⟩

/-! ### What a line lists -/

def nameserverOf (line : List Char) : Option IpAddr :=
  if (trim line).head? ≠ some '#' ∧ (trim line).head? ≠ some ';' then
    (stripPrefix "nameserver".toList (trim line)).bind fun rest =>
      (firstWord (trim rest)).bind fun addr => IpAddr.parse ((split '%' addr).headD addr)
  else none

def listed (text : String) : List IpAddr := (lines text.toList).filterMap nameserverOf

theorem parseNameservers_eq (text : String) :
    parseNameservers text = (listed text).filter fun ip => !isOurProxy ip := by
  unfold parseNameservers listed
  congr 1
  induction lines text.toList with
  | nil => rfl
  | cons line ls ih =>
    rw [List.filterMap_cons, ← ih, List.map_cons]
    unfold nameserverOf
    by_cases hcomment : (trim line).head? ≠ some '#' ∧ (trim line).head? ≠ some ';'
    · have hkept : ((trim line).head? != some '#' && (trim line).head? != some ';') = true := by
        simpa using hcomment
      simp only [if_pos hcomment, List.filter_cons, hkept, if_true, List.filterMap_cons]
      cases hrest : stripPrefix "nameserver".toList (trim line) with
      | none => rfl
      | some rest =>
        simp only [List.filterMap_cons, Option.bind_some]
        cases hword : firstWord (trim rest) with
        | none => rfl
        | some addr => rfl
    · have hdropped : ¬((trim line).head? != some '#' && (trim line).head? != some ';') = true := by
        simpa using hcomment
      simp only [if_neg hcomment, List.filter_cons, hdropped, if_false, Bool.false_eq_true]

def proxyIp : IpAddr := .v4 (Ipv4Addr.new 127 0 0 53)

theorem display_injective {a b : IpAddr} (h : a.display = b.display) : a = b := by
  have hread := a.parse_display
  rw [h, b.parse_display] at hread
  exact (Option.some.inj hread).symm

theorem isOurProxy_iff {ip : IpAddr} : isOurProxy ip = true ↔ ip = proxyIp := by
  have hproxy : proxyIp.display = PROXY_ADDR := by decide
  rw [isOurProxy, beq_iff_eq, ← hproxy]
  exact ⟨display_injective, fun h => h ▸ rfl⟩

theorem mem_parseNameservers {ip : IpAddr} {text : String} :
    ip ∈ parseNameservers text ↔ ip ∈ listed text ∧ ip ≠ proxyIp := by
  rw [parseNameservers_eq, List.mem_filter, Bool.not_eq_true', ← Bool.not_eq_true, isOurProxy_iff]

/-! ### What the proxy forwards to -/

theorem currentNameservers_run {σ : Type} (m : ResolvManager) {h : Handler SysOp SysOp.Ret σ}
    {s : σ} {text : String} (htext : (h .readResolv s).1 = .ok text) :
    ((ExceptT.run m.currentNameservers).run h s).1 = .ok (parseNameservers text) := by
  have hrun : ((ExceptT.run m.currentNameservers).run h s).1 =
      ((ExceptT.run (do
        return parseNameservers (← orIoErr m.resolvPath (h .readResolv s).1) :
          FsM (List IpAddr))).run h (h .readResolv s).2).1 := rfl
  rw [hrun, htext]
  rfl

/-! ### Where packets go -/

def canonical : IpAddr → IpAddr
  | .v4 a => .v4 a
  | .v6 a => match a.toIpv4Mapped with
    | some b => .v4 b
    | none => .v6 a

def LOCALHOST_V4 : IpAddr := .v4 (Ipv4Addr.new 127 0 0 1)

def LOCALHOST_V6 : IpAddr := .v6 ⟨#v[0, 0, 0, 0, 0, 0, 0, 1]⟩

/-- What is sent to an unspecified address goes to the host itself. -/
def routedTo (ip : IpAddr) : IpAddr :=
  if canonical ip = UNSPECIFIED_V4 then LOCALHOST_V4
  else if canonical ip = UNSPECIFIED_V6 then LOCALHOST_V6
  else canonical ip

/-- A socket that is bound to `bound` gets what is sent to `dest`. -/
def Accepts (bound dest : IpAddr) : Prop :=
  -- a socket for any IPv6 address takes IPv4 as well
  if bound = UNSPECIFIED_V6 then True
  else if canonical bound = UNSPECIFIED_V4 then ∃ a, dest = .v4 a
  else canonical bound = dest

/-- What is sent to the server comes in at the socket. `here` are the addresses at which the host
takes what its own programs send, no interface being named. -/
structure LoopsBack (here : IpAddr → Prop) (listen : ScopedAddr) (server : SocketAddr) : Prop where
  port : server.port = listen.port
  here : here (routedTo server.ip)
  accepted : Accepts listen.ip (routedTo server.ip)

theorem accepts_iff {bound dest : IpAddr} : Accepts bound dest ↔
    bound = UNSPECIFIED_V6 ∨ (canonical bound = UNSPECIFIED_V4 ∧ ∃ a, dest = .v4 a) ∨
      canonical bound = dest := by
  rw [Accepts]
  split
  next hany => exact iff_of_true trivial (.inl hany)
  next hany =>
    rw [or_iff_right hany]
    split
    next hfour =>
      rw [and_iff_right hfour]
      refine ⟨.inl, fun h => h.elim id fun hdest => ⟨_, hdest.symm.trans hfour⟩⟩
    next hfour => rw [or_iff_right fun h => hfour h.1]

/-- A nameserver that is not the listen address and, if it is on this host at all, not another way
to write it: which is any IPv4 address for a proxy at 0.0.0.0, and any address for one at [::]. -/
structure Elsewhere (here : IpAddr → Prop) (listen : ScopedAddr) (ip : IpAddr) : Prop where
  other : ip = listen.ip → listen.scope ≠ 0
  spelling : here (routedTo ip) → routedTo ip ≠ canonical listen.ip
  four : here (routedTo ip) → canonical listen.ip = UNSPECIFIED_V4 → ∀ a, routedTo ip ≠ .v4 a
  any : here (routedTo ip) → listen.ip ≠ UNSPECIFIED_V6

theorem elsewhere_iff {here : IpAddr → Prop} {listen : ScopedAddr} {ip : IpAddr} :
    Elsewhere here listen ip ↔ (ip = listen.ip → listen.scope ≠ 0) ∧
      (here (routedTo ip) → ¬Accepts listen.ip (routedTo ip)) := by
  constructor
  · rintro ⟨hother, hspelling, hfour, hany⟩
    refine ⟨hother, fun hhere haccepts => ?_⟩
    rcases accepts_iff.mp haccepts with h | ⟨h, a, ha⟩ | h
    · exact hany hhere h
    · exact hfour hhere h a ha
    · exact hspelling hhere h.symm
  · rintro ⟨hother, haway⟩
    refine ⟨hother, fun hhere h => ?_, fun hhere h a ha => ?_, fun hhere h => ?_⟩
    · exact haway hhere (accepts_iff.mpr (.inr (.inr h.symm)))
    · exact haway hhere (accepts_iff.mpr (.inr (.inl ⟨h, a, ha⟩)))
    · exact haway hhere (accepts_iff.mpr (.inl h))

/-- The proxy forwards to itself exactly when it listens at port 53 and the text lists, other than
as 127.0.0.53, an address that is its own or whose packets come in at it. -/
theorem forwards_elsewhere_iff (here : IpAddr → Prop) {config : Config}
    (hvalid : config.validate = .ok ()) :
    ∃ listen, parseSocketAddr config.listen = some listen ∧
      ∀ (σ : Type) (h : Handler SysOp SysOp.Ret σ) (s : σ) (m : ResolvManager) (text : String),
        (h .readResolv s).1 = .ok text →
        ∃ original, ((ExceptT.run m.currentNameservers).run h s).1 = .ok original ∧
          ((∀ server ∈ (forwarderOf original).servers,
              server.unscoped ≠ listen ∧ ¬LoopsBack here listen server) ↔
            listen.port ≠ 53 ∨ ∀ ip ∈ listed text, ip = proxyIp ∨ Elsewhere here listen ip) := by
  obtain ⟨listen, hlisten⟩ := config.listen_of_validate hvalid
  refine ⟨listen, hlisten, fun σ h s m text htext =>
    ⟨_, currentNameservers_run m htext, ?_⟩⟩
  constructor
  · intro hall
    by_cases hport : listen.port = 53
    · refine .inr fun ip hip => or_iff_not_imp_left.mpr fun hproxy => ?_
      obtain ⟨hne, haway⟩ := hall ⟨ip, 53⟩
        (List.mem_map.mpr ⟨ip, mem_parseNameservers.mpr ⟨hip, hproxy⟩, rfl⟩)
      rw [elsewhere_iff]
      constructor
      · rintro rfl hscope
        apply hne
        obtain ⟨⟨ip, port⟩, scope⟩ := listen
        obtain rfl : port = 53 := hport
        obtain rfl : scope = 0 := hscope
        rfl
      · exact fun hhere haccepts => haway ⟨hport.symm, hhere, haccepts⟩
    · exact .inl hport
  · intro hcond server hserver
    obtain ⟨ip, hmem, rfl⟩ := List.mem_map.mp hserver
    obtain ⟨hlisted, hproxy⟩ := mem_parseNameservers.mp hmem
    rcases hcond with hport | hall
    · refine ⟨?_, fun hloop => hport hloop.port.symm⟩
      rintro rfl
      exact hport rfl
    · obtain ⟨hother, haway⟩ := elsewhere_iff.mp ((hall ip hlisted).resolve_left hproxy)
      refine ⟨?_, fun hloop => haway hloop.here hloop.accepted⟩
      rintro rfl
      exact hother rfl rfl

/-! ### What the takeover lists -/

theorem nameserverOf_display (ip : IpAddr) :
    nameserverOf ("nameserver ".toList ++ ip.display.toList) = some ip := by
  have hplain := fun c hc => (ip.addrChar_display c hc).plain
  have hne : ip.display.toList ≠ [] := by
    intro hnil
    have hparse := ip.parse_display
    rw [hnil] at hparse
    cases hparse
  have hparse := ip.parse_display
  generalize ip.display.toList = text at *
  obtain ⟨init, d, rfl⟩ : ∃ init d, text = init ++ [d] :=
    ⟨_, _, (List.dropLast_concat_getLast hne).symm⟩
  have htrim : trim ("nameserver ".toList ++ (init ++ [d])) =
      "nameserver ".toList ++ (init ++ [d]) := by
    rw [← List.append_assoc]
    exact trim_cons_concat (c := 'n') (s := "ameserver ".toList ++ init) (by decide)
      (hplain d (List.mem_append_right init (List.mem_singleton_self d))).1
  have hrest : stripPrefix "nameserver".toList ("nameserver ".toList ++ (init ++ [d])) =
      some (' ' :: (init ++ [d])) := rfl
  have hword : firstWord (trim (' ' :: (init ++ [d]))) = some (init ++ [d]) := by
    rw [trim_space (by decide), trim_of_plain fun c hc => (hplain c hc).1]
    exact firstWord_of_plain hne fun c hc => (hplain c hc).1
  have hzone : split '%' (init ++ [d]) = [init ++ [d]] :=
    split_of_notMem fun h => (hplain '%' h).2.1 rfl
  have hhead : ("nameserver ".toList ++ (init ++ [d])).head? = some 'n' := rfl
  simp only [nameserverOf, htrim, hhead, hrest, Option.bind_some, hword, hzone]
  exact hparse

def takeoverHeader : String :=
  "# Managed by Detour. The original file is backed up at\n" ++
  "# /var/lib/detour/resolv.conf.backup\n" ++
  "# and is restored automatically when DNS protection is turned off."

def takeoverOptions : String := "options edns0 trust-ad"

theorem takeoverBody_eq (ip : IpAddr) : ResolvManager.default.takeoverBody ip =
    takeoverHeader ++ "\n" ++ "nameserver " ++ ip.display ++ "\n" ++ (takeoverOptions ++ "\n") := by
  have hheader : "# Managed by Detour. The original file is backed up at\n" ++
      "# " ++ ResolvManager.default.backupPath.display ++ "\n" ++
      "# and is restored automatically when DNS protection is turned off.\n" =
      takeoverHeader ++ "\n" := by decide +kernel
  have hoptions : "options edns0 trust-ad\n" = takeoverOptions ++ "\n" := by decide +kernel
  exact congrArg₂ (fun header options =>
    header ++ "nameserver " ++ ip.display ++ "\n" ++ options) hheader hoptions

theorem nameserver_line (ip : IpAddr) :
    (split '\n' ("nameserver ".toList ++ ip.display.toList)).map stripCr =
      ["nameserver ".toList ++ ip.display.toList] := by
  have hfeed : '\n' ∉ "nameserver ".toList ++ ip.display.toList := by
    rw [List.mem_append, not_or]
    exact ⟨by decide, fun h => (ip.addrChar_display _ h).plain.2.2 rfl⟩
  have hreturn : '\r' ∉ "nameserver ".toList ++ ip.display.toList := by
    rw [List.mem_append, not_or]
    exact ⟨by decide, fun h => Bool.noConfusion (ip.addrChar_display _ h).plain.1⟩
  have hlast : ("nameserver ".toList ++ ip.display.toList).getLast? ≠ some '\r' :=
    fun h => hreturn (List.mem_of_getLast? h)
  rw [split_of_notMem hfeed, List.map_singleton, stripCr, if_neg hlast]

theorem listed_takeoverBody (ip : IpAddr) :
    listed (ResolvManager.default.takeoverBody ip) = [ip] := by
  have hheader : ((split '\n' takeoverHeader.toList).map stripCr).filterMap nameserverOf = [] := by
    have htext : takeoverHeader.toList = _ := String.toList_append.trans (congrArg₂ (· ++ ·)
      (String.toList_append.trans (congrArg₂ (· ++ ·) String.toList_ofList String.toList_ofList))
      String.toList_ofList)
    rw [htext]
    decide +kernel
  have hoptions : (lines (takeoverOptions.toList ++ ['\n'])).filterMap nameserverOf = [] := by
    have htext : takeoverOptions.toList = _ := String.toList_ofList
    rw [htext]
    decide +kernel
  have hfeed : "\n".toList = ['\n'] := String.toList_ofList
  have hbody : (ResolvManager.default.takeoverBody ip).toList = takeoverHeader.toList ++ '\n' ::
      (("nameserver ".toList ++ ip.display.toList) ++ '\n' ::
        (takeoverOptions.toList ++ ['\n'])) := by
    simp only [takeoverBody_eq, String.toList_append, hfeed, List.append_assoc,
      List.cons_append, List.nil_append]
  rw [listed, hbody, lines_append, lines_append, List.filterMap_append, List.filterMap_append,
    hheader, hoptions, nameserver_line, List.filterMap_cons, nameserverOf_display]
  rfl

/-! ### Two configurations -/

def cloudflare : Provider where
  name := "Cloudflare".toList
  url := "https://cloudflare-dns.com/dns-query".toList
  bootstrap := [.v4 (Ipv4Addr.new 1 1 1 1)]

def listeningAt (text : String) : Config := ⟨text.toList, [cloudflare]⟩

theorem listeningAt_valid {text : String} {listen : ScopedAddr}
    (h : parseSocketAddr text.toList = some listen) : (listeningAt text).validate = .ok () := by
  have hlisten : (listeningAt text).validateListen = .ok () := by
    rw [Config.validateListen, listeningAt, h]
  have hproviders : (listeningAt text).providers = [cloudflare] := rfl
  simp only [Config.validate, hproviders, hlisten, List.cons_ne_nil, if_false]
  rfl

def OnLoopback (ip : IpAddr) : Prop :=
  match ip with
  | .v4 a => a.firstOctet = 127
  | .v6 _ => ip = LOCALHOST_V6

/-- The file that a takeover for 127.0.0.54:53 writes, read back. -/
theorem own_address_forwarded : ∃ (config : Config) (listen : ScopedAddr),
    config.validate = .ok () ∧
    parseSocketAddr config.listen = some listen ∧
    ∃ server ∈ (forwarderOf (parseNameservers
      (ResolvManager.default.takeoverBody listen.ip))).servers,
      server.unscoped = listen ∧ LoopsBack OnLoopback listen server := by
  have hparse : parseSocketAddr "127.0.0.54:53".toList =
      some ⟨⟨.v4 (Ipv4Addr.new 127 0 0 54), 53⟩, 0⟩ := by decide +kernel
  have hrouted : routedTo (.v4 (Ipv4Addr.new 127 0 0 54)) = .v4 (Ipv4Addr.new 127 0 0 54) := by
    decide
  refine ⟨listeningAt "127.0.0.54:53", _, listeningAt_valid hparse, hparse,
    ⟨.v4 (Ipv4Addr.new 127 0 0 54), 53⟩, ?_, rfl, rfl, ?_, ?_⟩
  · apply List.mem_map_of_mem
    rw [mem_parseNameservers, listed_takeoverBody]
    exact ⟨List.mem_singleton_self _, by decide⟩
  · rw [hrouted]
    rfl
  · rw [hrouted, Accepts, if_neg (by decide), if_neg (by decide)]
    rfl

theorem default_forwards_elsewhere :
    ∃ listen, parseSocketAddr (listeningAt "127.0.0.53:53").listen = some listen ∧
      ∀ (σ : Type) (h : Handler SysOp SysOp.Ret σ) (s : σ) (m : ResolvManager) (text : String),
        (h .readResolv s).1 = .ok text →
        ∃ original, ((ExceptT.run m.currentNameservers).run h s).1 = .ok original ∧
          ((∀ server ∈ (forwarderOf original).servers,
              server.unscoped ≠ listen ∧ ¬LoopsBack OnLoopback listen server) ↔
            listen.port ≠ 53 ∨ ∀ ip ∈ listed text, ip = proxyIp ∨ Elsewhere OnLoopback listen ip) :=
  forwards_elsewhere_iff OnLoopback (listeningAt_valid
    (show parseSocketAddr _ = some ⟨⟨proxyIp, 53⟩, 0⟩ by decide +kernel))

end Detour.Helper
