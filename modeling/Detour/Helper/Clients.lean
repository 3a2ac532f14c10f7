import Detour.Helper.Listen
import Detour.Helper.Phases
import Detour.ResolvConf.Runs

/-! Whether what clients send to the address in `resolv.conf` reaches the proxy. -/

namespace Detour.Helper

open Atomic Detour.Core Detour.Rust Detour.ResolvConf

/-! ### The host -/

inductive Transport
  | udp
  | tcp
  deriving DecidableEq

def linkLocal : IpAddr → Bool
  | .v4 _ => false
  | .v6 a => a.firstSegment &&& 0xffc0 == 0xfe80

/-- What the host's network makes of sockets and of what its programs send. -/
structure Host where
  /-- The address of a socket once it is bound, if it can be. -/
  bind : Transport → ScopedAddr → Option ScopedAddr
  /-- What is sent to an address gets to the socket. -/
  reaches : Transport → ScopedAddr → SocketAddr → Prop
  /-- Multicast addresses, and the broadcast addresses of the host's networks. -/
  group : IpAddr → Prop

structure Host.Documented (H : Host) : Prop where
  bind_ip : ∀ t a s, H.bind t a = some s → s.ip = a.ip
  bind_port : ∀ t a s, H.bind t a = some s → a.port ≠ 0 → s.port = a.port
  /-- Ports that are handed out are not among the privileged ones. -/
  ephemeral : ∀ t a s, H.bind t a = some s → a.port = 0 → s.port ≠ 53
  port : ∀ t s d, H.reaches t s d → s.port = d.port
  /-- A bound socket gets what is sent to its own address. -/
  own : ∀ t a s, H.bind t a = some s → ¬ H.group s.ip → linkLocal s.ip = false →
    H.reaches t s s.toSocketAddr
  /-- There are no connections to a group. -/
  group : ∀ s d, H.group d.ip → ¬ H.reaches .tcp s d
  /-- Nothing is sent to a link-local address without its scope. -/
  linkLocal : ∀ t s d, linkLocal d.ip = true → ¬ H.reaches t s d

def serveBinds (addr : ScopedAddr) : List (Transport × ScopedAddr) := [(.udp, addr), (.tcp, addr)]

/-! ### The takeover -/

variable {m : ResolvManager} {pid : Pid} {now : UInt64} {ip : IpAddr} {env : ResolvConf.Env}

variable {fs fs' : Fs} {state : TakeoverState}

theorem takeOver_resolv (h : (ExceptT.run (m.takeOver pid now ip)).run (handler env) fs =
    (.ok state, fs')) : fs'.resolv = some (.file (m.takeoverBody ip).toByteArray) := by
  let Q : Except Stop TakeoverState → Fs → Prop := fun r t =>
    r.isOk = true → t.resolv = some (.file (m.takeoverBody ip).toByteArray)
  have hQ : ∀ e t, Q (.error e) t := fun e t h => nomatch h
  have hkeeps : (ExceptT.run (m.takeOver pid now ip)).Keeps
      (fun o s r t => handler env o s = (r, t)) (fun _ => True) Q fs := by
    unfold ResolvManager.takeOver ResolvManager.redirect
    refine Fallible.keeps_last hQ fun _ t => Fallible.keeps_last hQ fun _ t =>
      Fallible.keeps_last hQ fun _ t => Fallible.keeps_last hQ fun _ t =>
      Fallible.keeps_last hQ fun _ t => Fallible.keeps_last hQ fun _ t =>
      Fallible.keeps_last hQ fun _ t => Fallible.keeps_last hQ fun _ t =>
      Fallible.keeps_last hQ fun _ t => Fallible.keeps_last hQ fun _ t => ?_
    refine Fallible.keeps_bind (S := fun _ t => t.resolv =
      some (.file (m.takeoverBody ip).toByteArray)) ?_ fun _ t _ ht => ⟨trivial, fun _ => ht⟩
    refine Fallible.keeps_sys_bind trivial fun r t' he => ?_
    cases he
    exact ⟨trivial, rfl⟩
  have hrun := hkeeps.run
  rw [h] at hrun
  exact hrun rfl

/-! ### The run -/

variable {σ : Type} {E : Atomic.Env RunOp RunOp.Ret σ} {cfg : RunConfig} {s t : σ}

theorem takesOver_listen
    {k : Except Stop TakeoverState → Prog RunOp RunOp.Ret (Except RunStop Unit)}
    (hv : Prog.Visits E (run cfg).run s (.op (.takeOver ip) k) t) :
    ∃ listen, cfg.listen = some listen ∧ listen.ip = ip := by
  let H : Setup := ⟨ResolvManager.default, fun _ => none, cfg, true⟩
  have hrun : (run H.cfg).run.Follows (runProtocol H) AnyEnd .before := run_follows
  obtain ⟨y, hy⟩ := hrun.visits hv
  exact hy.1.2

/-- Clients that follow the file of the takeover reach the proxy exactly when the address it
listens at is one that they can name there. -/
theorem clients_reach_iff {H : Host} (hH : H.Documented) {config : Config}
    (hvalid : config.validate = .ok ())
    (hcfg : cfg.listen = (parseSocketAddr config.listen).map ScopedAddr.toSocketAddr)
    {k : Except Stop TakeoverState → Prog RunOp RunOp.Ret (Except RunStop Unit)}
    (hrun : Prog.Visits E (run cfg).run s (.op (.takeOver ip) k) t)
    (htake : (ExceptT.run (ResolvManager.default.takeOver pid now ip)).run (handler env) fs =
      (.ok state, fs')) :
    ∃ listen, parseSocketAddr config.listen = some listen ∧
      ∀ sockets : Transport → ScopedAddr,
        (∀ bound ∈ serveBinds listen, H.bind bound.1 bound.2 = some (sockets bound.1)) →
        ∃ text, fs'.readText env.links = .ok text ∧
          ((∀ server ∈ toSocketAddrs (listed text), ∀ t, H.reaches t (sockets t) server) ↔
            listen.port = 53 ∧ ¬ H.group listen.ip ∧ linkLocal listen.ip = false) := by
  obtain ⟨listen, hlisten⟩ := config.listen_of_validate hvalid
  obtain ⟨addr, haddr, rfl⟩ := takesOver_listen hrun
  rw [hcfg, hlisten] at haddr
  cases haddr
  have hresolv := takeOver_resolv htake
  refine ⟨listen, hlisten, fun sockets hbind =>
    ⟨ResolvManager.default.takeoverBody listen.ip, ?_, ?_⟩⟩
  · rw [readText_eq_ok, Fs.contents, hresolv]
    rfl
  · rw [listed_takeoverBody]
    have hboth : ∀ t, H.bind t listen = some (sockets t) := by
      intro t
      cases t with
      | udp => exact hbind (.udp, listen) (by simp [serveBinds])
      | tcp => exact hbind (.tcp, listen) (by simp [serveBinds])
    have hip : ∀ t, (sockets t).ip = listen.ip := fun t => hH.bind_ip t listen _ (hboth t)
    simp only [toSocketAddrs, List.map_singleton, List.forall_mem_singleton]
    constructor
    · intro hall
      refine ⟨?_, fun hgroup => hH.group (sockets .tcp) ⟨listen.ip, 53⟩ hgroup (hall .tcp), ?_⟩
      · have hport := hH.port _ _ _ (hall .udp)
        by_cases hzero : listen.port = 0
        · exact absurd hport (hH.ephemeral .udp listen _ (hboth .udp) hzero)
        · rw [← hH.bind_port .udp listen _ (hboth .udp) hzero, hport]
      · cases hlocal : linkLocal listen.ip with
        | false => rfl
        | true => exact absurd (hall .udp) (hH.linkLocal _ _ _ hlocal)
    · rintro ⟨hport, hgroup, hlocal⟩ t
      have hzero : listen.port ≠ 0 := by
        rw [hport]
        decide
      have hown := hH.own t listen _ (hboth t) (by rwa [hip t]) (by rwa [hip t])
      have haddr : (sockets t).toSocketAddr = ⟨listen.ip, 53⟩ := by
        rw [← hip t, ← hport, ← hH.bind_port t listen _ (hboth t) hzero]
      rwa [haddr] at hown

/-! ### A host -/

def multicast : IpAddr → Bool
  | .v4 a => a.firstOctet >>> 4 == 14 || a == Ipv4Addr.new 255 255 255 255
  | .v6 a => a.firstSegment >>> 8 == 0xff

def loopbackHost : Host where
  bind _ a := some (if a.port = 0 then { a with port := 40000 } else a)
  reaches _ s d := s.port = d.port ∧ s.ip = d.ip ∧ linkLocal d.ip = false ∧
    multicast d.ip = false
  group ip := multicast ip = true

theorem loopbackHost_documented : loopbackHost.Documented where
  bind_ip := by
    rintro t a _ ⟨⟩
    split <;> rfl
  bind_port := by
    rintro t a _ ⟨⟩ hport
    rw [if_neg hport]
  ephemeral := by
    rintro t a _ ⟨⟩ hport
    rw [if_pos hport]
    exact (by decide : (40000 : UInt16) ≠ 53)
  port _ _ _ h := h.1
  own _ _ s _ hgroup hlocal := ⟨rfl, rfl, hlocal, Bool.not_eq_true _ ▸ hgroup⟩
  group _ d hgroup h := by
    have hmulticast : multicast d.ip = true := hgroup
    rw [h.2.2.2] at hmulticast
    cases hmulticast
  linkLocal _ _ _ hlocal h := by
    rw [h.2.2.1] at hlocal
    cases hlocal

def cfgAt (port : UInt16) : RunConfig where
  pid := pid1000
  listenText := ""
  listen := some ⟨proxyAddr, port⟩
  noTakeover := false
  profile := none
  forcedDomains := []

def silent : Atomic.Env RunOp RunOp.Ret Unit := fun _ _ _ s' => s' = ()

theorem cfgAt_visits (port : UInt16) : ∃ k, Prog.Visits silent
    (run (cfgAt port)).run () (.op (.takeOver proxyAddr) k) () := by
  apply Exists.intro
  refine .step (r := .ok none) rfl ?_
  refine .step (r := .ok []) rfl ?_
  refine .step (r := .ok []) rfl ?_
  refine .step (r := ()) rfl ?_
  refine .step (r := ()) rfl ?_
  refine .step (r := none) rfl ?_
  exact .refl

def idle : ResolvConf.Env := ⟨⟨fun _ => none, fun _ => false⟩, fun _ => none⟩

theorem parse_default : parseSocketAddr "127.0.0.53:53".toList = some ⟨⟨proxyAddr, 53⟩, 0⟩ := by
  decide +kernel

theorem parse_5353 : parseSocketAddr "127.0.0.53:5353".toList =
    some ⟨⟨proxyAddr, 5353⟩, 0⟩ := by
  decide +kernel

/-- The takeover for port 5353 goes through, and nobody asks there. -/
theorem port_5353_unreached : ∃ (config : Config) (cfg : RunConfig) (listen : ScopedAddr)
    (state : TakeoverState) (fs fs' : Fs) (text : String), loopbackHost.Documented ∧
    config.validate = .ok () ∧ parseSocketAddr config.listen = some listen ∧
    cfg.listen = some listen.toSocketAddr ∧
    (∃ k, Prog.Visits silent (run cfg).run () (.op (.takeOver listen.ip) k) ()) ∧
    (∀ bound ∈ serveBinds listen, loopbackHost.bind bound.1 bound.2 = some listen) ∧
    (ExceptT.run (ResolvManager.default.takeOver pid1000 0 listen.ip)).run (handler idle) fs =
      (.ok state, fs') ∧
    fs'.readText idle.links = .ok text ∧
    ∃ server ∈ toSocketAddrs (listed text), ∀ t, ¬ loopbackHost.reaches t listen server := by
  refine ⟨listeningAt "127.0.0.53:5353", cfgAt 5353, _, _, _, _,
    ResolvManager.default.takeoverBody proxyAddr, loopbackHost_documented,
    listeningAt_valid parse_5353, parse_5353, rfl, cfgAt_visits 5353, ?_, plain_takeOver _, ?_, ?_⟩
  · simp [serveBinds, loopbackHost]
  · exact readText_eq_ok.mpr rfl
  · rw [listed_takeoverBody]
    refine ⟨⟨proxyAddr, 53⟩, List.mem_singleton_self _, fun t h => ?_⟩
    exact absurd h.1 (by decide)

theorem default_reached :
    ∃ listen, parseSocketAddr (listeningAt "127.0.0.53:53").listen = some listen ∧
      ∀ sockets : Transport → ScopedAddr,
        (∀ bound ∈ serveBinds listen, loopbackHost.bind bound.1 bound.2 = some (sockets bound.1)) →
        ∃ text, (plain.fs.takenOver ResolvManager.default pid1000 0 proxyAddr plain.text).readText
            idle.links = .ok text ∧
          ((∀ server ∈ toSocketAddrs (listed text), ∀ t,
              loopbackHost.reaches t (sockets t) server) ↔
            listen.port = 53 ∧ ¬ loopbackHost.group listen.ip ∧
              linkLocal listen.ip = false) := by
  obtain ⟨k, hrun⟩ := cfgAt_visits 53
  exact clients_reach_iff loopbackHost_documented (listeningAt_valid parse_default)
    (by rw [listeningAt, parse_default]; rfl) hrun (plain_takeOver idle.procs)

end Detour.Helper
