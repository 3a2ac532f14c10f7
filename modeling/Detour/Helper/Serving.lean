import Detour.Helper.QueryLog
import Detour.Helper.Transports
import Detour.Lib.Spawn

/-! `Proxy::serve`: every query that comes in over UDP or TCP has a task of its own. -/

namespace Detour.Helper

open Atomic Detour.Core Detour.Rust ExpiringTable

/-! ### The code -/

inductive Arrival
  | udp (peer : SocketAddr) (datagram : Bytes)
  | tcp (peer : SocketAddr) (stream : Bytes)

inductive Written
  | datagram (peer : SocketAddr) (bytes : Bytes)
  | stream (peer : SocketAddr) (bytes : Bytes)
  | nothing

variable (codec : Codec) (texts : Texts)

/-- The task of a datagram, of which what the buffer holds is read. -/
def Proxy.serveUdp (x : Proxy) (peer : SocketAddr) (datagram : Bytes) : LogM Written := do
  let query := datagram.take MAX_UDP
  let response ← x.handleLogged codec texts query
  return .datagram peer (truncateIfNeeded codec response query)

/-- The task of a connection: DNS over TCP frames each message with its length. -/
def Proxy.serveTcp (x : Proxy) (peer : SocketAddr) (stream : Bytes) : LogM Written :=
  match unframe stream with
  | none => return .nothing
  | some query => do
    let response ← x.handleLogged codec texts query
    return .stream peer (frame response)

def Proxy.serve (x : Proxy) : Arrival → LogM Written
  | .udp peer datagram => x.serveUdp codec texts peer datagram
  | .tcp peer stream => x.serveTcp codec texts peer stream

def listening (cache : Cache) (now : Nat) : Server Arrival LogOp LogOp.Ret Written (Logging Nat) :=
  Server.start ⟨⟨cache, now, []⟩, [], .zero, []⟩

/-! ### What is sent -/

variable (providers : List Provider)

/-- What was sent is the reply to what arrived: to the same peer, over the same transport. -/
def Served (x : Proxy) (i : Nat) : Arrival → Written → Logging Nat → Prop
  | .udp peer datagram, .datagram peer' bytes, s => peer' = peer ∧ ∃ response,
    bytes = truncateIfNeeded codec response (datagram.take MAX_UDP) ∧
      Logged codec texts providers x i (datagram.take MAX_UDP) response s
  | .tcp peer stream, .stream peer' bytes, s => peer' = peer ∧ ∃ query response,
    unframe stream = some query ∧ bytes = frame response ∧
      Logged codec texts providers x i query response s
  | .tcp _ stream, .nothing, _ => unframe stream = none
  | _, _, _ => False

variable {codec texts providers} {x : Proxy} {i : Nat} {s t : Logging Nat}
  {arrival : Arrival} {queryBytes reply : Bytes} {build : Client → Except ReqwestError Unit}
  {capacity now : Nat} {cache : Cache}
  {y : Server Arrival LogOp LogOp.Ret Written (Logging Nat)}

theorem serve_assures (hd : x.resolver.upstreams.map Upstream.provider = providers)
    (hs : At codec providers i [] s.service) (h : LogAt i False none s) (arrival : Arrival) :
    (x.serve codec texts arrival).Assures (logging i) (LogRelies codec providers i)
      (LogGuarantees codec providers i) (Served codec texts providers x i arrival) s := by
  cases arrival with
  | udp peer datagram =>
    apply Prog.assures_bind (handleLogged_assures hd hs h)
    intro response t ht t' hr
    exact ⟨rfl, response, rfl, ht.relies hr⟩
  | tcp peer stream =>
    rw [Proxy.serve, Proxy.serveTcp]
    cases hquery : unframe stream with
    | none => exact fun t _ => hquery
    | some query =>
      apply Prog.assures_bind (handleLogged_assures hd hs h)
      intro response t ht t' hr
      exact ⟨rfl, query, response, hquery, rfl, ht.relies hr⟩

theorem listening_assured
    (hnew : DohResolver.withCapacity build providers capacity = .ok (x.resolver, cache)) :
    (listening cache now).Assured (x.serve codec texts) logging (LogRelies codec providers)
      (LogGuarantees codec providers) (Served codec texts providers x) := by
  obtain ⟨hd, rfl⟩ := withCapacity_upstreams hnew
  apply Server.assured_start
  intro i arrival
  apply serve_assures hd ⟨sound_new, rfl⟩
  exact ⟨iff_of_false List.not_mem_nil id,
    fun e => iff_of_false List.not_mem_nil (Option.some_ne_none e).symm, logKept_new⟩

theorem counted_step {ι : Type} {i j : ι} {o : LogOp} {s t : Logging ι} {r : o.Ret}
    (he : logging j o s r t) (hi : i ∈ t.total.who) : i ∈ s.total.who ∨ i = j := by
  cases o with
  | proxy o =>
    cases o with
    | resolver o =>
      obtain ⟨service, -, rfl⟩ := he
      exact .inl hi
    | forward query =>
      obtain rfl : t = s := he
      exact .inl hi
  | instant | clock =>
    obtain rfl : t = s := he
    exact .inl hi
  | append e =>
    obtain rfl := he
    exact .inl hi
  | recent limit | total | cacheLen =>
    obtain ⟨-, rfl⟩ := he
    exact .inl hi
  | count =>
    obtain rfl := he
    exact (List.mem_append.mp hi).imp_right List.mem_singleton.mp

theorem counted_received
    (hr : Server.Runs (x.serve codec texts) logging LogElapses (listening cache now) y)
    (hi : i ∈ y.state.total.who) : i < y.received.length := by
  have hstart : (listening cache now).Owned fun j s => j ∈ s.total.who :=
    Server.owned_start fun _ => List.not_mem_nil
  apply (hstart.runs ?_ (fun _ _ _ _ _ _ he hj => counted_step he hj) hr).marked i hi
  rintro j s t ⟨service, -, rfl⟩ hj
  exact hj

/-- Whatever arrives and whichever way the tasks interleave, each of them sends one reply at most,
to its own peer, over its own transport and to its own query; and nothing but the queries that
arrived is counted or logged. -/
theorem serve_exact
    (hnew : DohResolver.withCapacity build providers capacity = .ok (x.resolver, cache))
    (hr : Server.Runs (x.serve codec texts) logging LogElapses (listening cache now) y) :
    (y.sent.map Prod.fst).Nodup ∧
      (∀ i w, (i, w) ∈ y.sent → ∃ arrival, y.received[i]? = some arrival ∧
        Served codec texts providers x i arrival w y.state) ∧
      LogKept y.state ∧ ∀ i ∈ y.state.total.who, i < y.received.length := by
  have hstart : (listening cache now).Assured (x.serve codec texts) logging
      (LogRelies codec providers) (LogGuarantees codec providers)
      (Served codec texts providers x) := listening_assured hnew
  have hend := hstart.runs relies_of_elapses relies_of_guarantees hr
  refine ⟨hend.once, fun i w hw => hend.response hw, ?_, fun i hi => counted_received hr hi⟩
  apply hstart.invariant relies_of_elapses relies_of_guarantees (fun _ _ _ hg => hg.1.kept) ?_ hr
    logKept_new
  rintro s t ⟨service, -, rfl⟩ hs
  exact hs.service

def localClient : SocketAddr := ⟨.v4 (.new 127 0 0 1), 40000⟩

def plainArrival : Arrival := .udp localClient plainQueryBytes

def reached : Server Arrival LogOp LogOp.Ret Written (Logging Nat) :=
  ((listening (Cache.new 1) 0).receive (localProxy.serve plainCodec plainTexts)
    plainArrival).receive (localProxy.serve plainCodec plainTexts) plainArrival

theorem plain_served (i : Nat) : ∃ (waiting : LogM Written) (w : Written),
    (∀ s, Prog.Visits (logging i) (localProxy.serve plainCodec plainTexts plainArrival) s
      waiting s) ∧
    ∀ s, Prog.Visits (logging i) waiting s (.done w) (s.logged i) := by
  have htake : plainQueryBytes.take MAX_UDP = plainQueryBytes := by
    apply List.take_of_length_le
    decide +kernel
  rw [plainArrival, Proxy.serve, Proxy.serveUdp, htake]
  obtain ⟨waiting, hbegin, hend⟩ := plain_handleLogged i
  exact ⟨_, _, fun s => (hbegin s).within _, fun s => (hend s).bind .refl⟩

/-- The first datagram waits while the second one is answered. -/
theorem serve_example :
    ∃ (y : Server Arrival LogOp LogOp.Ret Written (Logging Nat)) (w w' : Written),
      y.sent = [(1, w), (0, w')] ∧ y.received = [plainArrival, plainArrival] ∧
        Served plainCodec plainTexts [plainProvider] localProxy 0 plainArrival w' y.state ∧
        Served plainCodec plainTexts [plainProvider] localProxy 1 plainArrival w y.state := by
  obtain ⟨_, w', hbegin, hend⟩ := plain_served 0
  obtain ⟨_, w, hbegin', hend'⟩ := plain_served 1
  have hreceive : Server.Runs (localProxy.serve plainCodec plainTexts) logging LogElapses
      (listening (Cache.new 1) 0) reached :=
    .tail (.single (.receive plainArrival)) (.receive plainArrival)
  obtain ⟨y, hr, hsent, -, hreceived, -⟩ := Server.exists_sent_around
    (localProxy.serve plainCodec plainTexts) LogElapses (x := reached) (i := 0) (j := 1)
    (by decide) rfl rfl (hbegin _) ((hbegin' _).trans (hend' _)) (hend _)
  obtain ⟨-, hall, -⟩ := serve_exact plain_withCapacity (hreceive.trans hr)
  have hserved {j : Nat} {v : Written} (hv : (j, v) ∈ y.sent)
      (hj : reached.received[j]? = some plainArrival) :
      Served plainCodec plainTexts [plainProvider] localProxy j plainArrival v y.state := by
    obtain ⟨arrival, harrival, hserved⟩ := hall j v hv
    rw [hreceived, hj] at harrival
    cases harrival
    exact hserved
  refine ⟨y, w, w', hsent, hreceived, hserved ?_ rfl, hserved ?_ rfl⟩
  · rw [hsent]
    exact List.mem_cons_of_mem _ (List.mem_singleton_self _)
  · rw [hsent]
    exact List.mem_cons_self

end Detour.Helper
