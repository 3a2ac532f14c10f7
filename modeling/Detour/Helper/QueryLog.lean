import Detour.Core.Answers
import Detour.Helper.Proxy
import Detour.Helper.Status
import Detour.Lib.Bounded
import Detour.Lib.Tally
import Detour.Lib.Views

/-! The query log of the proxy, and what the status writer reads of it while queries come in. -/

namespace Detour.Helper

open Atomic Detour.Core Detour.Rust ExpiringTable

/-! ### The code -/

def LOG_CAPACITY : Nat := 500

structure Texts where
  name : Name → String
  recordType : RecordType → String
  code : ResponseCode → String
  /-- Nothing where a record has no data. -/
  data : Record → Option String
  /-- `{:?}` of a text that may be missing. -/
  contentType : Option Text → String

inductive LogOp
  | proxy (o : ProxyOp)
  | instant
  | count
  | append (entry : QueryLogEntry)
  | recent (limit : Nat)
  | total
  | cacheLen
  | clock

/-- The length of the cache cannot be told when its lock is poisoned. -/
abbrev LogOp.Ret : LogOp → Type
  | .proxy o => o.Ret
  | .instant | .clock => Nanos
  | .count | .append _ => Unit
  | .recent _ => List QueryLogEntry
  | .total => UInt64
  | .cacheLen => Option Nat

abbrev LogM := Prog LogOp LogOp.Ret

abbrev logOp (o : LogOp) : LogM o.Ret := Prog.perform o

variable (codec : Codec) (texts : Texts)

def A : RecordType := 1

def CNAME : RecordType := 5

def AAAA : RecordType := 28

def describeAnswers (msg : Message) : List String :=
  (msg.answers.filter fun r => r.recordType ∈ [A, AAAA, CNAME]).filterMap texts.data

structure Outcome where
  bytes : Bytes
  outcome : String
  answers : List String

def dohOutcome (id : UInt16) : Except ResolveError Message → Outcome
  | .ok response =>
    -- The cached/DoH message carries id 0; the client is matching on its own id.
    let response := { response with id := id }
    match codec.toVec response with
    | .ok bytes => ⟨bytes, texts.code response.responseCode, describeAnswers texts response⟩
    | .error _ => ⟨servfail codec id .servFail, "EncodeError", []⟩
  | .error e => ⟨servfail codec id .servFail, e.display texts.contentType, []⟩

def systemOutcome (id : UInt16) : Except String Bytes → Outcome
  | .ok bytes => ⟨bytes, "Forwarded", match codec.fromBytes bytes with
    | .ok m => describeAnswers texts m
    | .error _ => []⟩
  | .error e => ⟨servfail codec id .servFail, e, []⟩

def routeText : Route → String
  | .doh => "doh"
  | .systemUpstream => "system"

def millis (elapsed : Nanos) : UInt64 := UInt64.ofNat (elapsed / 1000000)

def logEntry (question : Query) (route : Route) (elapsed : Nanos) (o : Outcome) :
    QueryLogEntry where
  name := texts.name question.name
  recordType := texts.recordType question.queryType
  route := routeText route
  outcome := o.outcome
  elapsedMs := millis elapsed
  answers := o.answers

/-- `QueryLog::push`: the query is counted before the lock is taken. -/
def push (entry : QueryLogEntry) : LogM Unit := do
  let _ : Unit ← logOp .count
  logOp (.append entry)

def Proxy.outcome (x : Proxy) (queryBytes : Bytes) (id : UInt16) (question : Query) :
    Route → LogM Outcome
  | .doh => do
    let resolved ← (x.resolver.resolve codec question.name question.queryType).run.translate
      fun o => logOp (.proxy (.resolver o))
    return dohOutcome codec texts id resolved
  | .systemUpstream => do
    let forwarded : Except String Bytes ← logOp (.proxy (.forward queryBytes))
    return systemOutcome codec texts id forwarded

def Proxy.handleLogged (x : Proxy) (queryBytes : Bytes) : LogM Bytes := do
  let started : Nanos ← logOp .instant
  match codec.fromBytes queryBytes with
  | .error _ => return servfailFromRaw codec queryBytes
  | .ok query =>
    match query.queries.head? with
    | none => return servfail codec query.id .formErr
    | some question => do
      let route := x.policy.route question.name
      let o ← x.outcome codec texts queryBytes query.id question route
      let finished : Nanos ← logOp .instant
      push (logEntry texts question route (finished - started) o)
      return o.bytes

def readCounters (base : Snapshot) : LogM Snapshot := do
  let recent : List QueryLogEntry ← logOp (.recent LOG_SLICE)
  let total : UInt64 ← logOp .total
  let cache : Option Nat ← logOp .cacheLen
  let now : Nanos ← logOp .clock
  return { base with
    recent := recent
    queriesTotal := total.toNat
    cacheEntries := cache.getD 0
    updatedAt := now.asSecs }

/-! ### The replies -/

def unlogged : (o : LogOp) → Prog ProxyOp ProxyOp.Ret o.Ret
  | .proxy o => Prog.perform o
  | .instant | .clock => pure (0 : Nat)
  | .count | .append _ => pure ()
  | .recent _ => pure []
  | .total => pure (0 : UInt64)
  | .cacheLen => pure none

variable {codec texts}

theorem dohOutcome_bytes (id : UInt16) (r : Except ResolveError Message) :
    (dohOutcome codec texts id r).bytes = dohReply codec id r := by
  cases r with
  | error e => rfl
  | ok m =>
    simp only [dohOutcome, dohReply]
    cases codec.toVec { m with id := id } <;> rfl

/-- The log leaves the replies alone. -/
theorem handleLogged_unlogged (x : Proxy) (queryBytes : Bytes) :
    (x.handleLogged codec texts queryBytes).translate unlogged = x.handle codec queryBytes := by
  unfold Proxy.handleLogged Proxy.handle
  rw [Prog.translate_bind, Prog.translate_perform]
  change Prog.translate unlogged _ = _
  cases codec.fromBytes queryBytes with
  | error e => rfl
  | ok query =>
    simp only
    cases query.queries.head? with
    | none => rfl
    | some question =>
      simp only
      rw [Prog.translate_bind]
      cases x.policy.route question.name with
      | systemUpstream =>
        change Prog.op _ _ = Prog.op _ _
        congr 1
        funext r
        cases r <;> rfl
      | doh =>
        simp only [Proxy.outcome]
        rw [Prog.translate_bind, Prog.translate_translate, bind_assoc]
        congr 1
        funext r
        rw [← @dohOutcome_bytes codec texts]
        rfl

/-! ### Many queries -/

structure Logging (ι : Type) where
  service : Service ι
  entries : List QueryLogEntry
  total : Tally ι
  pushed : List (ι × QueryLogEntry)

variable {ι : Type}

/-- How the steps of call `i` are answered. The resolvers of the system may answer anything. -/
def logging (i : ι) : Env LogOp LogOp.Ret (Logging ι)
  | .proxy (.resolver o), s, r, t =>
    ∃ service, Service.answers i o s.service r service ∧ t = { s with service := service }
  | .proxy (.forward _), s, _, t | .instant, s, _, t | .clock, s, _, t => t = s
  | .count, s, _, t => t = { s with total := s.total.add i }
  | .append e, s, _, t => t = { s with
      entries := Bounded.push LOG_CAPACITY s.entries e
      pushed := s.pushed ++ [(i, e)] }
  | .recent limit, s, r, t => r = s.entries.reverse.take limit ∧ t = s
  | .total, s, r, t => r = s.total.value ∧ t = s
  | .cacheLen, s, r, t => (∀ n, r = some n → n = size s.service.cache.entries) ∧ t = s

def LogElapses (s t : Logging ι) : Prop :=
  ∃ service, Service.Elapses s.service service ∧ t = { s with service := service }

inductive LogCall
  | query (bytes : Bytes)
  | status (base : Snapshot)

inductive LogReply
  | reply (bytes : Bytes)
  | status (snapshot : Snapshot)

variable (codec texts) in
def LogCall.prog (x : Proxy) : LogCall → LogM LogReply
  | .query bytes => do return .reply (← x.handleLogged codec texts bytes)
  | .status base => do return .status (← readCounters base)

variable (codec texts) in
def logCalls (x : Proxy) (calls : ι → LogCall) (cache : Cache) (now : Nat) :
    Pool ι LogOp LogOp.Ret LogReply (Logging ι) :=
  Pool.start (fun i => (calls i).prog codec texts x) ⟨⟨cache, now, []⟩, [], .zero, []⟩

/-! ### What is kept -/

structure LogKept (s : Logging ι) : Prop where
  entries : s.entries = (s.pushed.map Prod.snd).rtake LOG_CAPACITY
  total : s.total.Exact
  logged : (s.pushed.map Prod.fst).Nodup
  before : ∀ x ∈ s.pushed, x.1 ∈ s.total.who

structure LogGrows (s t : Logging ι) : Prop where
  counted : s.total.who <+: t.total.who
  pushed : s.pushed <+: t.pushed
  kept : LogKept s → LogKept t

variable [DecidableEq ι] (codec texts) (providers : List Provider)

structure LogRelies (i : ι) (s t : Logging ι) : Prop extends LogGrows s t where
  service : Beside codec providers i s.service t.service
  count : i ∈ t.total.who ↔ i ∈ s.total.who
  push : ∀ e, (i, e) ∈ t.pushed ↔ (i, e) ∈ s.pushed

def LogGuarantees (j : ι) (s t : Logging ι) : Prop :=
  LogGrows s t ∧ ∀ i, i ≠ j → LogRelies codec providers i s t

structure LogAt (i : ι) (counted : Prop) (pushed : Option QueryLogEntry) (s : Logging ι) :
    Prop where
  count : i ∈ s.total.who ↔ counted
  push : ∀ e, (i, e) ∈ s.pushed ↔ pushed = some e
  kept : LogKept s

def routed (queryBytes : Bytes) : Option (UInt16 × Query) :=
  match codec.fromBytes queryBytes with
  | .ok query => query.queries.head?.map fun question => (query.id, question)
  | .error _ => none

inductive Rejected (queryBytes : Bytes) : Bytes → Prop
  | unread (e : ProtoError) : codec.fromBytes queryBytes = .error e →
    Rejected queryBytes (servfailFromRaw codec queryBytes)
  | unasked (query : Message) : codec.fromBytes queryBytes = .ok query → query.queries = [] →
    Rejected queryBytes (servfail codec query.id .formErr)

inductive Came (x : Proxy) (i : ι) (id : UInt16) (question : Query) (log : List (ι × Act)) :
    Outcome → Prop
  | doh (r : Except ResolveError Message) : x.policy.route question.name = .doh →
    Answered codec providers i question.name question.queryType log r →
    Came x i id question log (dohOutcome codec texts id r)
  | system (r : Except String Bytes) : x.policy.route question.name = .systemUpstream →
    Came x i id question log (systemOutcome codec texts id r)

/-- How a query that was replied to stands in the log. -/
inductive Logged (x : Proxy) (i : ι) (queryBytes reply : Bytes) (s : Logging ι) : Prop
  | unrouted : Rejected codec queryBytes reply → i ∉ s.total.who → (∀ e, (i, e) ∉ s.pushed) →
    Logged x i queryBytes reply s
  | routed (id : UInt16) (question : Query) (o : Outcome) (elapsed : Nanos) :
    routed codec queryBytes = some (id, question) →
    Came codec texts providers x i id question s.service.log o → reply = o.bytes →
    i ∈ s.total.who →
    (∀ e, (i, e) ∈ s.pushed ↔
      e = logEntry texts question (x.policy.route question.name) elapsed o) →
    Logged x i queryBytes reply s

/-- A snapshot of what had been logged at one time between `s` and `t`; no less had been counted. -/
def Published (base snap : Snapshot) (s t : Logging ι) : Prop :=
  ∃ (k c : Nat) (cache : Option Nat) (now : Nanos),
    s.pushed.length ≤ k ∧ k ≤ t.pushed.length ∧
      s.total.who.length ≤ c ∧ c ≤ t.total.who.length ∧ k ≤ c ∧
      snap = snapshot base ⟨(t.pushed.take k).map Prod.snd, (UInt64.ofNat c).toNat, cache⟩ now

/-! ### One step -/

variable {codec texts providers} {i j : ι} {s t u : Logging ι} {p : Prop}
  {e : Option QueryLogEntry} {x : Proxy} {queryBytes reply : Bytes} {base snap : Snapshot}

omit [DecidableEq ι] in
theorem LogGrows.refl (s : Logging ι) : LogGrows s s := ⟨List.prefix_rfl, List.prefix_rfl, id⟩

omit [DecidableEq ι] in
theorem LogGrows.trans (h : LogGrows s t) (h' : LogGrows t u) : LogGrows s u :=
  ⟨h.counted.trans h'.counted, h.pushed.trans h'.pushed, h'.kept ∘ h.kept⟩

instance logRelies_preorder : IsPreorder (Logging ι) (LogRelies codec providers i) where
  refl s := ⟨.refl s, Std.Refl.refl _, Iff.rfl, fun _ => Iff.rfl⟩
  trans _ _ _ h h' := ⟨h.toLogGrows.trans h'.toLogGrows,
    IsTrans.trans _ _ _ h.service h'.service, h'.count.trans h.count,
    fun e => (h'.push e).trans (h.push e)⟩

theorem logGuarantees_refl (s : Logging ι) : LogGuarantees codec providers j s s :=
  ⟨.refl s, fun _ _ => Std.Refl.refl _⟩

omit [DecidableEq ι] in
theorem LogKept.service {service : Service ι} (h : LogKept s) :
    LogKept { s with service := service } := ⟨h.entries, h.total, h.logged, h.before⟩

omit [DecidableEq ι] in
theorem logGrows_service {service : Service ι} : LogGrows s { s with service := service } :=
  ⟨List.prefix_rfl, List.prefix_rfl, LogKept.service⟩

theorem logGuarantees_service {service : Service ι} (h : Acts codec providers j s.service service) :
    LogGuarantees codec providers j s { s with service := service } :=
  ⟨logGrows_service, fun i hi => ⟨logGrows_service, h i hi, Iff.rfl, fun _ => Iff.rfl⟩⟩

theorem LogElapses.relies (h : LogElapses s t) : LogRelies codec providers i s t := by
  obtain ⟨service, hs, rfl⟩ := h
  exact ⟨logGrows_service, hs.beside, Iff.rfl, fun _ => Iff.rfl⟩

theorem LogAt.relies (h : LogAt i p e s) (hr : LogRelies codec providers i s t) :
    LogAt i p e t :=
  ⟨hr.count.trans h.count, fun e => (hr.push e).trans (h.push e), hr.kept h.kept⟩

omit [DecidableEq ι] in
theorem logKept_count (h : LogKept s) (hi : i ∉ s.total.who) :
    LogKept { s with total := s.total.add i } where
  entries := h.entries
  total := h.total.add hi
  logged := h.logged
  before x hx := Tally.prefix_add.subset (h.before x hx)

omit [DecidableEq ι] in
theorem logKept_append {entry : QueryLogEntry} (h : LogKept s) (hi : i ∈ s.total.who)
    (hnew : ∀ e, (i, e) ∉ s.pushed) :
    LogKept { s with
      entries := Bounded.push LOG_CAPACITY s.entries entry
      pushed := s.pushed ++ [(i, entry)] } where
  entries := by
    have hpos : 0 < LOG_CAPACITY := Nat.succ_pos 499
    rw [h.entries, Bounded.push_rtake hpos, List.map_append, List.map_singleton]
  total := h.total
  logged := by
    rw [List.map_append, List.nodup_append]
    refine ⟨h.logged, List.nodup_singleton i, ?_⟩
    intro a ha b hb
    obtain rfl : b = i := List.mem_singleton.mp hb
    rintro rfl
    obtain ⟨⟨k, e⟩, he, rfl⟩ := List.mem_map.mp ha
    exact hnew e he
  before y hy := by
    rcases List.mem_append.mp hy with hy | hy
    · exact h.before y hy
    · obtain rfl := List.mem_singleton.mp hy
      exact hi

theorem LogAt.count_step (h : LogAt i False e s) :
    LogGuarantees codec providers i s { s with total := s.total.add i } ∧
      LogAt i True e { s with total := s.total.add i } := by
  have hi : i ∉ s.total.who := fun hmem => h.count.mp hmem
  have hgrows : LogGrows s { s with total := s.total.add i } :=
    ⟨Tally.prefix_add, List.prefix_rfl, fun hk => logKept_count hk hi⟩
  refine ⟨⟨hgrows, fun j hj => ?_⟩, ?_⟩
  · exact ⟨hgrows, Std.Refl.refl _, Tally.mem_add_of_ne hj, fun _ => Iff.rfl⟩
  · exact ⟨iff_true_intro Tally.mem_add_self, h.push, logKept_count h.kept hi⟩

theorem LogAt.append_step (h : LogAt i True none s) (entry : QueryLogEntry) :
    LogGuarantees codec providers i s { s with
        entries := Bounded.push LOG_CAPACITY s.entries entry
        pushed := s.pushed ++ [(i, entry)] } ∧
      LogAt i True (some entry) { s with
        entries := Bounded.push LOG_CAPACITY s.entries entry
        pushed := s.pushed ++ [(i, entry)] } := by
  have hi : i ∈ s.total.who := h.count.mpr trivial
  have hnew (e : QueryLogEntry) : (i, e) ∉ s.pushed := fun he => nomatch (h.push e).mp he
  have hgrows : LogGrows s { s with
      entries := Bounded.push LOG_CAPACITY s.entries entry
      pushed := s.pushed ++ [(i, entry)] } :=
    ⟨List.prefix_rfl, List.prefix_append _ _, fun hk => logKept_append hk hi hnew⟩
  refine ⟨⟨hgrows, fun j hj => ⟨hgrows, Std.Refl.refl _, Iff.rfl, fun e => ?_⟩⟩, ?_⟩
  · simp [hj]
  · refine ⟨h.count, fun e => ?_, logKept_append h.kept hi hnew⟩
    simp [hnew e, eq_comm]

/-! ### One query -/

theorem LogRelies.came {id : UInt16} {question : Query} {o : Outcome}
    (hr : LogRelies codec providers i s t)
    (h : Came codec texts providers x i id question s.service.log o) :
    Came codec texts providers x i id question t.service.log o := by
  cases h with
  | doh r hroute h => exact .doh r hroute (h.later hr.service.log hr.service.own)
  | system r hroute => exact .system r hroute

theorem Logged.relies (h : Logged codec texts providers x i queryBytes reply s)
    (hr : LogRelies codec providers i s t) :
    Logged codec texts providers x i queryBytes reply t := by
  cases h with
  | unrouted hrejected hcount hpush =>
    exact .unrouted hrejected (fun hmem => hcount (hr.count.mp hmem)) fun e he =>
      hpush e ((hr.push e).mp he)
  | routed id question o elapsed hrouted hcame hreply hcount hpush =>
    exact .routed id question o elapsed hrouted (hr.came hcame) hreply (hr.count.mpr hcount)
      fun e => (hr.push e).trans (hpush e)

theorem resolving_assures {name : Name} {type : RecordType} {d : DohResolver}
    (hd : d.upstreams.map Upstream.provider = providers)
    (hs : At codec providers i [] s.service) (h : LogAt i p e s) :
    ((d.resolve codec name type).run.translate fun o => logOp (.proxy (.resolver o))).Assures
      (logging i) (LogRelies codec providers i) (LogGuarantees codec providers i)
      (fun r t => Answered codec providers i name type t.service.log r ∧ LogAt i p e t) s := by
  have hview : (d.resolve codec name type).run.Assures
      (fun o s r t => logging i (.proxy (.resolver o)) s r t) (LogRelies codec providers i)
      (LogGuarantees codec providers i)
      (fun r t => Answered codec providers i name type t.service.log r ∧ LogAt i p e t) s := by
    apply Prog.Assures.of_view (fun _ _ hr => hr.service) (fun _ _ h hr => h.relies hr) ?_ ?_
      (resolve_assures hd hs) h
    · rintro o s r t ⟨service, he, rfl⟩
      exact he
    · rintro o s r t ⟨service, he, rfl⟩ h hacts
      exact ⟨logGuarantees_service hacts, h.count, h.push, h.kept.service⟩
  apply hview.translate
  intro o s hG s' hr r t he
  exact ⟨hG s' hr r t he, fun t' ht => ⟨s', t, hr, he, ht⟩⟩

theorem outcome_assures {id : UInt16} {question : Query}
    (hd : x.resolver.upstreams.map Upstream.provider = providers)
    (hs : At codec providers i [] s.service) (h : LogAt i p e s) :
    (x.outcome codec texts queryBytes id question (x.policy.route question.name)).Assures
      (logging i) (LogRelies codec providers i) (LogGuarantees codec providers i)
      (fun o t => Came codec texts providers x i id question t.service.log o ∧ LogAt i p e t)
      s := by
  cases hroute : x.policy.route question.name with
  | doh =>
    apply Prog.assures_bind (resolving_assures hd hs h)
    intro r t ht t' hr
    exact ⟨.doh r hroute (ht.1.later hr.service.log hr.service.own), ht.2.relies hr⟩
  | systemUpstream =>
    intro s' hr r t he
    obtain rfl : t = s' := he
    exact ⟨logGuarantees_refl t, fun t' hr' => ⟨.system r hroute, (h.relies hr).relies hr'⟩⟩

theorem unrouted_assures (hrejected : Rejected codec queryBytes reply)
    (h : LogAt i False none s) :
    (pure reply : LogM Bytes).Assures (logging i) (LogRelies codec providers i)
      (LogGuarantees codec providers i)
      (fun reply t => Logged codec texts providers x i queryBytes reply t) s := by
  intro t hr
  have ht := h.relies hr
  exact .unrouted hrejected (fun hmem => ht.count.mp hmem) fun e he => nomatch (ht.push e).mp he

theorem handleLogged_assures (hd : x.resolver.upstreams.map Upstream.provider = providers)
    (hs : At codec providers i [] s.service) (h : LogAt i False none s) :
    (x.handleLogged codec texts queryBytes).Assures (logging i) (LogRelies codec providers i)
      (LogGuarantees codec providers i)
      (fun reply t => Logged codec texts providers x i queryBytes reply t) s := by
  intro s₁ hr₁ started t he
  obtain rfl : t = s₁ := he
  refine ⟨logGuarantees_refl t, ?_⟩
  have hs := hs.beside hr₁.service
  have h := h.relies hr₁
  beta_reduce
  cases hquery : codec.fromBytes queryBytes with
  | error e => exact unrouted_assures (.unread e hquery) h
  | ok query =>
    simp only
    cases hhead : query.queries.head? with
    | none => exact unrouted_assures (.unasked query hquery (List.head?_eq_none_iff.mp hhead)) h
    | some question =>
      have hrouted : routed codec queryBytes = some (query.id, question) := by
        simp only [routed, hquery, hhead, Option.map_some]
      apply Prog.assures_bind (outcome_assures hd hs h)
      intro o u hu u₁ hr₁ finished v he
      obtain rfl : v = u₁ := he
      refine ⟨logGuarantees_refl v, ?_⟩
      intro u₂ hr₂ _ v₂ he
      obtain rfl := he
      obtain ⟨hcount, hat⟩ := ((hu.2.relies hr₁).relies hr₂).count_step
      refine ⟨hcount, ?_⟩
      intro u₃ hr₃ _ v₃ he
      obtain rfl := he
      obtain ⟨happend, hat⟩ := (hat.relies hr₃).append_step
        (logEntry texts question (x.policy.route question.name) (finished - started) o)
      refine ⟨happend, ?_⟩
      intro w hr
      have hw := hat.relies hr
      have hcame := hr.came (hr₃.came (hr₂.came (hr₁.came hu.1)))
      refine .routed query.id question o (finished - started) hrouted hcame rfl
        (hw.count.mpr trivial) fun e => ?_
      rw [hw.push, Option.some.injEq, eq_comm]

/-! ### One look -/

omit [DecidableEq ι] in
theorem LogKept.recent (h : LogKept s) : s.entries.reverse.take LOG_SLICE =
    ((s.pushed.take s.pushed.length).map Prod.snd).reverse.take LOG_SLICE := by
  have hle : LOG_SLICE ≤ LOG_CAPACITY := by
    rw [LOG_SLICE, LOG_CAPACITY]
    omega
  rw [h.entries, Bounded.take_reverse_rtake hle, List.take_length]

omit [DecidableEq ι] in
theorem LogKept.length_le (h : LogKept s) : s.pushed.length ≤ s.total.who.length := by
  have hsub : s.pushed.map Prod.fst ⊆ s.total.who := by
    intro j hj
    obtain ⟨y, hy, rfl⟩ := List.mem_map.mp hj
    exact h.before y hy
  have hle := (List.subperm_of_subset h.logged hsub).length_le
  rwa [List.length_map] at hle

omit [DecidableEq ι] in
theorem LogGrows.published (hg : LogGrows t u) (h : Published base snap s t) :
    Published base snap s u := by
  obtain ⟨k, c, cache, now, hk, hk', hc, hc', hkc, rfl⟩ := h
  refine ⟨k, c, cache, now, hk, hk'.trans hg.pushed.length_le, hc,
    hc'.trans hg.counted.length_le, hkc, ?_⟩
  obtain ⟨more, hmore⟩ := hg.pushed
  rw [← hmore, List.take_append_of_le_length hk']

theorem readCounters_assures (h : LogKept s) :
    (readCounters base).Assures (logging i) (LogRelies codec providers i)
      (LogGuarantees codec providers i) (fun snap t => Published base snap s t) s := by
  intro s₁ hr₁ recent t he
  obtain ⟨hrecent, rfl⟩ := he
  refine ⟨logGuarantees_refl t, ?_⟩
  intro s₂ hr₂ total u he
  obtain ⟨htotal, rfl⟩ := he
  refine ⟨logGuarantees_refl u, ?_⟩
  intro s₃ hr₃ cache v he
  obtain ⟨-, rfl⟩ := he
  refine ⟨logGuarantees_refl v, ?_⟩
  intro s₄ hr₄ now w he
  obtain rfl : w = s₄ := he
  refine ⟨logGuarantees_refl w, ?_⟩
  have hkept := hr₁.kept h
  have hsnap : Published base { base with
      recent := recent
      queriesTotal := total.toNat
      cacheEntries := cache.getD 0
      updatedAt := now.asSecs } s u := by
    obtain ⟨more, hmore⟩ := hr₂.pushed
    refine ⟨t.pushed.length, u.total.who.length, cache, now, hr₁.pushed.length_le,
      hr₂.pushed.length_le, hr₁.counted.length_le.trans hr₂.counted.length_le, le_rfl,
      hkept.length_le.trans hr₂.counted.length_le, ?_⟩
    rw [snapshot, ← (hr₂.kept hkept).total.value, ← hmore, List.take_left, ← htotal]
    rw [hkept.recent, List.take_length] at hrecent
    rw [hrecent]
  intro w' hr
  exact hr.toLogGrows.published (hr₄.toLogGrows.published (hr₃.toLogGrows.published hsnap))

/-! ### Every run -/

def CallEnds (codec : Codec) (texts : Texts) (providers : List Provider) (x : Proxy) (i : ι)
    (s : Logging ι) : LogCall → LogReply → Logging ι → Prop
  | .query bytes, .reply reply, t => Logged codec texts providers x i bytes reply t
  | .status base, .status snap, t => Published base snap s t
  | _, _, _ => False

theorem call_assures (hd : x.resolver.upstreams.map Upstream.provider = providers)
    (hs : At codec providers i [] s.service) (h : LogAt i False none s) (call : LogCall) :
    (call.prog codec texts x).Assures (logging i) (LogRelies codec providers i)
      (LogGuarantees codec providers i) (CallEnds codec texts providers x i s call) s := by
  cases call with
  | query bytes =>
    apply Prog.assures_bind (handleLogged_assures hd hs h)
    intro reply t ht t' hr
    exact ht.relies hr
  | status base =>
    apply Prog.assures_bind (readCounters_assures h.kept)
    intro snap t ht t' hr
    exact hr.toLogGrows.published ht

variable {build : Client → Except ReqwestError Unit} {capacity now : Nat} {cache : Cache}
  {calls : ι → LogCall} {q : Pool ι LogOp LogOp.Ret LogReply (Logging ι)}

omit [DecidableEq ι] in
theorem logKept_new {service : Service ι} : LogKept ⟨service, [], .zero, []⟩ where
  entries := by rw [List.map_nil, List.rtake_nil]
  total := Tally.exact_zero
  logged := List.nodup_nil
  before _ h := absurd h List.not_mem_nil

theorem logCalls_assured
    (hnew : DohResolver.withCapacity build providers capacity = .ok (x.resolver, cache)) :
    (logCalls codec texts x calls cache now).Assured logging (LogRelies codec providers)
      (LogGuarantees codec providers) fun i =>
        CallEnds codec texts providers x i (logCalls codec texts x calls cache now).state
          (calls i) := by
  obtain ⟨hd, rfl⟩ := withCapacity_upstreams hnew
  intro i
  apply call_assures hd ⟨sound_new, rfl⟩
  exact ⟨iff_of_false List.not_mem_nil id,
    fun e => iff_of_false List.not_mem_nil (Option.some_ne_none e).symm, logKept_new⟩

theorem relies_of_guarantees (i j : ι) (s t : Logging ι) (hij : i ≠ j)
    (hg : LogGuarantees codec providers j s t) : LogRelies codec providers i s t := hg.2 i hij

theorem relies_of_elapses (i : ι) (s t : Logging ι) (h : LogElapses s t) :
    LogRelies codec providers i s t := h.relies

theorem logKept_runs
    (hnew : DohResolver.withCapacity build providers capacity = .ok (x.resolver, cache))
    (hr : Pool.Runs logging LogElapses (logCalls codec texts x calls cache now) q) :
    LogKept q.state := by
  have hstart : (logCalls codec texts x calls cache now).Assured logging
      (LogRelies codec providers) (LogGuarantees codec providers) fun i =>
        CallEnds codec texts providers x i (logCalls codec texts x calls cache now).state
          (calls i) := logCalls_assured hnew
  apply hstart.invariant relies_of_elapses relies_of_guarantees (fun _ _ _ hg => hg.1.kept) ?_ hr
    logKept_new
  rintro s t ⟨service, -, rfl⟩ hs
  exact hs.service

def localProxy : Proxy := ⟨⟨[plainUpstream]⟩, ⟨false, [], []⟩⟩

def plainTexts : Texts where
  name _ := "example.com."
  recordType _ := "A"
  code _ := "NoError"
  data _ := some "93.184.216.34"
  contentType _ := "None"

def forwardedEntry : QueryLogEntry :=
  logEntry plainTexts (Query.query plainName 1) .systemUpstream 12000000
    (systemOutcome plainCodec plainTexts 0 (.ok plainResponseBytes))

def Logging.logged (s : Logging ι) (i : ι) : Logging ι :=
  { s with
    entries := Bounded.push LOG_CAPACITY s.entries forwardedEntry
    total := s.total.add i
    pushed := s.pushed ++ [(i, forwardedEntry)] }

omit [DecidableEq ι] in
theorem plain_handleLogged (i : ι) : ∃ waiting : LogM Bytes,
    (∀ s, Prog.Visits (logging i)
      (localProxy.handleLogged plainCodec plainTexts plainQueryBytes) s waiting s) ∧
    ∀ s, Prog.Visits (logging i) waiting s (.done plainResponseBytes) (s.logged i) := by
  have hquery : plainCodec.fromBytes plainQueryBytes = .ok (buildQuery plainName 1) := by
    simp only [plainCodec, if_true]
  have hhead : (buildQuery plainName 1).queries.head? = some (Query.query plainName 1) := rfl
  have hroute : localProxy.policy.route (Query.query plainName 1).name = .systemUpstream := by
    decide +kernel
  simp only [Proxy.handleLogged, hquery, hhead, hroute]
  refine ⟨_, fun s => .step (r := (0 : Nat)) rfl .refl, fun s => ?_⟩
  refine .step (r := .ok plainResponseBytes) rfl (.step (r := (12000000 : Nat)) rfl ?_)
  exact .step (r := ()) rfl (.step (r := ()) rfl .refl)

omit [DecidableEq ι] in
theorem plain_logged (i : ι) : ∃ waiting : LogM LogReply,
    (∀ s, Prog.Visits (logging i)
      (LogCall.prog plainCodec plainTexts localProxy (.query plainQueryBytes)) s waiting s) ∧
    ∀ s, Prog.Visits (logging i) waiting s (.done (.reply plainResponseBytes)) (s.logged i) := by
  obtain ⟨waiting, hbegin, hend⟩ := plain_handleLogged i
  exact ⟨_, fun s => (hbegin s).within _, fun s => (hend s).bind .refl⟩

def plainCalls (call : ι → LogCall) : Pool ι LogOp LogOp.Ret LogReply (Logging ι) :=
  logCalls plainCodec plainTexts localProxy call (Cache.new 1) 0

theorem plain_withCapacity : DohResolver.withCapacity (fun _ => .ok ()) [plainProvider] 1 =
    .ok (localProxy.resolver, Cache.new 1) := rfl

/-- Whichever way queries and looks interleave, a snapshot shows the newest entries of the log as it
stood at one time while the snapshot was taken, and counts at least as many queries: `p` is any
state of the run in which the look at the log has not begun yet. -/
theorem status_log_exact
    (hnew : DohResolver.withCapacity build providers capacity = .ok (x.resolver, cache))
    {p : Pool ι LogOp LogOp.Ret LogReply (Logging ι)} {i : ι} {r : LogReply}
    (hbefore : Pool.Runs logging LogElapses (logCalls codec texts x calls cache now) p)
    (hcall : p.prog i = LogCall.prog codec texts x (.status base))
    (hr : Pool.Runs logging LogElapses p q) (hdone : q.prog i = .done r) :
    ∃ snap, r = .status snap ∧ Published base snap p.state q.state := by
  have hlook : (p.prog i).Assures (logging i) (LogRelies codec providers i)
      (LogGuarantees codec providers i)
      (fun r t => ∃ snap, r = .status snap ∧ Published base snap p.state t) p.state := by
    rw [hcall]
    apply Prog.assures_bind (readCounters_assures (logKept_runs hnew hbefore))
    intro snap t ht t' hr
    exact ⟨snap, rfl, hr.toLogGrows.published ht⟩
  have hp := (logCalls_assured hnew).runs relies_of_elapses relies_of_guarantees hbefore
  have hend := ((hp.update hlook).runs relies_of_elapses relies_of_guarantees hr).done hdone
  rwa [Function.update_self] at hend

omit [DecidableEq ι] in
/-- A look at the log may go on to the counter when other queries have been logged. -/
theorem visits_look (codec : Codec) (texts : Texts) (x : Proxy) (i : ι) (base : Snapshot)
    (s : Logging ι) : ∃ reading : LogM LogReply,
    Prog.Visits (logging i) (LogCall.prog codec texts x (.status base)) s reading s ∧
    ∀ (t : Logging ι) (now : Nanos), Prog.Visits (logging i) reading t
      (.done (.status (snapshot base ⟨s.entries, t.total.value.toNat, none⟩ now))) t := by
  refine ⟨_, .step (r := s.entries.reverse.take LOG_SLICE) ⟨rfl, rfl⟩ .refl, fun t now => ?_⟩
  refine .step (r := t.total.value) ⟨rfl, rfl⟩ ?_
  refine .step (r := none) ⟨fun n h => absurd h (Option.some_ne_none n).symm, rfl⟩ ?_
  exact .step (r := now) rfl .refl

def twoQueries : Option Bool → LogCall
  | none => .status .inactive
  | some _ => .query plainQueryBytes

/-- The one query is in the log when the look begins; the other one comes to its end between the
look at the log and the look at the counter. -/
theorem status_log_example :
    ∃ (p q : Pool (Option Bool) LogOp LogOp.Ret LogReply (Logging (Option Bool)))
      (snap : Snapshot),
      q.state.pushed = [(some false, forwardedEntry), (some true, forwardedEntry)] ∧
        snap.recent = [forwardedEntry] ∧ snap.queriesTotal = 2 ∧
        Published .inactive snap p.state q.state := by
  obtain ⟨_, hbegin, hend⟩ := plain_logged (some false)
  obtain ⟨_, hbegin', hend'⟩ := plain_logged (some true)
  obtain ⟨p₀, hr₀, -, hs₀, ho₀⟩ := Pool.exists_runs (B := LogElapses)
    (p := plainCalls twoQueries) (i := some false) ((hbegin _).trans (hend _))
  have hsecond := hbegin' p₀.state
  have hquery : p₀.prog (some true) =
      LogCall.prog plainCodec plainTexts localProxy (.query plainQueryBytes) :=
    ho₀ (some true) (by decide)
  rw [← hquery] at hsecond
  obtain ⟨p, hr, rfl, hs, ho⟩ := Pool.exists_runs (B := LogElapses) hsecond
  have hcall : p.prog none = LogCall.prog plainCodec plainTexts localProxy (.status .inactive) :=
    (ho none (by decide)).trans (ho₀ none (by decide))
  have hlog : p.state = (plainCalls twoQueries).state.logged (some false) := hs.trans hs₀
  obtain ⟨reading, hlooks, hshows⟩ := visits_look plainCodec plainTexts localProxy
    (none : Option Bool) .inactive p.state
  rw [← hcall] at hlooks
  obtain ⟨q, hr', hdone, -, hq⟩ := Pool.exists_runs_around (B := LogElapses) (by decide) hlooks
    (hend' p.state) (hshows _ 0)
  obtain ⟨snap, heq, hpub⟩ := status_log_exact plain_withCapacity (hr₀.trans hr) hcall hr' hdone
  cases heq
  exact ⟨p, q, _, by rw [hq, hlog]; rfl, by rw [hlog]; rfl, by rw [hlog]; rfl, hpub⟩

end Detour.Helper
