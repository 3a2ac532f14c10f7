import Detour.Core.Answers
import Detour.Helper.Proxy

/-! What the proxy replies to a query that goes to DoH, after any history of other queries. -/

namespace Detour.Helper

open Atomic Detour.Core Detour.Rust ExpiringTable

/-! ### What is assumed -/

/-- What is written is read back, as far as a message is read at all. Response codes above 15 need
the EDNS part of a message. -/
structure ReadsBack (codec : Codec) : Prop where
  id : ∀ m b m', codec.toVec m = .ok b → codec.fromBytes b = .ok m' → m'.id = m.id
  queries : ∀ m b m', codec.toVec m = .ok b → codec.fromBytes b = .ok m' → m'.queries = m.queries
  code : ∀ m b m', codec.toVec m = .ok b → codec.fromBytes b = .ok m' →
    (∀ c, m.responseCode ≠ .other c) → m'.responseCode = m.responseCode
  header : ∀ m, codec.fromBytes [] ≠ .ok m

variable (codec : Codec)

/-- A provider echoes the question section it was sent. -/
def Echoes : (o : ResolverOp) → o.Ret → Prop
  | .post upstream body, answer => ∀ m query, readResponse codec upstream answer = .ok m →
    codec.toVec query = .ok body → m.queries = query.queries
  | .cacheGet _, _ => True
  | .cacheInsert _ _, _ => True

variable {ι : Type}

def Proxy.answers (i : ι) : Env ProxyOp ProxyOp.Ret (Service ι)
  | .resolver o, s, r, t => Service.answers i o s r t ∧ Echoes codec o r
  | .forward _, s, _, t => t = s

def handling (x : Proxy) (queries : ι → Bytes) (cache : Cache) (now : Nat) :
    Pool ι ProxyOp ProxyOp.Ret Bytes (Service ι) :=
  Pool.start (fun i => x.handle codec (queries i)) ⟨cache, now, []⟩

/-- The question is of class IN, and what the cache still holds for it answers a question that
spelt the name the same way. -/
def SpeltAlike (s : Service ι) (question : Query) : Prop :=
  question.queryClass = IN ∧ ∀ e,
    s.cache.entries.lookup (Key.new question.name question.queryType) = some e →
    s.now - e.storedAt < e.ttl → ∀ x ∈ e.message.queries, x.name = question.name

/-! ### One query -/

variable {codec} [DecidableEq ι] {providers : List Provider} {i : ι} {s t : Service ι}
  {x : Proxy} {bytes : Bytes} {query m reply : Message} {question : Query}
  {log : List (ι × Act)}

variable (codec providers) in
/-- What the proxy replies where the query goes to DoH. -/
def Replied (policy : Policy) (queryBytes : Bytes) (i : ι) (bytes : Bytes) (s : Service ι) :
    Prop :=
  ∀ query question, codec.fromBytes queryBytes = .ok query → query.queries = [question] →
    policy.route question.name = .doh →
    ∃ r, bytes = dohReply codec query.id r ∧
      Answered codec providers i question.name question.queryType s.log r

theorem resolver_assures (o : ResolverOp) (s : Service ι)
    (hG : ∀ s', Beside codec providers i s s' → ∀ r t, Service.answers i o s' r t →
      Acts codec providers i s' t) :
    (Prog.perform (ProxyOp.resolver o) : Prog ProxyOp ProxyOp.Ret _).Assures
      (Proxy.answers codec i) (Beside codec providers i) (Acts codec providers i)
      (fun r t => ∃ s' t', Beside codec providers i s s' ∧ Service.answers i o s' r t' ∧
        Beside codec providers i t' t) s := by
  intro s' hs r t he
  exact ⟨hG s' hs r t he.1, fun t' ht => ⟨s', t, hs, he.1, ht⟩⟩

theorem replied_otherwise {policy : Policy}
    (h : ∀ query question, codec.fromBytes bytes = .ok query → query.queries.head? = some question →
      policy.route question.name ≠ .doh) (b : Bytes) (s : Service ι) :
    Replied codec providers policy bytes i b s := by
  intro query question hquery hone hroute
  exact absurd hroute (h query question hquery (by rw [hone]; rfl))

theorem handle_assures (hd : x.resolver.upstreams.map Upstream.provider = providers)
    (h : At codec providers i [] s) :
    (x.handle codec bytes).Assures (Proxy.answers codec i) (Beside codec providers i)
      (Acts codec providers i) (Replied codec providers x.policy bytes i) s := by
  unfold Proxy.handle
  cases hquery : codec.fromBytes bytes with
  | error e =>
    intro t _
    apply replied_otherwise
    rw [hquery]
    intro _ _ hok
    cases hok
  | ok query =>
    cases hhead : query.queries.head? with
    | none =>
      simp only [hhead]
      intro t _
      apply replied_otherwise
      rw [hquery]
      rintro _ question ⟨⟩ hsome
      rw [hhead] at hsome
      cases hsome
    | some question =>
      simp only [hhead]
      cases hroute : x.policy.route question.name with
      | systemUpstream =>
        have hother : ∀ b t, Replied codec providers x.policy bytes i b t := by
          apply replied_otherwise
          rw [hquery]
          rintro _ question' ⟨⟩ hsome
          rw [hhead] at hsome
          cases hsome
          rw [hroute]
          decide
        intro s' _ forwarded t he
        obtain rfl : t = s' := he
        refine ⟨fun j _ => Std.Refl.refl t, ?_⟩
        cases forwarded with
        | ok b => exact fun t' _ => hother b t'
        | error e => exact fun t' _ => hother (servfail codec query.id .servFail) t'
      | doh =>
        apply Prog.assures_bind ((resolve_assures hd h).translate resolver_assures)
        intro r t hr t' ht query' question' hquery' hone _
        rw [hquery] at hquery'
        cases hquery'
        rw [hone] at hhead
        cases hhead
        exact ⟨r, rfl, hr.later ht.log ht.own⟩

theorem handle_doh (hquery : codec.fromBytes bytes = .ok query) (hone : query.queries = [question])
    (hroute : x.policy.route question.name = .doh) : x.handle codec bytes =
      (x.resolver.resolve codec question.name question.queryType).run.translate
        (fun o => Prog.perform (ProxyOp.resolver o)) >>=
      fun resolved => pure (dohReply codec query.id resolved) := by
  have hhead : query.queries.head? = some question := by rw [hone]; rfl
  unfold Proxy.handle
  simp only [hquery, hhead, hroute]

theorem handle_next (hquery : codec.fromBytes bytes = .ok query) (hone : query.queries = [question])
    (hroute : x.policy.route question.name = .doh) : (x.handle codec bytes).next =
      some (.resolver (.cacheGet (Key.new question.name question.queryType))) := by
  rw [handle_doh hquery hone hroute, resolve_eq]
  rfl

/-! ### The log -/

variable (codec) in
def AllEcho (log : List (ι × Act)) : Prop :=
  ∀ i upstream body answer, (i, .posted upstream body answer) ∈ log →
    Echoes codec (.post upstream body) answer

omit [DecidableEq ι] in
theorem AllEcho.answers {o : ProxyOp} {r : o.Ret} (h : AllEcho codec s.log)
    (he : Proxy.answers codec i o s r t) : AllEcho codec t.log ∧ s.log <+: t.log := by
  have hrecord {s : Service ι} {a : Act} (h : AllEcho codec s.log)
      (ha : ∀ upstream body answer, a = .posted upstream body answer →
        Echoes codec (.post upstream body) answer) :
      AllEcho codec (s.record i a).log ∧ s.log <+: (s.record i a).log := by
    refine ⟨?_, List.prefix_append s.log _⟩
    intro j upstream body answer hmem
    cases List.mem_append.mp hmem with
    | inl hold => exact h j upstream body answer hold
    | inr hnew =>
      cases List.mem_singleton.mp hnew
      exact ha upstream body answer rfl
  cases o with
  | forward query =>
    obtain rfl : t = s := he
    exact ⟨h, List.prefix_refl _⟩
  | resolver o =>
    obtain ⟨hstep, hecho⟩ := he
    cases o with
    | cacheGet key =>
      obtain ⟨-, rfl⟩ := hstep
      exact hrecord h nofun
    | post upstream body =>
      obtain rfl := hstep
      apply hrecord h
      rintro _ _ _ ⟨⟩
      exact hecho
    | cacheInsert key message =>
      obtain ⟨items, -, rfl⟩ := hstep
      exact hrecord h nofun

/-! ### The question of a reply -/

omit [DecidableEq ι] in
theorem queries_of_returned {name : Name} {type : RecordType}
    (h : Returned codec providers name type m log) (hecho : AllEcho codec log) :
    ∃ name', m.queries = [Query.query name' type] := by
  obtain ⟨j, name', upstream, body, answer, -, -, hbody, hmem, hread⟩ := h
  exact ⟨name', hecho j upstream body answer hmem m _ hread hbody⟩

theorem query_eq_iff {name : Name} :
    [Query.query name question.queryType] = [question] ↔
      question.queryClass = IN ∧ name = question.name := by
  obtain ⟨name', type, dnsClass⟩ := question
  simp only [Query.query, List.cons.injEq, Query.mk.injEq, and_true, true_and]
  exact ⟨fun h => ⟨h.2.symm, h.1⟩, fun h => ⟨h.2, h.1.symm⟩⟩

theorem queries_of_answered
    (h : Answered codec providers i question.name question.queryType log (.ok m))
    (hecho : AllEcho codec log)
    (hmem : (i, .lookedUp (Key.new question.name question.queryType) s.now
      (s.cache.getAt (Key.new question.name question.queryType) s.now)) ∈ log) :
    m.queries = [question] ↔ SpeltAlike s question := by
  have hown := mem_own.mpr hmem
  cases h with
  | cached m₀ m stored now ttl j hcode ho hin hle hlt hmax hret hlow =>
    rw [ho] at hown
    obtain ⟨-, -, hhit⟩ := Act.lookedUp.inj (List.mem_singleton.mp hown)
    obtain ⟨e, hl, hlive, hm⟩ := getAt_eq_some.mp hhit
    obtain ⟨name', hname'⟩ := queries_of_returned hret hecho
    have hq : m.queries = [Query.query name' question.queryType] := by
      rw [hlow.2.2]
      exact hname'
    have he : e.message.queries = [Query.query name' question.queryType] := by
      rw [← hq, hm]
    rw [hq, query_eq_iff]
    apply and_congr_right
    intro _
    constructor
    · intro hname e' hl' _ y hy
      obtain rfl : e = e' := Option.some.inj (hl.symm.trans hl')
      rw [he] at hy
      obtain rfl := List.mem_singleton.mp hy
      exact hname
    · intro hall
      exact hall e hl hlive (Query.query name' question.queryType) (by rw [he]; simp)
  | fetched m now stored ttl body failed upstream answer untried hcode hp hbody hfailed hread ho =>
    have hasked : Act.posted upstream body answer ∈ own i log := by
      rw [ho]
      simp
    have hq : m.queries = [Query.query question.name question.queryType] :=
      hecho i upstream body answer (mem_own.mp hasked) m _ hread hbody
    have hmiss : s.cache.getAt (Key.new question.name question.queryType) s.now = none := by
      rw [ho] at hown
      cases List.mem_cons.mp hown with
      | inl heq => exact (Act.lookedUp.inj heq).2.2
      | inr hlater => simp [asked] at hlater
    rw [hq, query_eq_iff]
    apply and_congr_right
    intro _
    refine ⟨fun _ e hl hlive => ?_, fun _ => rfl⟩
    rw [getAt_eq_some.mpr ⟨e, hl, hlive, rfl⟩] at hmiss
    cases hmiss

/-! ### Every run -/

theorem servfail_code (hc : ReadsBack codec) {id : UInt16} {code : ResponseCode}
    (hcode : ∀ c, code ≠ .other c) (h : codec.fromBytes (servfail codec id code) = .ok reply) :
    reply.responseCode = code := by
  unfold servfail at h
  cases hb : codec.toVec (servfailMessage id code) with
  | error e =>
    rw [hb] at h
    exact absurd h (hc.header reply)
  | ok b =>
    rw [hb] at h
    exact hc.code _ b reply hb h hcode

theorem dohReply_ok (hc : ReadsBack codec) {id : UInt16} {r : Except ResolveError Message}
    (h : codec.fromBytes (dohReply codec id r) = .ok reply)
    (hcode : reply.responseCode ≠ .servFail) :
    ∃ m, r = .ok m ∧ reply.id = id ∧ reply.queries = m.queries := by
  have hfail : codec.fromBytes (servfail codec id .servFail) ≠ .ok reply := by
    intro heq
    apply hcode
    apply servfail_code hc _ heq
    intro c hother
    cases hother
  cases r with
  | error e => exact absurd h hfail
  | ok m =>
    simp only [dohReply] at h
    split at h
    next b hb =>
      have hqueries := hc.queries _ b reply hb h
      exact ⟨m, rfl, hc.id _ b reply hb h, hqueries⟩
    next => exact absurd h hfail

theorem runs_log {p q : Pool ι ProxyOp ProxyOp.Ret Bytes (Service ι)}
    (hr : Pool.Runs (Proxy.answers codec) Service.Elapses p q) (h : AllEcho codec p.state.log) :
    AllEcho codec q.state.log ∧ p.state.log <+: q.state.log := by
  refine hr.invariant (I := fun s => AllEcho codec s.log ∧ p.state.log <+: s.log) ?_ ?_
    ⟨h, List.prefix_refl _⟩
  · intro i o s r t he hs
    obtain ⟨hecho, hlog⟩ := hs.1.answers he
    exact ⟨hecho, hs.2.trans hlog⟩
  · intro s t hb hs
    cases hb with
    | time | purge => exact hs

/-- Whatever was asked before, a reply with an answer has the client's question exactly where that
is of class IN and the cache holds nothing for it that was fetched under another spelling. The
lookup in the cache is the first step of `i`, from `p` to `p'`. -/
theorem question_answered_iff {build : Client → Except ReqwestError Unit} {capacity now : Nat}
    {d : DohResolver} {cache : Cache} {policy : Policy} {queries : ι → Bytes}
    {p p' q : Pool ι ProxyOp ProxyOp.Ret Bytes (Service ι)} (hc : ReadsBack codec)
    (hnew : DohResolver.withCapacity build providers capacity = .ok (d, cache))
    (hquery : codec.fromBytes (queries i) = .ok query) (hone : query.queries = [question])
    (hroute : policy.route question.name = .doh)
    (hr : Pool.Runs (Proxy.answers codec) Service.Elapses
      (handling codec ⟨d, policy⟩ queries cache now) p)
    (hp : p.prog i = Proxy.handle codec ⟨d, policy⟩ (queries i))
    (hfirst : Pool.Takes (Proxy.answers codec) i p p')
    (hlast : Pool.Runs (Proxy.answers codec) Service.Elapses p' q)
    (hdone : q.prog i = .done bytes) (hreply : codec.fromBytes bytes = .ok reply)
    (hcode : reply.responseCode = .noError ∨ reply.responseCode = .nxDomain) :
    reply.id = query.id ∧ reply.queries = [question] ↔ SpeltAlike p.state question := by
  obtain ⟨hd, rfl⟩ := withCapacity_upstreams hnew
  have hstart : (handling codec ⟨d, policy⟩ queries (Cache.new capacity) now).Assured
      (Proxy.answers codec) (Beside codec providers) (Acts codec providers)
      fun i => Replied codec providers policy (queries i) i :=
    fun i => handle_assures (x := ⟨d, policy⟩) hd ⟨sound_new, rfl⟩
  have hmove := Pool.Moves.takes (B := Service.Elapses) i hfirst
  have hall := hstart.runs (fun _ _ _ hb => hb.beside) (fun _ _ _ _ hij hg => hg _ hij)
    ((hr.tail hmove).trans hlast)
  obtain ⟨r, rfl, hans⟩ := hall.done hdone query question hquery hone hroute
  have hnofail : reply.responseCode ≠ .servFail := by
    rintro hfail
    rw [hfail] at hcode
    cases hcode with
    | inl h | inr h => cases h
  obtain ⟨m, rfl, hid, hqueries⟩ := dohReply_ok hc hreply hnofail
  rw [and_iff_right hid, hqueries]
  obtain ⟨hecho, -⟩ := runs_log (hr.tail hmove) (fun _ _ _ _ h => nomatch h)
  obtain ⟨hechoq, hlog⟩ := runs_log hlast hecho
  apply queries_of_answered hans hechoq
  apply hlog.subset
  cases hfirst with
  | mk hit hop he =>
    have hnext := handle_next (x := ⟨d, policy⟩) hquery hone hroute
    rw [← hp, hop] at hnext
    cases hnext
    obtain ⟨⟨rfl, rfl⟩, -⟩ := he
    exact List.mem_append_right p.state.log (List.mem_singleton.mpr rfl)

/-! ### Two spellings of one name -/

def tableCodec (table : List (Message × Bytes)) : Codec where
  toVec m := (table.find? fun x => x.1 = m).elim (.error "unknown message") fun x => .ok x.2
  fromBytes b := (table.find? fun x => x.2 = b).elim (.error "unknown bytes") fun x => .ok x.1

variable {table : List (Message × Bytes)} {b : Bytes}

theorem mem_of_toVec (h : (tableCodec table).toVec m = .ok b) : (m, b) ∈ table := by
  unfold tableCodec at h
  cases hfind : table.find? fun x => x.1 = m with
  | none =>
    simp only [hfind] at h
    cases h
  | some x =>
    simp only [hfind] at h
    cases h
    have hm : x.1 = m := by simpa using List.find?_some hfind
    exact hm ▸ List.mem_of_find?_eq_some hfind

theorem mem_of_fromBytes (h : (tableCodec table).fromBytes b = .ok m) : (m, b) ∈ table := by
  unfold tableCodec at h
  cases hfind : table.find? fun x => x.2 = b with
  | none =>
    simp only [hfind] at h
    cases h
  | some x =>
    simp only [hfind] at h
    cases h
    have hb : x.2 = b := by simpa using List.find?_some hfind
    exact hb ▸ List.mem_of_find?_eq_some hfind

theorem tableCodec_readsBack (h : ∀ x ∈ table, ∀ y ∈ table, x.2 = y.2 → x.1 = y.1)
    (hne : ∀ x ∈ table, x.2 ≠ []) : ReadsBack (tableCodec table) := by
  have heq : ∀ m b m', (tableCodec table).toVec m = .ok b →
      (tableCodec table).fromBytes b = .ok m' → m' = m := fun m b m' hm hm' =>
    h (m', b) (mem_of_fromBytes hm') (m, b) (mem_of_toVec hm) rfl
  constructor
  · intro m b m' hm hm'
    rw [heq m b m' hm hm']
  · intro m b m' hm hm'
    rw [heq m b m' hm hm']
  · intro m b m' hm hm' _
    rw [heq m b m' hm hm']
  · intro m hm
    exact hne (m, []) (mem_of_fromBytes hm) rfl

def shoutedName : Name := ⟨[ascii "Example", ascii "com"], by decide⟩

def questionBytes (label : String) : Bytes :=
  [7] ++ ascii label ++ [3] ++ ascii "com" ++ [0, 0, 1, 0, 1]

def clientQuery (id : UInt16) (name : Name) : Message := { buildQuery name 1 with id := id }

def clientQueryBytes (id : UInt8) (label : String) : Bytes :=
  [0, id, 1, 0, 0, 1, 0, 0, 0, 0, 0, 0] ++ questionBytes label

def shoutedResponse (id : UInt16) : Message := { Message.new with
  id := id
  messageType := .response
  recursionDesired := true
  recursionAvailable := true
  queries := [Query.query shoutedName 1]
  answers := [⟨shoutedName, 1, IN, 300, [93, 184, 216, 34]⟩] }

def shoutedResponseBytes (id : UInt8) : Bytes :=
  [0, id, 129, 128, 0, 1, 0, 1, 0, 0, 0, 0] ++ questionBytes "Example" ++
    [192, 12, 0, 1, 0, 1, 0, 0, 1, 44, 0, 4, 93, 184, 216, 34]

def shoutedTable : List (Message × Bytes) :=
  [(clientQuery 0 shoutedName, clientQueryBytes 0 "Example"),
    (clientQuery 1 shoutedName, clientQueryBytes 1 "Example"),
    (clientQuery 2 plainName, clientQueryBytes 2 "example"),
    (shoutedResponse 0, shoutedResponseBytes 0), (shoutedResponse 1, shoutedResponseBytes 1),
    (shoutedResponse 2, shoutedResponseBytes 2)]

def shoutedCodec : Codec := tableCodec shoutedTable

theorem shouted_readsBack : ReadsBack shoutedCodec :=
  tableCodec_readsBack (by decide +kernel) (by decide +kernel)

def shoutedQueries : Bool → Bytes
  | false => clientQueryBytes 1 "Example"
  | true => clientQueryBytes 2 "example"

def shoutedProxy : Proxy := ⟨⟨[plainUpstream]⟩, Policy.default⟩

theorem echoes_of_read {upstream : Upstream} {body : Bytes} {answer : Answer}
    (hc : ReadsBack codec) (hread : readResponse codec upstream answer = .ok m)
    (hbody : codec.fromBytes body = .ok query) (hq : m.queries = query.queries) :
    Echoes codec (.post upstream body) answer := by
  intro m' query' hm' hq'
  rw [hread] at hm'
  cases hm'
  rw [hq, hc.queries query' body query hq' hbody]

omit [DecidableEq ι] in
theorem visits_handle {r : Except ResolveError Message}
    (hquery : codec.fromBytes bytes = .ok query) (hone : query.queries = [question])
    (hroute : x.policy.route question.name = .doh)
    (h : Prog.Visits (fun o s r t => Proxy.answers codec i (.resolver o) s r t)
      (x.resolver.resolve codec question.name question.queryType).run s (.done r) t) :
    Prog.Visits (Proxy.answers codec i) (x.handle codec bytes) s
      (.done (dohReply codec query.id r)) t := by
  rw [handle_doh hquery hone hroute]
  have hstep (o : ResolverOp) (s : Service ι) (r : o.Ret) (t : Service ι)
      (he : Proxy.answers codec i (.resolver o) s r t) :
      Prog.Visits (Proxy.answers codec i) (Prog.perform (ProxyOp.resolver o)) s (.done r) t :=
    .step he .refl
  exact (Prog.Visits.translate hstep h).bind .refl

def shoutedCache : Cache :=
  ((Cache.new 1).insertAt [] (Key.new shoutedName 1) (shoutedResponse 0) 0).2

theorem shouted_visits : ∃ s : Service Bool, Prog.Visits (Proxy.answers shoutedCodec false)
    (shoutedProxy.handle shoutedCodec (shoutedQueries false)) ⟨Cache.new 1, 0, []⟩
    (.done (shoutedResponseBytes 1)) s ∧ s.cache = shoutedCache ∧ s.now = 0 := by
  have hquery :
      shoutedCodec.fromBytes (shoutedQueries false) = .ok (clientQuery 1 shoutedName) := by
    decide +kernel
  have hroute : Policy.default.route shoutedName = .doh := by decide +kernel
  have hbody :
      shoutedCodec.toVec (buildQuery shoutedName 1) = .ok (clientQueryBytes 0 "Example") := by
    decide +kernel
  have hread : readResponse shoutedCodec plainUpstream
      (.ok ⟨200, some DNS_MESSAGE, .ok (shoutedResponseBytes 0)⟩) = .ok (shoutedResponse 0) := by
    decide +kernel
  have hsent : shoutedCodec.fromBytes (clientQueryBytes 0 "Example") =
      .ok (clientQuery 0 shoutedName) := by
    decide +kernel
  have hreply : dohReply shoutedCodec 1 (.ok (shoutedResponse 0)) = shoutedResponseBytes 1 := by
    decide +kernel
  rw [← hreply]
  refine ⟨_, visits_handle hquery rfl hroute (visits_fetched ⟨⟨rfl, rfl⟩, trivial⟩ hbody
    ⟨rfl, echoes_of_read shouted_readsBack hread hsent rfl⟩ hread (by decide)
    ⟨⟨[], .refl [], rfl⟩, trivial⟩), rfl, rfl⟩

theorem plain_visits {s : Service Bool} (hcache : s.cache = shoutedCache) (hnow : s.now = 0) :
    ∃ t, Prog.Visits (Proxy.answers shoutedCodec true)
      (shoutedProxy.handle shoutedCodec (shoutedQueries true)) s
      (.done (shoutedResponseBytes 2)) t := by
  have hquery : shoutedCodec.fromBytes (shoutedQueries true) = .ok (clientQuery 2 plainName) := by
    decide +kernel
  have hroute : Policy.default.route plainName = .doh := by decide +kernel
  have hhit : s.cache.getAt (Key.new plainName 1) s.now = some (shoutedResponse 0) := by
    rw [hcache, hnow]
    decide +kernel
  have hreply : dohReply shoutedCodec 2 (.ok (shoutedResponse 0)) = shoutedResponseBytes 2 := by
    decide +kernel
  rw [← hreply]
  exact ⟨_, visits_handle hquery rfl hroute (visits_cached ⟨⟨hhit.symm, rfl⟩, trivial⟩)⟩

theorem shouted_answered : (shoutedResponse 1).id = (clientQuery 1 shoutedName).id ∧
      (shoutedResponse 1).queries = [Query.query shoutedName 1] ↔
    SpeltAlike (⟨Cache.new 1, 0, []⟩ : Service Bool) (Query.query shoutedName 1) := by
  have hnew : DohResolver.withCapacity (fun _ => .ok ()) [plainProvider] 1 =
      .ok (⟨[plainUpstream]⟩, Cache.new 1) := rfl
  have hquery :
      shoutedCodec.fromBytes (shoutedQueries false) = .ok (clientQuery 1 shoutedName) := by
    decide +kernel
  have hroute : Policy.default.route shoutedName = .doh := by decide +kernel
  have hreply : shoutedCodec.fromBytes (shoutedResponseBytes 1) = .ok (shoutedResponse 1) := by
    decide +kernel
  obtain ⟨s, hv, -, -⟩ := shouted_visits
  have hnext := handle_next (x := shoutedProxy) hquery rfl hroute
  obtain ⟨p', q, hfirst, hlast, hdone, -, -⟩ := Pool.exists_takes (B := Service.Elapses)
    (p := handling shoutedCodec shoutedProxy shoutedQueries (Cache.new 1) 0) hv
    (hnext.trans_ne nofun)
  exact question_answered_iff shouted_readsBack hnew hquery rfl hroute .refl rfl hfirst hlast
    hdone hreply (.inl rfl)

/-- After `Example.com`, the reply to `example.com` has the other spelling. -/
theorem plain_misanswered : ∃ p p' q, ReadsBack shoutedCodec ∧
    Pool.Runs (Proxy.answers shoutedCodec) Service.Elapses
      (handling shoutedCodec shoutedProxy shoutedQueries (Cache.new 1) 0) p ∧
    p.prog true = shoutedProxy.handle shoutedCodec (shoutedQueries true) ∧
    Pool.Takes (Proxy.answers shoutedCodec) true p p' ∧
    Pool.Runs (Proxy.answers shoutedCodec) Service.Elapses p' q ∧
    q.prog true = .done (shoutedResponseBytes 2) ∧
    shoutedCodec.fromBytes (shoutedQueries true) = .ok (clientQuery 2 plainName) ∧
    (clientQuery 2 plainName).queries = [Query.query plainName 1] ∧
    shoutedProxy.policy.route plainName = .doh ∧
    shoutedCodec.fromBytes (shoutedResponseBytes 2) = .ok (shoutedResponse 2) ∧
    (shoutedResponse 2).responseCode = .noError ∧
    (shoutedResponse 2).queries ≠ [Query.query plainName 1] := by
  have hquery : shoutedCodec.fromBytes (shoutedQueries true) = .ok (clientQuery 2 plainName) := by
    decide +kernel
  have hroute : Policy.default.route plainName = .doh := by decide +kernel
  have hreply : shoutedCodec.fromBytes (shoutedResponseBytes 2) = .ok (shoutedResponse 2) := by
    decide +kernel
  obtain ⟨s, hv, hcache, hnow⟩ := shouted_visits
  obtain ⟨p, hr, -, rfl, hother⟩ := Pool.exists_runs (B := Service.Elapses)
    (p := handling shoutedCodec shoutedProxy shoutedQueries (Cache.new 1) 0) hv
  have hp : p.prog true = shoutedProxy.handle shoutedCodec (shoutedQueries true) :=
    hother true (by decide)
  obtain ⟨t, hv'⟩ := plain_visits hcache hnow
  have hnext := handle_next (x := shoutedProxy) hquery rfl hroute
  rw [← hp] at hv' hnext
  obtain ⟨p', q, hfirst, hlast, hdone, -, -⟩ :=
    Pool.exists_takes (B := Service.Elapses) hv' (hnext.trans_ne nofun)
  exact ⟨p, p', q, shouted_readsBack, hr, hp, hfirst, hlast, hdone, hquery, rfl, hroute, hreply,
    rfl, by decide +kernel⟩

end Detour.Helper
