import Detour.Core.Lookups
import Detour.Core.Resolver

/-! What the resolver may answer, whichever way concurrent calls and purges interleave. -/

namespace Detour.Core

open Atomic Detour.Rust ExpiringTable

/-! ### The service -/

inductive Act
  | lookedUp (key : Key) (time : Nat) (hit : Option Message)
  | posted (upstream : Upstream) (body : Bytes) (answer : Answer)
  | inserted (key : Key) (message : Message) (time : Nat) (ttl : Option Nat)

/-- The cache, the time, and what the calls have done, the latest last. -/
structure Service (ι : Type) where
  cache : Cache
  now : Nat
  log : List (ι × Act)

namespace Service

variable {ι : Type}

def record (s : Service ι) (i : ι) (a : Act) : Service ι := { s with log := s.log ++ [(i, a)] }

/-- How the steps of call `i` are answered. A provider may answer anything. -/
def answers (i : ι) : Env ResolverOp ResolverOp.Ret (Service ι)
  | .cacheGet key, s, hit, t =>
    hit = s.cache.getAt key s.now ∧ t = s.record i (.lookedUp key s.now hit)
  | .post upstream body, s, answer, t => t = s.record i (.posted upstream body answer)
  | .cacheInsert key message, s, _, t => ∃ items, items.Perm s.cache.entries.entries ∧
      t = { s with cache := (s.cache.insertAt items key message s.now).2 }.record i
        (.inserted key message s.now (s.cache.insertAt items key message s.now).1)

inductive Elapses : Service ι → Service ι → Prop
  | time {s : Service ι} {t : Nat} : s.now ≤ t → Elapses s { s with now := t }
  | purge {s : Service ι} : Elapses s { s with cache := s.cache.purgeExpired s.now }

end Service

variable {ι : Type} [DecidableEq ι]

def own (i : ι) (log : List (ι × Act)) : List Act := (log.filter fun x => x.1 = i).map Prod.snd

def asked (body : Bytes) (x : Upstream × Answer) : Act := .posted x.1 body x.2

variable (codec : Codec) (providers : List Provider)

/-- The provider failed or answered SERVFAIL. -/
def Failed (x : Upstream × Answer) : Prop :=
  ∀ m, readResponse codec x.1 x.2 = .ok m → m.responseCode = .servFail

/-- A configured provider answered `m` to a query of this type for this name or one that differs in
the case of letters. -/
def Returned (name : Name) (type : RecordType) (m : Message) (log : List (ι × Act)) : Prop :=
  ∃ i name' upstream body answer, upstream.provider ∈ providers ∧
    name'.toLowercase = name.toLowercase ∧ codec.toVec (buildQuery name' type) = .ok body ∧
    (i, .posted upstream body answer) ∈ log ∧ readResponse codec upstream answer = .ok m

/-- What a call for `name` and `type` may have returned, by what was done so far. -/
inductive Answered (i : ι) (name : Name) (type : RecordType) (log : List (ι × Act)) :
    Except ResolveError Message → Prop
  | cached (m m' : Message) (stored now ttl : Nat) (j : ι) :
    m'.responseCode ≠ .servFail →
    own i log = [.lookedUp (Key.new name type) now (some m')] →
    (j, .inserted (Key.new name type) m stored (some ttl)) ∈ log →
    stored ≤ now → now - stored < ttl → ttl ≤ 3600 * SECOND →
    Returned codec providers name type m log →
    m.Lowered ((now - stored) / SECOND) m' →
    Answered i name type log (.ok m')
  | fetched (m : Message) (now stored : Nat) (ttl : Option Nat) (body : Bytes)
    (failed : List (Upstream × Answer)) (upstream : Upstream) (answer : Answer)
    (untried : List Provider) :
    m.responseCode ≠ .servFail →
    providers = failed.map (fun x => x.1.provider) ++ upstream.provider :: untried →
    codec.toVec (buildQuery name type) = .ok body →
    (∀ x ∈ failed, Failed codec x) →
    readResponse codec upstream answer = .ok m →
    own i log = .lookedUp (Key.new name type) now none ::
      (failed.map (asked body) ++ [.posted upstream body answer,
        .inserted (Key.new name type) m stored ttl]) →
    Answered i name type log (.ok m)
  | refused (e : ResolveError) (now : Nat) (body : Bytes) (failed : List (Upstream × Answer)) :
    providers = failed.map (fun x => x.1.provider) →
    codec.toVec (buildQuery name type) = .ok body →
    (∀ x ∈ failed, Failed codec x) →
    own i log = .lookedUp (Key.new name type) now none :: failed.map (asked body) →
    Answered i name type log (.error e)
  | unsendable (e : ResolveError) (now : Nat) (err : ProtoError) :
    codec.toVec (buildQuery name type) = .error err →
    own i log = [.lookedUp (Key.new name type) now none] →
    Answered i name type log (.error e)

/-! ### What holds of the cache -/

structure Backed (s : Service ι) (key : Key) (e : Entry) : Prop where
  stored : e.storedAt ≤ s.now
  lifetime : Lifetime e.message e.ttl
  inserted : ∃ i, (i, .inserted key e.message e.storedAt (some e.ttl)) ∈ s.log
  returned : ∃ name type, key = Key.new name type ∧
    Returned codec providers name type e.message s.log

def Sound (s : Service ι) : Prop :=
  ∀ key e, s.cache.entries.lookup key = some e → Backed codec providers s key e

variable {codec providers} {i j : ι} {name name' : Name} {type : RecordType} {m : Message}
  {log log' : List (ι × Act)} {s t : Service ι} {key : Key} {e : Entry} {a : Act}

theorem Lifetime.code {l : Nat} (h : Lifetime m l) : m.responseCode ≠ .servFail := by
  cases h with
  | nxDomain hcode | empty hcode | answers _ hcode =>
    rw [hcode]
    nofun

theorem own_append : own i (log ++ log') = own i log ++ own i log' := by
  rw [own, List.filter_append, List.map_append]
  rfl

theorem own_record_self : own i (s.record i a).log = own i s.log ++ [a] := by
  rw [Service.record, own_append]
  simp [own]

theorem own_record_ne (h : i ≠ j) : own i (s.record j a).log = own i s.log := by
  rw [Service.record, own_append]
  simp [own, h.symm]

theorem mem_own : a ∈ own i log ↔ (i, a) ∈ log := by
  constructor
  · intro h
    obtain ⟨⟨j, a'⟩, hx, rfl⟩ := List.mem_map.mp h
    obtain ⟨hmem, heq⟩ := List.mem_filter.mp hx
    obtain rfl : j = i := by simpa using heq
    exact hmem
  · intro h
    exact List.mem_map.mpr ⟨(i, a), List.mem_filter.mpr ⟨h, by simp⟩, rfl⟩

omit [DecidableEq ι] in
theorem Returned.later (h : Returned codec providers name type m log) (hlog : log <+: log') :
    Returned codec providers name type m log' := by
  obtain ⟨i, name', upstream, body, answer, hp, hname, hbody, hmem, hread⟩ := h
  exact ⟨i, name', upstream, body, answer, hp, hname, hbody, hlog.subset hmem, hread⟩

omit [DecidableEq ι] in
theorem Returned.congr {type' : RecordType} (h : Returned codec providers name type m log)
    (hkey : Key.new name type = Key.new name' type') :
    Returned codec providers name' type' m log := by
  obtain ⟨hname, rfl⟩ := Key.mk.inj hkey
  obtain ⟨i, name'', upstream, body, answer, hp, hname', hrest⟩ := h
  exact ⟨i, name'', upstream, body, answer, hp, hname'.trans hname, hrest⟩

omit [DecidableEq ι] in
theorem Backed.later (h : Backed codec providers s key e) (hlog : s.log <+: t.log)
    (hnow : s.now ≤ t.now) : Backed codec providers t key e where
  stored := h.stored.trans hnow
  lifetime := h.lifetime
  inserted := by
    obtain ⟨i, hi⟩ := h.inserted
    exact ⟨i, hlog.subset hi⟩
  returned := by
    obtain ⟨name, type, hkey, hret⟩ := h.returned
    exact ⟨name, type, hkey, hret.later hlog⟩

omit [DecidableEq ι] in
theorem Sound.shrink (h : Sound codec providers s) (hlog : s.log <+: t.log) (hnow : s.now ≤ t.now)
    (hcache : ∀ key e, t.cache.entries.lookup key = some e →
      s.cache.entries.lookup key = some e) : Sound codec providers t :=
  fun key e he => (h key e (hcache key e he)).later hlog hnow

omit [DecidableEq ι] in
theorem sound_new {capacity now : Nat} :
    Sound codec providers (⟨Cache.new capacity, now, log⟩ : Service ι) := by
  intro key e he
  change (∅ : Table Key Entry).lookup key = some e at he
  rw [AList.lookup_empty] at he
  cases he

omit [DecidableEq ι] in
theorem Sound.insert {items : List (Item Key Entry)} (h : Sound codec providers s)
    (hret : Returned codec providers name type m s.log) :
    Sound codec providers ({ s with
      cache := (s.cache.insertAt items (Key.new name type) m s.now).2 }.record i
        (.inserted (Key.new name type) m s.now
          (s.cache.insertAt items (Key.new name type) m s.now).1)) := by
  have hlog (x : ι × Act) : s.log <+: s.log ++ [x] := List.prefix_append s.log [x]
  cases hl : cacheableTtl m with
  | none =>
    rw [insertAt_rejected hl]
    exact h.shrink (hlog _) (Nat.le_refl _) fun _ _ he => he
  | some l =>
    rw [insertAt_accepted hl]
    intro key e he
    change (insertBounded _ _ _ _ _ _).lookup key = some e at he
    rw [lookup_insertBounded] at he
    split at he
    next hkey =>
      cases he
      refine ⟨Nat.le_refl _, cacheableTtl_iff.mp hl, ⟨i, ?_⟩, name, type, hkey.symm,
        hret.later (hlog _)⟩
      rw [← hkey]
      exact List.mem_append_right s.log (List.mem_singleton.mpr rfl)
    next =>
      split at he
      next => cases he
      next => exact (h key e he).later (hlog _) (Nat.le_refl _)

theorem Answered.later {r : Except ResolveError Message}
    (h : Answered codec providers i name type log r) (hlog : log <+: log')
    (hown : own i log' = own i log) : Answered codec providers i name type log' r := by
  cases h with
  | cached m m' stored now ttl j hcode ho hmem hle hlt hmax hret hlow =>
    exact .cached m m' stored now ttl j hcode (hown.trans ho) (hlog.subset hmem) hle hlt hmax
      (hret.later hlog) hlow
  | fetched m now stored ttl body failed upstream answer untried hcode hp hbody hfailed hread ho =>
    exact .fetched m now stored ttl body failed upstream answer untried hcode hp hbody hfailed hread
      (hown.trans ho)
  | refused e now body failed hp hbody hfailed ho =>
    exact .refused e now body failed hp hbody hfailed (hown.trans ho)
  | unsendable e now err herr ho => exact .unsendable e now err herr (hown.trans ho)

/-! ### The calls beside each other -/

variable (codec providers) in
structure Grows (s t : Service ι) : Prop where
  log : s.log <+: t.log
  now : s.now ≤ t.now
  sound : Sound codec providers s → Sound codec providers t

variable (codec providers) in
structure Beside (i : ι) (s t : Service ι) : Prop extends Grows codec providers s t where
  own : own i t.log = own i s.log

variable (codec providers) in
def Acts (j : ι) (s t : Service ι) : Prop := ∀ i, i ≠ j → Beside codec providers i s t

variable (codec providers) in
def At (i : ι) (acts : List Act) (s : Service ι) : Prop :=
  Sound codec providers s ∧ own i s.log = acts

variable {acts : List Act}

instance : IsPreorder (Service ι) (Beside codec providers i) where
  refl _ := ⟨⟨List.prefix_refl _, Nat.le_refl _, id⟩, rfl⟩
  trans _ _ _ h h' := ⟨⟨h.log.trans h'.log, h.now.trans h'.now, h'.sound ∘ h.sound⟩,
    h'.own.trans h.own⟩

theorem At.beside (h : At codec providers i acts s) (hb : Beside codec providers i s t) :
    At codec providers i acts t := ⟨hb.sound h.1, hb.own.trans h.2⟩

theorem Service.Elapses.beside (h : Service.Elapses s t) : Beside codec providers i s t := by
  cases h with
  | time ht =>
    refine ⟨⟨List.prefix_refl _, ht, fun hs => ?_⟩, rfl⟩
    exact hs.shrink (List.prefix_refl _) ht fun _ _ he => he
  | purge =>
    refine ⟨⟨List.prefix_refl _, Nat.le_refl _, fun hs => ?_⟩, rfl⟩
    exact hs.shrink (List.prefix_refl _) (Nat.le_refl _) fun _ _ he => (lookup_retain.mp he).1

theorem acts_record (hg : Grows codec providers s (t.record i a)) (hlog : t.log = s.log)
    (h : At codec providers i acts s) : Acts codec providers i s (t.record i a) ∧
      At codec providers i (acts ++ [a]) (t.record i a) := by
  constructor
  · intro j hj
    exact ⟨hg, by rw [own_record_ne hj, hlog]⟩
  · exact ⟨hg.sound h.1, by rw [own_record_self, hlog, h.2]⟩

omit [DecidableEq ι] in
theorem grows_record : Grows codec providers s (s.record i a) where
  log := List.prefix_append s.log _
  now := Nat.le_refl _
  sound hs := hs.shrink (List.prefix_append s.log _) (Nat.le_refl _) fun _ _ he => he

omit [DecidableEq ι] in
theorem grows_insert (items : List (Item Key Entry))
    (hret : Returned codec providers name type m s.log) :
    Grows codec providers s ({ s with
      cache := (s.cache.insertAt items (Key.new name type) m s.now).2 }.record i
        (.inserted (Key.new name type) m s.now
          (s.cache.insertAt items (Key.new name type) m s.now).1)) where
  log := List.prefix_append s.log _
  now := Nat.le_refl _
  sound hs := hs.insert hret

/-! ### One call -/

variable {query : Message} {body : Bytes} {upstream : Upstream} {upstreams : List Upstream}
  {tried : Nat} {last : Option ResolveError} {answer : Answer}

theorem tryUpstreams_cons (hbody : codec.toVec query = .ok body) :
    tryUpstreams codec query tried last (upstream :: upstreams) =
      .op (.post upstream body) fun answer => match readResponse codec upstream answer with
        | .ok m =>
          if m.responseCode = .servFail then
            tryUpstreams codec query tried (some (.httpStatus upstream.provider.name 502)) upstreams
          else .done (.ok m)
        | .error err => tryUpstreams codec query tried (some err) upstreams := by
  rw [tryUpstreams, queryOne, hbody]
  rfl

theorem tryUpstreams_unsendable {err : ProtoError} (h : codec.toVec query = .error err)
    (tried : Nat) (last : Option ResolveError) (upstreams : List Upstream) :
    ∃ e, tryUpstreams codec query tried last upstreams = .done (.error e) := by
  induction upstreams generalizing last with
  | nil => exact ⟨_, rfl⟩
  | cons upstream upstreams ih =>
    rw [tryUpstreams, queryOne, h]
    exact ih _

theorem resolve_eq (d : DohResolver) : (d.resolve codec name type).run =
    .op (.cacheGet (Key.new name type)) fun hit => match hit with
      | some m => .done (.ok m)
      | none => tryUpstreams codec (buildQuery name type) d.upstreams.length none d.upstreams >>=
        fun r => match r with
          | .ok m => .op (.cacheInsert (Key.new name type) m) fun _ => .done (.ok m)
          | .error e => .done (.error e) := by
  change Prog.op _ _ = _
  congr 1
  funext hit
  cases hit with
  | some m => rfl
  | none =>
    change ExceptT.run (_ >>= _) = _
    rw [ExceptT.run_bind]
    congr 1
    funext r
    cases r <;> rfl

omit [DecidableEq ι] in
/-- A call that the cache does not answer but the first provider does; it can be left alone between
the one and the other. -/
theorem exists_fetching (upstreams : List Upstream)
    (hbody : codec.toVec (buildQuery name type) = .ok body)
    (hread : readResponse codec upstream answer = .ok m) (hcode : m.responseCode ≠ .servFail) :
    ∃ fetching : Prog ResolverOp ResolverOp.Ret (Except ResolveError Message),
      ∀ F : Env ResolverOp ResolverOp.Ret (Service ι),
        (∀ s t, F (.cacheGet (Key.new name type)) s none t → Prog.Visits F
          (DohResolver.resolve codec ⟨upstream :: upstreams⟩ name type).run s fetching t) ∧
        ∀ s t u, F (.post upstream body) s answer t →
          F (.cacheInsert (Key.new name type) m) t () u →
          Prog.Visits F fetching s (.done (.ok m)) u := by
  rw [resolve_eq]
  refine ⟨_, fun F => ⟨fun s t hget => .step hget .refl, fun s t u hpost hinsert => ?_⟩⟩
  simp only
  rw [tryUpstreams_cons hbody]
  refine .step hpost ?_
  simp only [hread, if_neg hcode]
  exact .step hinsert .refl

omit [DecidableEq ι] in
theorem visits_fetched {F : Env ResolverOp ResolverOp.Ret (Service ι)} {s₁ s₂ s₃ : Service ι}
    (hget : F (.cacheGet (Key.new name type)) s none s₁)
    (hbody : codec.toVec (buildQuery name type) = .ok body)
    (hpost : F (.post upstream body) s₁ answer s₂)
    (hread : readResponse codec upstream answer = .ok m) (hcode : m.responseCode ≠ .servFail)
    (hinsert : F (.cacheInsert (Key.new name type) m) s₂ () s₃) :
    Prog.Visits F (DohResolver.resolve codec ⟨upstream :: upstreams⟩ name type).run s
      (.done (.ok m)) s₃ := by
  obtain ⟨fetching, hvisits⟩ := exists_fetching (ι := ι) upstreams hbody hread hcode
  obtain ⟨hasks, hends⟩ := hvisits F
  exact (hasks s s₁ hget).trans (hends s₁ s₂ s₃ hpost hinsert)

omit [DecidableEq ι] in
theorem visits_cached {F : Env ResolverOp ResolverOp.Ret (Service ι)} {d : DohResolver}
    (hget : F (.cacheGet (Key.new name type)) s (some m) t) :
    Prog.Visits F (d.resolve codec name type).run s (.done (.ok m)) t := by
  rw [resolve_eq]
  exact .step hget .refl

variable (codec providers) in
def Tried (i : ι) (body : Bytes) (upstreams : List Upstream) (acts : List Act) :
    Except ResolveError Message → Service ι → Prop
  | .ok m, s => ∃ (failed : List (Upstream × Answer)) (upstream : Upstream) (answer : Answer)
    (untried : List Upstream),
    upstreams = failed.map Prod.fst ++ upstream :: untried ∧ (∀ x ∈ failed, Failed codec x) ∧
      readResponse codec upstream answer = .ok m ∧ m.responseCode ≠ .servFail ∧
        At codec providers i (acts ++ failed.map (asked body) ++ [.posted upstream body answer]) s
  | .error _, s => ∃ failed : List (Upstream × Answer),
    upstreams = failed.map Prod.fst ∧ (∀ x ∈ failed, Failed codec x) ∧
      At codec providers i (acts ++ failed.map (asked body)) s

variable {r : Except ResolveError Message}

theorem Tried.beside (h : Tried codec providers i body upstreams acts r s)
    (hb : Beside codec providers i s t) : Tried codec providers i body upstreams acts r t := by
  cases r with
  | ok m =>
    obtain ⟨failed, upstream, answer, untried, heq, hfailed, hread, hcode, hat⟩ := h
    exact ⟨failed, upstream, answer, untried, heq, hfailed, hread, hcode, hat.beside hb⟩
  | error e =>
    obtain ⟨failed, heq, hfailed, hat⟩ := h
    exact ⟨failed, heq, hfailed, hat.beside hb⟩

theorem Tried.skip (hx : Failed codec (upstream, answer))
    (h : Tried codec providers i body upstreams (acts ++ [.posted upstream body answer]) r s) :
    Tried codec providers i body (upstream :: upstreams) acts r s := by
  cases r with
  | ok m =>
    obtain ⟨failed, upstream', answer', untried, heq, hfailed, hread, hcode, hat⟩ := h
    refine ⟨(upstream, answer) :: failed, upstream', answer', untried, by rw [heq]; rfl,
      List.forall_mem_cons.mpr ⟨hx, hfailed⟩, hread, hcode, ?_⟩
    simpa [asked] using hat
  | error e =>
    obtain ⟨failed, heq, hfailed, hat⟩ := h
    refine ⟨(upstream, answer) :: failed, by rw [heq]; rfl,
      List.forall_mem_cons.mpr ⟨hx, hfailed⟩, ?_⟩
    simpa [asked] using hat

theorem tryUpstreams_assures (hbody : codec.toVec query = .ok body)
    (h : At codec providers i acts s) :
    (tryUpstreams codec query tried last upstreams).Assures (Service.answers i)
      (Beside codec providers i) (Acts codec providers i)
      (Tried codec providers i body upstreams acts) s := by
  induction upstreams generalizing last acts s with
  | nil =>
    intro s' hs
    refine ⟨[], rfl, nofun, ?_⟩
    simpa using h.beside hs
  | cons upstream upstreams ih =>
    rw [tryUpstreams_cons hbody]
    intro s' hs answer t he
    obtain rfl : t = s'.record i (.posted upstream body answer) := he
    obtain ⟨hacts, hat⟩ := acts_record grows_record rfl (h.beside hs)
    refine ⟨hacts, ?_⟩
    -- a provider that fails or answers SERVFAIL is passed over
    have hnext (hx : Failed codec (upstream, answer)) (last' : Option ResolveError) :
        (tryUpstreams codec query tried last' upstreams).Assures (Service.answers i)
          (Beside codec providers i) (Acts codec providers i)
          (Tried codec providers i body (upstream :: upstreams) acts)
          (s'.record i (.posted upstream body answer)) :=
      (ih hat).mono fun r t ht => ht.skip hx
    beta_reduce
    cases hread : readResponse codec upstream answer with
    | error err =>
      apply hnext
      intro m hm
      rw [hread] at hm
      cases hm
    | ok m =>
      by_cases hcode : m.responseCode = .servFail
      · simp only [if_pos hcode]
        apply hnext
        intro m' hm
        rw [hread] at hm
        cases hm
        exact hcode
      · simp only [if_neg hcode]
        intro t ht
        refine ⟨[], upstream, answer, upstreams, rfl, nofun, hread, hcode, ?_⟩
        simpa using hat.beside ht

theorem At.returned (h : At codec providers i acts s)
    (hmem : Act.posted upstream body answer ∈ acts) (hp : upstream.provider ∈ providers)
    (hbody : codec.toVec (buildQuery name type) = .ok body)
    (hread : readResponse codec upstream answer = .ok m) :
    Returned codec providers name type m s.log := by
  rw [← h.2] at hmem
  exact ⟨i, name, upstream, body, answer, hp, rfl, hbody, mem_own.mp hmem, hread⟩

theorem At.cached (h : At codec providers i [.lookedUp (Key.new name type) s.now (some m)] t)
    (hs : Sound codec providers s) (hlog : s.log <+: t.log) (hnow : s.now ≤ t.now)
    (hhit : s.cache.getAt (Key.new name type) s.now = some m) :
    Answered codec providers i name type t.log (.ok m) := by
  obtain ⟨e, hl, hlt, hm⟩ := getAt_eq_some.mp hhit
  have hback := hs _ e hl
  obtain ⟨j, hj⟩ := (hback.later hlog hnow).inserted
  obtain ⟨name', type', hkey, hret⟩ := (hback.later hlog hnow).returned
  have hmax : e.ttl ≤ 3600 * SECOND := hback.lifetime.le
  have hcode : m.responseCode = e.message.responseCode := by rw [hm]
  have hlow : e.message.Lowered ((s.now - e.storedAt) / SECOND) m := by
    refine (message_lowered_iff ?_).mpr hm
    unfold SECOND at *
    omega
  exact .cached e.message m e.storedAt s.now e.ttl j (hcode ▸ hback.lifetime.code) h.2 hj
    hback.stored hlt hmax (hret.congr hkey.symm) hlow

/-- Whatever happens beside it, a call comes to an answer as described. -/
theorem resolve_assures {d : DohResolver} (hd : d.upstreams.map Upstream.provider = providers)
    (h : At codec providers i [] s) :
    (d.resolve codec name type).run.Assures (Service.answers i) (Beside codec providers i)
      (Acts codec providers i) (fun r t => Answered codec providers i name type t.log r) s := by
  rw [resolve_eq]
  intro s' hs hit t he
  obtain ⟨hhit, rfl⟩ := he
  obtain ⟨hacts, hat⟩ := acts_record grows_record rfl (h.beside hs)
  refine ⟨hacts, ?_⟩
  cases hit with
  | some m =>
    intro t ht
    exact (hat.beside ht).cached (h.beside hs).1 ((List.prefix_append s'.log _).trans ht.log)
      ht.now hhit.symm
  | none =>
    cases hbody : codec.toVec (buildQuery name type) with
    | error err =>
      obtain ⟨e, he⟩ := tryUpstreams_unsendable hbody d.upstreams.length none d.upstreams
      simp only [he]
      intro t ht
      exact .unsendable e s'.now err hbody (hat.beside ht).2
    | ok body =>
      apply Prog.assures_bind (tryUpstreams_assures hbody hat)
      intro r t hr
      cases r with
      | error e =>
        intro t' ht
        obtain ⟨failed, heq, hfailed, hat'⟩ := hr.beside ht
        refine .refused e s'.now body failed ?_ hbody hfailed hat'.2
        rw [← hd, heq, List.map_map]
        rfl
      | ok m =>
        intro s'' hs' _ t' he
        obtain ⟨failed, upstream, answer, untried, heq, hfailed, hread, hcode, hat'⟩ :=
          hr.beside hs'
        obtain ⟨items, -, rfl⟩ := he
        have hp : upstream.provider ∈ providers := by
          rw [← hd, heq]
          simp
        have hret := hat'.returned (by simp) hp hbody hread
        obtain ⟨hacts', hat''⟩ := acts_record (grows_insert items hret) rfl hat'
        refine ⟨hacts', fun t ht => ?_⟩
        refine .fetched m s'.now s''.now
          (s''.cache.insertAt items (Key.new name type) m s''.now).1 body failed upstream answer
          (untried.map Upstream.provider) hcode ?_ hbody hfailed hread ?_
        · rw [← hd, heq]
          simp
        · refine (hat''.beside ht).2.trans ?_
          simp

/-! ### Every run -/

theorem withCapacity_upstreams {build : Client → Except ReqwestError Unit} {capacity : Nat}
    {d : DohResolver} {cache : Cache}
    (h : DohResolver.withCapacity build providers capacity = .ok (d, cache)) :
    d.upstreams.map Upstream.provider = providers ∧ cache = Cache.new capacity := by
  obtain ⟨hpinned, hcache⟩ := DohResolver.withCapacity_eq_ok h
  refine ⟨?_, hcache⟩
  clear h
  generalize d.upstreams = us at hpinned
  induction hpinned with
  | nil => rfl
  | cons hu _ ih =>
    obtain ⟨host, -, rfl⟩ := Provider.pinned_eq_ok hu
    rw [List.map_cons, ih]

def calling (codec : Codec) (d : DohResolver) (calls : ι → Name × RecordType) (cache : Cache)
    (now : Nat) :
    Pool ι ResolverOp ResolverOp.Ret (Except ResolveError Message) (Service ι) :=
  Pool.start (fun i => (d.resolve codec (calls i).1 (calls i).2).run) ⟨cache, now, []⟩

theorem resolve_answered {build : Client → Except ReqwestError Unit} {capacity now : Nat}
    {d : DohResolver} {cache : Cache} {calls : ι → Name × RecordType}
    {p : Pool ι ResolverOp ResolverOp.Ret (Except ResolveError Message) (Service ι)}
    (hnew : DohResolver.withCapacity build providers capacity = .ok (d, cache))
    (hr : Pool.Runs Service.answers Service.Elapses (calling codec d calls cache now) p)
    (hp : p.prog i = .done r) :
    Answered codec providers i (calls i).1 (calls i).2 p.state.log r := by
  obtain ⟨hd, rfl⟩ := withCapacity_upstreams hnew
  have hstart : (calling codec d calls (Cache.new capacity) now).Assured Service.answers
      (Beside codec providers) (Acts codec providers)
      fun i r t => Answered codec providers i (calls i).1 (calls i).2 t.log r :=
    fun i => resolve_assures hd ⟨sound_new, rfl⟩
  exact (hstart.runs (fun _ _ _ hb => hb.beside) (fun _ _ _ _ hij hg => hg _ hij) hr).done hp

def plainProvider : Provider := ⟨"p".toList, "https://example.com/dns-query".toList, []⟩

def plainUpstream : Upstream := ⟨plainProvider, ⟨none⟩⟩

def plainQueryBytes : Bytes :=
  [0, 0, 1, 0, 0, 1, 0, 0, 0, 0, 0, 0, 7] ++ ascii "example" ++ [3] ++ ascii "com" ++
    [0, 0, 1, 0, 1]

def plainRecordBytes (last : UInt8) : Bytes :=
  [7] ++ ascii "example" ++ [3] ++ ascii "com" ++
    [0, 0, 1, 0, 1, 0, 0, 1, 44, 0, 4, 93, 184, 216, last]

def plainResponseBytes : Bytes :=
  [0, 0, 128, 0, 0, 0, 0, 1, 0, 0, 0, 1] ++ plainRecordBytes 34 ++ plainRecordBytes 35

def plainCodec : Codec where
  toVec m := if m = buildQuery plainName 1 then .ok plainQueryBytes else .ok plainResponseBytes
  fromBytes b :=
    if b = plainQueryBytes then .ok (buildQuery plainName 1)
    else if b = plainResponseBytes then .ok plainResponse
    else .error "unexpected end of input reached"

def plainAnswer : Answer := .ok ⟨200, some DNS_MESSAGE, .ok plainResponseBytes⟩

def plainLog : List (Bool × Act) :=
  [(false, .lookedUp (Key.new plainName 1) 0 none),
    (true, .lookedUp (Key.new plainName 1) 0 none),
    (true, .posted plainUpstream plainQueryBytes plainAnswer),
    (true, .inserted (Key.new plainName 1) plainResponse 0 (some (300 * SECOND))),
    (false, .posted plainUpstream plainQueryBytes plainAnswer),
    (false, .inserted (Key.new plainName 1) plainResponse 0 (some (300 * SECOND)))]

def Service.fetched (s : Service ι) (i : ι) : Service ι := { s with
  cache := (s.cache.insertAt s.cache.entries.entries (Key.new plainName 1) plainResponse s.now).2
  log := s.log ++ [(i, .posted plainUpstream plainQueryBytes plainAnswer),
    (i, .inserted (Key.new plainName 1) plainResponse s.now (some (300 * SECOND)))] }

omit [DecidableEq ι] in
theorem plain_fetching : ∃ fetching : Prog ResolverOp ResolverOp.Ret (Except ResolveError Message),
    ∀ i : ι, (∀ s : Service ι, s.cache.getAt (Key.new plainName 1) s.now = none →
      Prog.Visits (Service.answers i)
        (DohResolver.resolve plainCodec ⟨[plainUpstream]⟩ plainName 1).run s fetching
        (s.record i (.lookedUp (Key.new plainName 1) s.now none))) ∧
      ∀ s, Prog.Visits (Service.answers i) fetching s (.done (.ok plainResponse))
        (s.fetched i) := by
  have hbody : plainCodec.toVec (buildQuery plainName 1) = .ok plainQueryBytes := by
    simp only [plainCodec, if_true]
  have hread : readResponse plainCodec plainUpstream plainAnswer = .ok plainResponse := by
    decide +kernel
  have hcode : plainResponse.responseCode ≠ .servFail := by decide
  obtain ⟨fetching, hvisits⟩ := exists_fetching (ι := ι) [] hbody hread hcode
  refine ⟨fetching, fun i => ?_⟩
  obtain ⟨hasks, hends⟩ := hvisits (Service.answers i)
  refine ⟨fun s hmiss => hasks s _ ⟨hmiss.symm, rfl⟩, fun s => hends s _ _ rfl ?_⟩
  refine ⟨s.cache.entries.entries, .refl _, ?_⟩
  simp [Service.fetched, Service.record, plainResponse_accepted]

theorem plain_answered :
    Answered plainCodec [plainProvider] false plainName 1 plainLog (.ok plainResponse) ∧
      Answered plainCodec [plainProvider] true plainName 1 plainLog (.ok plainResponse) := by
  obtain ⟨fetching, hvisits⟩ := plain_fetching (ι := Bool)
  have hmiss : (Cache.new 1).getAt (Key.new plainName 1) 0 = none := by decide +kernel
  obtain ⟨p, hr, hfirst, hsecond, hs⟩ := Pool.exists_runs_around (B := Service.Elapses)
    (p := calling plainCodec ⟨[plainUpstream]⟩ (fun _ : Bool => (plainName, 1)) (Cache.new 1) 0)
    (i := false) (j := true) (by decide) ((hvisits false).1 _ hmiss)
    (((hvisits true).1 _ hmiss).trans ((hvisits true).2 _)) ((hvisits false).2 _)
  have hnew : DohResolver.withCapacity (fun _ => .ok ()) [plainProvider] 1 =
      .ok (⟨[plainUpstream]⟩, Cache.new 1) := rfl
  have hlog : p.state.log = plainLog := by
    rw [hs]
    rfl
  rw [← hlog]
  exact ⟨resolve_answered hnew hr hfirst, resolve_answered hnew hr hsecond⟩

end Detour.Core
