import Detour.Lib.Interleave
import Detour.ResolvConf.Runs

/-! Two helpers that take over at the same time. -/

namespace Detour.ResolvConf

open Atomic Detour.Rust ResolvManager

variable {links : OsPath → Option ByteArray} {m : ResolvManager} {fs : Fs} {text : String}
  {procs : ProcTable}

structure Helper where
  pid : Pid
  now : UInt64
  listenAddr : IpAddr

def Helper.takeOver (m : ResolvManager) (x : Helper) :
    Prog SysOp SysOp.Ret (Except Stop TakeoverState) :=
  (m.takeOver x.pid x.now x.listenAddr).run

abbrev Race := Pool Bool SysOp SysOp.Ret (Except Stop TakeoverState) Fs

def race (m : ResolvManager) (helpers : Bool → Helper) (fs : Fs) : Race :=
  Pool.start (fun i => (helpers i).takeOver m) fs

/-- A helper reads `state.json` only when a takeover is recorded there, or the other helper has
not begun, or the other helper is through. -/
def readsAlone (p : Race) (i : Bool) : Prop :=
  (p.prog i).next = some .readState →
    p.state.state ≠ none ∨ p.taken (!i) = [] ∨ (p.prog (!i)).next = none

/-! ### One helper alone -/

structure Base (m : ResolvManager) (links : OsPath → Option ByteArray) (text : String)
    (fs : Fs) : Prop where
  state : fs.state = none
  reads : fs.readText links = .ok text
  original : ¬fs.isTakenOver m links

def Under (m : ResolvManager) (links : OsPath → Option ByteArray) (text : String) (x : Helper)
    (fs : Fs) : Prop :=
  Base m links text fs ∨
    (∃ s, fs.state = some (.json s) ∧ s.pid = x.pid.raw) ∧ fs.backup = some text.toByteArray

theorem Base.of_resolv {fs' : Fs} (h : Base m links text fs) (hr : fs'.resolv = fs.resolv)
    (hs : fs'.state = none) : Base m links text fs' where
  state := hs
  reads := (readText_congr hr).trans h.reads
  original := by
    rw [Fs.isTakenOver, Fs.contents, hr]
    exact h.original

theorem Base.crash (h : Base m links text fs) (x : Helper) (n : Nat) :
    Under m links text x ((x.takeOver m).after (handler ⟨procs, links⟩) n fs).2 := by
  have hreads : fs.readText (Env.links ⟨procs, links⟩) = .ok text := h.reads
  have hstages : ∀ d, d <+: m.redirectWrites x.pid x.now x.listenAddr fs text →
      Under m links text x (exec (handler ⟨procs, links⟩) d fs) := by
    refine redirect_stages (P := fun _ fs' => Under m links text x fs')
      ?start ?dir ?backup ?dropin ?record ?redirected
    case start => exact .inl h
    case dir => exact .inl (h.of_resolv rfl (by simpa using h.state))
    case backup => exact .inl (h.of_resolv rfl h.state)
    case dropin => exact fun _ => .inl (h.of_resolv rfl h.state)
    case record => exact .inr ⟨⟨_, rfl, rfl⟩, rfl⟩
    case redirected => exact .inr ⟨⟨_, rfl, rfl⟩, rfl⟩
  change Under m links text x ((x.takeOver m).crash (handler ⟨procs, links⟩) n fs)
  rw [crash_eq_exec_filter]
  apply hstages
  refine ((List.take_prefix n _).filter _).trans ?_
  rw [Helper.takeOver, takeOver_trace_fresh h.state,
    List.filter_cons_of_neg (by simp [SysOp.modifies])]
  exact redirect_trace_filter hreads

theorem Base.takeOver (h : Base m links text fs) (x : Helper) :
    (∃ s fs', (x.takeOver m).run (handler ⟨procs, links⟩) fs = (.ok s, fs') ∧
      fs'.state ≠ none) ∨
    ∃ e fs', (x.takeOver m).run (handler ⟨procs, links⟩) fs = (.error e, fs') ∧
      Base m links text fs' := by
  have hreads : fs.readText (Env.links ⟨procs, links⟩) = .ok text := h.reads
  rw [Helper.takeOver, takeOver_run_fresh h.state]
  cases hl : fs.linkIsText with
  | true => exact .inl ⟨_, _, redirect_run hreads hl, nofun⟩
  | false => exact .inr ⟨_, _, redirect_run_panic hreads hl, h.of_resolv rfl h.state⟩

/-! ### A helper that is refused -/

inductive Refusing (procs : ProcTable) : Prog SysOp SysOp.Ret (Except Stop TakeoverState) → Prop
  | asks {pid : Int} {k : Bool → Prog SysOp SysOp.Ret (Except Stop TakeoverState)} {e : Stop}
      (alive : procs.kill pid = true) (refuses : k true = .done (.error e)) :
      Refusing procs (.op (.kill pid) k)
  | refused (e : Stop) : Refusing procs (.done (.error e))

theorem takeOver_reads {s : TakeoverState} (x : Helper) (hs : fs.state = some (.json s))
    (ha : alive procs s.pid = true) :
    Refusing procs ((x.takeOver m).after (handler ⟨procs, links⟩) 1 fs).1 := by
  have ha' : s.pid ≠ 0 ∧ procs.kill (asPidT s.pid) = true := by simpa [alive] using ha
  have halive : processIsAlive s.pid = sys (.kill (asPidT s.pid)) := if_neg ha'.1
  have hprog : ((x.takeOver m).after (handler ⟨procs, links⟩) 1 fs).1 = ExceptT.run (do
      (do
        if ← processIsAlive s.pid then fail (.alreadyActive s.pid)
        m.restore)
      m.redirect x.pid x.now x.listenAddr) := by
    obtain ⟨resolv, stateDir, nm⟩ := fs
    obtain ⟨d, rfl, hd⟩ := Option.bind_eq_some_iff.mp hs
    obtain ⟨b, _⟩ := d
    cases hd
    rfl
  rw [hprog, halive]
  exact .asks ha'.2 rfl

/-! ### The race -/

inductive Other (m : ResolvManager) (helpers : Bool → Helper) (procs : ProcTable) (p : Race)
    (i : Bool) : Prop
  | waiting (prog : p.prog (!i) = (helpers (!i)).takeOver m) (taken : p.taken (!i) = [])
  | refusing (refusing : Refusing procs (p.prog (!i)))

structure Phase (m : ResolvManager) (links : OsPath → Option ByteArray) (helpers : Bool → Helper)
    (procs : ProcTable) (text : String) (p : Race) (i : Bool) (fs : Fs) (n : Nat) : Prop where
  base : Base m links text fs
  alone : (p.prog i, p.state) =
    ((helpers i).takeOver m).after (handler ⟨procs, links⟩) n fs
  begun : p.taken i = [] → n = 0
  other : Other m helpers procs p i

variable {helpers : Bool → Helper} {p : Race} {i : Bool} {n : Nat}

theorem Phase.under (h : Phase m links helpers procs text p i fs n) :
    Under m links text (helpers i) p.state := by
  have hstate : p.state = _ := congrArg Prod.snd h.alone
  rw [hstate]
  exact h.base.crash (helpers i) n

theorem Phase.step_self (h : Phase m links helpers procs text p i fs n) :
    Phase m links helpers procs text (p.step (handler ⟨procs, links⟩) i) i fs (n + 1) ∨
      p.step (handler ⟨procs, links⟩) i = p := by
  cases hp : p.prog i with
  | done r => exact .inr (Pool.step_of_done hp)
  | op o k =>
    left
    have hne : (!i) ≠ i := by simp
    constructor
    case base => exact h.base
    case alone =>
      rw [Pool.step_self, Prog.after_add, ← h.alone]
    case begun =>
      rw [Pool.step_of_op hp]
      simp
    case other =>
      cases h.other with
      | waiting prog taken =>
        exact .waiting ((Pool.step_prog_ne hne).trans prog) ((Pool.step_taken_ne hne).trans taken)
      | refusing refusing =>
        refine .refusing ?_
        rw [Pool.step_prog_ne hne]
        exact refusing

theorem Refusing.step (hr : Refusing procs (p.prog i)) :
    Refusing procs ((p.step (handler ⟨procs, links⟩) i).prog i) ∧
      (p.step (handler ⟨procs, links⟩) i).state = p.state := by
  rw [Pool.step_prog_self, Pool.step_state]
  generalize p.prog i = q at hr ⊢
  cases hr with
  | refused e => exact ⟨.refused e, rfl⟩
  | @asks pid k e halive hrefuses =>
    have hanswer : k (procs.kill pid) = .done (.error e) := by rw [halive, hrefuses]
    refine ⟨?_, rfl⟩
    change Refusing procs (k (procs.kill pid))
    rw [hanswer]
    exact .refused e

theorem Phase.refuse (h : Phase m links helpers procs text p i fs n)
    (hr : Refusing procs ((p.step (handler ⟨procs, links⟩) (!i)).prog (!i)))
    (hs : (p.step (handler ⟨procs, links⟩) (!i)).state = p.state) :
    Phase m links helpers procs text (p.step (handler ⟨procs, links⟩) (!i)) i fs n where
  base := h.base
  alone := by
    rw [hs, Pool.step_prog_ne (by simp)]
    exact h.alone
  begun := by
    rw [Pool.step_taken_ne (by simp)]
    exact h.begun
  other := .refusing hr

theorem Phase.begin {fs' : Fs} (hbase : Base m links text fs') (hstate : p.state = fs')
    (hprog : p.prog (!i) = (helpers (!i)).takeOver m)
    (hother : p.prog i = (helpers i).takeOver m ∧ p.taken i = [] ∨ Refusing procs (p.prog i)) :
    Phase m links helpers procs text (p.step (handler ⟨procs, links⟩) (!i)) (!i) fs' 1 where
  base := hbase
  alone := by rw [Pool.step_self, hprog, hstate]
  begun := by
    have hop : ∃ k, p.prog (!i) = .op .readState k := ⟨_, hprog⟩
    obtain ⟨k, hk⟩ := hop
    rw [Pool.step_of_op hk]
    simp
  other := by
    have hne : (!!i) ≠ (!i) := by simp
    cases hother with
    | inl hw =>
      refine .waiting ?_ ?_
      · rw [Pool.step_prog_ne hne, Bool.not_not]
        exact hw.1
      · rw [Pool.step_taken_ne hne, Bool.not_not]
        exact hw.2
    | inr hr =>
      refine .refusing ?_
      rw [Pool.step_prog_ne hne, Bool.not_not]
      exact hr

theorem Phase.step_recorded (h : Phase m links helpers procs text p i fs n)
    (halive : alive procs (helpers i).pid.raw = true) (hstate : p.state.state ≠ none)
    (hprog : p.prog (!i) = (helpers (!i)).takeOver m) :
    Phase m links helpers procs text (p.step (handler ⟨procs, links⟩) (!i)) i fs n := by
  cases h.under with
  | inl hbase => exact absurd hbase.state hstate
  | inr hrec =>
    obtain ⟨⟨s, hs, hpid⟩, -⟩ := hrec
    apply h.refuse
    · rw [Pool.step_prog_self, hprog]
      exact takeOver_reads _ hs (hpid ▸ halive)
    · rw [Pool.step_state, hprog]
      rfl

def Orderly (m : ResolvManager) (links : OsPath → Option ByteArray) (helpers : Bool → Helper)
    (procs : ProcTable) (text : String) (p : Race) : Prop :=
  ∃ i fs n, Phase m links helpers procs text p i fs n

theorem Phase.step_other (h : Phase m links helpers procs text p i fs n)
    (halive : ∀ i, alive procs (helpers i).pid.raw = true) (hguard : readsAlone p (!i)) :
    Orderly m links helpers procs text (p.step (handler ⟨procs, links⟩) (!i)) := by
  cases h.other with
  | refusing hr => exact ⟨_, _, _, h.refuse hr.step.1 hr.step.2⟩
  | waiting prog taken =>
    have hnext : (p.prog (!i)).next = some .readState := by rw [prog]; rfl
    cases hguard hnext with
    | inl hstate => exact ⟨_, _, _, h.step_recorded (halive i) hstate prog⟩
    | inr hrest =>
      rw [Bool.not_not] at hrest
      cases hrest with
      | inl htaken =>
        obtain rfl := h.begun htaken
        have hprog : p.prog i = (helpers i).takeOver m := congrArg Prod.fst h.alone
        have hstate : p.state = fs := congrArg Prod.snd h.alone
        exact ⟨!i, _, _, .begin h.base hstate prog (.inl ⟨hprog, htaken⟩)⟩
      | inr hdone =>
        obtain ⟨r, hr⟩ := Prog.eq_done_of_next hdone
        have hafter : ((helpers i).takeOver m).after (handler ⟨procs, links⟩) n fs =
            (.done r, p.state) := by rw [← h.alone, hr]
        have hrun := Prog.run_of_after_done (congrArg Prod.fst hafter)
        rw [hafter] at hrun
        cases h.base.takeOver (helpers i) with
        | inl hok =>
          obtain ⟨s, fs', hok, hstate⟩ := hok
          cases hrun.symm.trans hok
          exact ⟨_, _, _, h.step_recorded (halive i) hstate prog⟩
        | inr herror =>
          obtain ⟨e, fs', herror, hbase⟩ := herror
          cases hrun.symm.trans herror
          have hrefused : Refusing procs (p.prog i) := by
            rw [hr]
            exact .refused e
          exact ⟨!i, _, _, .begin hbase rfl prog (.inr hrefused)⟩

theorem orderly_race (h : Base m links text fs) :
    Orderly m links helpers procs text (race m helpers fs) :=
  ⟨true, fs, 0, h, rfl, fun _ => rfl, .waiting rfl rfl⟩

theorem Orderly.step (halive : ∀ i, alive procs (helpers i).pid.raw = true) (p : Race) (j : Bool)
    (h : Orderly m links helpers procs text p) (hguard : readsAlone p j) :
    Orderly m links helpers procs text (p.step (handler ⟨procs, links⟩) j) := by
  obtain ⟨i, fs, n, hphase⟩ := h
  by_cases hij : j = i
  · subst hij
    cases hphase.step_self with
    | inl hnext => exact ⟨j, fs, n + 1, hnext⟩
    | inr hsame =>
      rw [hsame]
      exact ⟨j, fs, n, hphase⟩
  · obtain rfl : j = !i := by
      cases i <;> cases j <;> simp at hij ⊢
    exact hphase.step_other halive hguard

theorem Phase.other_not_ok (h : Phase m links helpers procs text p i fs n)
    (s : TakeoverState) : p.prog (!i) ≠ .done (.ok s) := by
  intro hok
  cases h.other with
  | waiting prog taken =>
    rw [prog] at hok
    cases congrArg Prog.next hok
  | refusing hr =>
    rw [hok] at hr
    cases hr

/-- Two helpers that read the record one after the other never both take over, and the backup
is the original whenever `resolv.conf` is a takeover file. -/
theorem takeOvers_keep_original (m : ResolvManager) (u : Untouched links)
    (horiginal : ¬u.fs.isTakenOver m links) (procs : ProcTable) (helpers : Bool → Helper)
    (halive : ∀ i, (procs.holder (helpers i).pid.raw.toNat).isSome) (schedule : List Bool)
    (hguarded : Pool.Guarded readsAlone (handler ⟨procs, links⟩) schedule
      (race m helpers u.fs)) :
    let p := (race m helpers u.fs).run (handler ⟨procs, links⟩) schedule
    (¬∀ i, ∃ s, p.prog i = .done (.ok s)) ∧
    (p.state.isTakenOver m links → p.state.backup = u.fs.contents links ∧
      ∀ listenAddr, p.state.backup ≠ some (m.takeoverBody listenAddr).toByteArray) := by
  intro p
  have hbase : Base m links u.text u.fs := ⟨u.noState, u.reads, horiginal⟩
  have halive' (i : Bool) : alive procs (helpers i).pid.raw = true :=
    (alive_pid procs (helpers i).pid).trans (halive i)
  obtain ⟨i, fs, n, hphase⟩ : Orderly m links helpers procs u.text p :=
    Pool.Guarded.run (Orderly.step halive') (orderly_race hbase) hguarded
  constructor
  · intro hok
    obtain ⟨s, hs⟩ := hok (!i)
    exact hphase.other_not_ok s hs
  · intro htaken
    have hcontents := readText_eq_ok.mp u.reads
    cases hphase.under with
    | inl hidle => exact absurd htaken hidle.original
    | inr hrec =>
      have hbackup : p.state.backup = u.fs.contents links := hrec.2.trans hcontents.symm
      exact ⟨hbackup, fun a ha => horiginal ⟨a, hbackup.symm.trans ha⟩⟩

/-! ### Both read first -/

theorem race_both_read (m : ResolvManager) (helpers : Bool → Helper) (procs : ProcTable)
    (links : OsPath → Option ByteArray) (hs : fs.state = none) :
    let p := (race m helpers fs).run (handler ⟨procs, links⟩) [false, true]
    (∀ i, p.prog i = (m.redirect (helpers i).pid (helpers i).now (helpers i).listenAddr).run) ∧
      p.state = fs := by
  intro p
  have hread (x : Helper) : (x.takeOver m).after (handler ⟨procs, links⟩) 1 fs =
      ((m.redirect x.pid x.now x.listenAddr).run, fs) := by
    obtain ⟨resolv, _ | ⟨b, _ | _⟩, nm⟩ := fs
    · rfl
    · rfl
    · cases hs
  have hstate : ((race m helpers fs).step (handler ⟨procs, links⟩) false).state = fs := by
    rw [Pool.step_state]
    exact congrArg Prod.snd (hread _)
  have hprog : ((race m helpers fs).step (handler ⟨procs, links⟩) false).prog true =
      (helpers true).takeOver m := Pool.step_prog_ne (by simp)
  have hp : p = ((race m helpers fs).step (handler ⟨procs, links⟩) false).step
      (handler ⟨procs, links⟩) true := rfl
  constructor
  · intro i
    cases i with
    | false =>
      rw [hp, Pool.step_prog_ne (by simp), Pool.step_prog_self]
      exact congrArg Prod.fst (hread _)
    | true =>
      rw [hp, Pool.step_prog_self, hstate, hprog]
      exact congrArg Prod.fst (hread _)
  · rw [hp, Pool.step_state, hstate, hprog]
    exact congrArg Prod.snd (hread _)

theorem run_redirect (procs : ProcTable) {p : Race} {x : Helper} (hprog : p.prog i =
      (m.redirect x.pid x.now x.listenAddr).run) (hstate : p.state = fs)
    (hreads : fs.readText links = .ok text) (hl : fs.linkIsText = true)
    (hn : (m.redirectOps x.pid x.now x.listenAddr fs text).length ≤ n) :
    (p.run (handler ⟨procs, links⟩) (List.replicate n i)).prog i =
        .done (.ok (m.recorded x.pid x.now fs text)) ∧
      (p.run (handler ⟨procs, links⟩) (List.replicate n i)).state =
        fs.takenOver m x.pid x.now x.listenAddr text ∧
      ∀ j, j ≠ i → (p.run (handler ⟨procs, links⟩) (List.replicate n i)).prog j = p.prog j := by
  have hreads' : fs.readText (Env.links ⟨procs, links⟩) = .ok text := hreads
  obtain ⟨hself, hother⟩ := Pool.run_replicate (h := handler ⟨procs, links⟩) (i := i) n p
  have hlength : ((m.redirect x.pid x.now x.listenAddr).run.trace
      (handler ⟨procs, links⟩) fs).length ≤ n := by
    rw [redirect_trace hreads' hl]
    exact hn
  rw [hprog, hstate, Prog.after_of_length_le hlength, redirect_run hreads' hl] at hself
  exact ⟨congrArg Prod.fst hself, congrArg Prod.snd hself, fun j hj => (hother j hj).1⟩

def pid1001 : Pid := ⟨1001, by decide, by decide⟩

def twoHelpers : Bool → Helper
  | false => ⟨pid1000, 0, proxyAddr⟩
  | true => ⟨pid1001, 0, proxyAddr⟩

def twoProcs : ProcTable :=
  ⟨fun pid => if pid = 1000 then some 1 else if pid = 1001 then some 2 else none, fun _ => false⟩

/-- Both helpers read that nothing is recorded; then one takes over, and then the other, which
takes the takeover file for the original. -/
def lostRace : Race :=
  (race default twoHelpers plain.fs).run (handler ⟨twoProcs, fun _ => none⟩)
    ([false, true] ++ (List.replicate 9 false ++ List.replicate 9 true))

theorem lostRace_end :
    (∀ i, ∃ s, lostRace.prog i = .done (.ok s)) ∧
    lostRace.state = (plain.fs.takenOver default pid1000 0 proxyAddr plain.text).takenOver
      default pid1001 0 proxyAddr (default.takeoverBody proxyAddr) := by
  obtain ⟨hread, hstate⟩ :=
    race_both_read default twoHelpers twoProcs (fun _ => none) plain.noState
  obtain ⟨hdone, hstate', hother⟩ := run_redirect twoProcs (n := 9) (hread false)
    hstate plain.reads rfl (by decide)
  have htext : (plain.fs.takenOver default pid1000 0 proxyAddr plain.text).readText
      (fun _ => none) = .ok (default.takeoverBody proxyAddr) := readText_eq_ok.mpr rfl
  obtain ⟨hdone', hstate'', hother'⟩ := run_redirect twoProcs (n := 9)
    ((hother true (by decide)).trans (hread true)) hstate' htext rfl (by decide)
  rw [lostRace, Pool.run_append, Pool.run_append]
  refine ⟨?_, hstate''⟩
  intro i
  cases i with
  | false => exact ⟨_, (hother' false (by decide)).trans hdone⟩
  | true => exact ⟨_, hdone'⟩

/-- Both calls succeed, and the backup is a takeover file. -/
theorem lostRace_loses_original :
    (∀ i, ∃ s, lostRace.prog i = .done (.ok s)) ∧
    ¬(lostRace.state.isTakenOver default (fun _ => none) →
      lostRace.state.backup = plain.fs.contents (fun _ => none)) := by
  obtain ⟨hdone, hstate⟩ := lostRace_end
  refine ⟨hdone, ?_⟩
  rw [hstate]
  intro hkeeps
  have hbackup := hkeeps ⟨proxyAddr, rfl⟩
  exact plain_original ⟨proxyAddr, hbackup.symm⟩

theorem guarded_alone (n : Nat) {p : Race} (htaken : p.taken (!i) = []) :
    Pool.Guarded readsAlone (handler ⟨procs, links⟩) (List.replicate n i) p := by
  induction n generalizing p with
  | zero => trivial
  | succ n ih =>
    exact ⟨fun _ => .inr (.inl htaken), ih ((Pool.step_taken_ne (by simp)).trans htaken)⟩

theorem second_helper_keeps_original :
    let p := (race default twoHelpers plain.fs).run (handler ⟨twoProcs, fun _ => none⟩)
      (List.replicate 10 false ++ [true])
    (¬∀ i, ∃ s, p.prog i = .done (.ok s)) ∧
    p.state.backup = plain.fs.contents (fun _ => none) := by
  obtain ⟨hself, hother⟩ := Pool.run_replicate (h := handler ⟨twoProcs, fun _ => none⟩)
    (i := false) 10 (race default twoHelpers plain.fs)
  have hlength : (((race default twoHelpers plain.fs).prog false).trace
      (handler ⟨twoProcs, fun _ => none⟩) plain.fs).length ≤ 10 := by
    change ((default.takeOver pid1000 0 proxyAddr).run.trace _ plain.fs).length ≤ 10
    rw [takeOver_trace_fresh plain.noState, redirect_trace plain.reads rfl]
    decide
  have hstate : ((race default twoHelpers plain.fs).run (handler ⟨twoProcs, fun _ => none⟩)
      (List.replicate 10 false)).state =
        plain.fs.takenOver default pid1000 0 proxyAddr plain.text :=
    (congrArg Prod.snd (hself.trans (Prog.after_of_length_le hlength))).trans
      (congrArg Prod.snd (plain_takeOver twoProcs))
  have hend : ((race default twoHelpers plain.fs).run (handler ⟨twoProcs, fun _ => none⟩)
      (List.replicate 10 false ++ [true])).state =
        plain.fs.takenOver default pid1000 0 proxyAddr plain.text := by
    have hlast (p : Race) : p.run (handler ⟨twoProcs, fun _ => none⟩) [true] =
        p.step (handler ⟨twoProcs, fun _ => none⟩) true := rfl
    rw [Pool.run_append, hlast, Pool.step_state, (hother true (by decide)).1, hstate]
    rfl
  have halive (i : Bool) : (twoProcs.holder (twoHelpers i).pid.raw.toNat).isSome := by
    cases i <;> rfl
  have hguarded : Pool.Guarded readsAlone (handler ⟨twoProcs, fun _ => none⟩)
      (List.replicate 10 false ++ [true]) (race default twoHelpers plain.fs) := by
    rw [Pool.guarded_append]
    refine ⟨guarded_alone 10 rfl, fun _ => .inl ?_, trivial⟩
    rw [hstate]
    exact nofun
  obtain ⟨hnot, hkeeps⟩ := takeOvers_keep_original default plain plain_original twoProcs
    twoHelpers halive (List.replicate 10 false ++ [true]) hguarded
  rw [hend] at hkeeps
  refine ⟨hnot, ?_⟩
  rw [hend]
  exact (hkeeps ⟨proxyAddr, rfl⟩).1

end Detour.ResolvConf
