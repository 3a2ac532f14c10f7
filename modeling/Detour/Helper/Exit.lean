import Detour.Helper.Run

/-! The ways a `run` that has taken over can end, and which of them restore DNS. -/

namespace Detour.Helper

open Atomic Detour.Rust Detour.ResolvConf

/-- What the rest of the system answers; `run` asks for each thing at most once. -/
abbrev Answers := (o : RunOp) → o.Ret

def answering (w : Answers) : Handler RunOp RunOp.Ret Unit := fun o _ => (w o, ())

variable {w : Answers} {cfg : RunConfig} {base : Snapshot}

/-! ### Small steps -/

@[simp] theorem run_ask (o : RunOp) :
    (ExceptT.run (ask o)).run (answering w) () = (.ok (w o), ()) := rfl

@[simp] theorem trace_ask (o : RunOp) : (ExceptT.run (ask o)).trace (answering w) () = [o] := rfl

def resolvOutcome (context : String) : Except Stop α → Except RunStop α
  | .ok a => .ok a
  | .error (.err e) => .error (.err (.resolv context e))
  | .error (.panic message) => .error (.panic message)

@[simp] theorem run_orResolv (context : String) (r : Except Stop α) :
    (ExceptT.run (orResolv context r)).run (answering w) () = (resolvOutcome context r, ()) := by
  rcases r with (_ | _) | _ <;> rfl

@[simp] theorem trace_orResolv (context : String) (r : Except Stop α) :
    (ExceptT.run (orResolv context r)).trace (answering w) () = [] := by
  rcases r with (_ | _) | _ <;> rfl

/-! ### `select!` -/

def readyBranch (w : Answers) (branch : Fin 3) : Option Arm :=
  match branch with
  | 0 => if w .pollCtrlC = .pending then none else some .interrupted
  | 1 => if w .pollSigterm then some .terminated else none
  | 2 => (w .pollServer).map Arm.server

@[simp] theorem pollBranch_run (branch : Fin 3) :
    (ExceptT.run (pollBranch branch)).run (answering w) () = (.ok (readyBranch w branch), ()) := by
  unfold pollBranch readyBranch
  split
  · cases h : w .pollCtrlC <;> simp [answering, h]
  · simp [answering, Except.map]
  · simp [answering, Except.map]

def selected (w : Answers) : Arm :=
  (((readyBranch w (w .selectStart)).or (readyBranch w (w .selectStart + 1))).or
    (readyBranch w (w .selectStart + 2))).getD (w .park)

@[simp] theorem select_run :
    (ExceptT.run select).run (answering w) () = (.ok (selected w), ()) := by
  cases h₀ : readyBranch w (w .selectStart) <;>
    cases h₁ : readyBranch w (w .selectStart + 1) <;>
    cases h₂ : readyBranch w (w .selectStart + 2) <;>
    simp [select, selected, answering, h₀, h₁, h₂]

/-! ### Where `run` takes over, and where it restores -/

def RunOp.quiet : RunOp → Bool
  | .takeOver _ | .restore => false
  | _ => true

theorem quiet_of_selects (o : RunOp) (h : o.selects = true) : o.quiet = true := by
  cases o with
  | takeOver ip => cases h
  | restore => cases h
  | _ => rfl

theorem quiet_ask {o : RunOp} {f : o.Ret → RunM α} (ho : o.quiet = true)
    (hf : ∀ r, (ExceptT.run (f r)).All (·.quiet = true)) :
    (ExceptT.run (ask o >>= f)).All (·.quiet = true) :=
  Fallible.all_bind (Fallible.all_sys ho) hf

theorem startUp_quiet (cfg : RunConfig) : (ExceptT.run (startUp cfg)).All (·.quiet = true) := by
  unfold startUp
  refine Fallible.all_bind (all_parseListen cfg) fun listen => quiet_ask rfl fun r => ?_
  refine Fallible.all_bind (all_orReconciled r) fun _ => quiet_ask rfl fun r => ?_
  refine Fallible.all_bind (all_orResolv _ r) fun original => quiet_ask rfl fun r => ?_
  exact Fallible.all_bind (all_orBuilt r) fun names => quiet_ask rfl fun _ => Prog.all_pure _

def finishOps (tookOver : Bool) : Arm → List RunOp
  | .server .panicked => []
  | _ => [.abortStatus, .clear] ++ if tookOver then [.restore] else []

theorem finish_trace (tookOver : Bool) (arm : Arm) :
    (ExceptT.run (finish tookOver arm)).trace (answering w) () = finishOps tookOver arm := by
  rcases arm with _ | _ | _ | _ | _ <;> cases tookOver <;>
    simp [finish, finishOps, shutDown, giveUp, tryRestore, joined, answering]

def selectOps (w : Answers) : List RunOp := (ExceptT.run select).trace (answering w) ()

def serveOps (w : Answers) (base : Snapshot) : List RunOp :=
  [.writeOnce base, .spawnStatus base, .installSigterm] ++ match w .installSigterm with
    | .error _ => []
    | .ok () => selectOps w ++ finishOps base.tookOverResolvConf (selected w)

theorem serve_trace :
    (ExceptT.run (serve base)).trace (answering w) () = serveOps w base := by
  cases h : w .installSigterm <;>
    simp [serve, serveOps, selectOps, orInstalled, answering, h, finish_trace]

def runOps (w : Answers) (cfg : RunConfig) : List RunOp := (run cfg).run.trace (answering w) ()

def startOps (w : Answers) (cfg : RunConfig) : List RunOp :=
  (ExceptT.run (startUp cfg)).trace (answering w) ()

def startedOps (w : Answers) (cfg : RunConfig) (p : Prepared) : List RunOp :=
  match w .serverFinished with
  | some _ => []
  | none =>
    if cfg.noTakeover then serveOps w (baseSnapshot cfg p false)
    else .takeOver p.listen.ip :: match w (.takeOver p.listen.ip) with
      | .ok _ => serveOps w (baseSnapshot cfg p true)
      | .error _ => []

theorem runOps_eq : runOps w cfg =
    startOps w cfg ++ match ((ExceptT.run (startUp cfg)).run (answering w) ()).1 with
      | .ok p => .sleep :: .serverFinished :: startedOps w cfg p
      | .error _ => [] := by
  rw [runOps, run, Fallible.trace_bind, startOps]
  congr 1
  cases ((ExceptT.run (startUp cfg)).run (answering w) ()).1 with
  | error e => rfl
  | ok p =>
    cases hf : w .serverFinished with
    | some r => rcases r with _ | _ | _ <;> simp [startedOps, answering, hf, joined]
    | none =>
      cases hn : cfg.noTakeover with
      | true => simp [startedOps, answering, hf, hn, takeOverUnless, serve_trace]
      | false =>
        rcases ht : w (.takeOver p.listen.ip) with (_ | _) | _ <;>
          simp [startedOps, answering, hf, hn, takeOverUnless, serve_trace, ht, resolvOutcome]

theorem quiet_selectOps : ∀ o ∈ selectOps w, o.quiet = true :=
  Prog.all_trace (all_select quiet_of_selects) ()

theorem quiet_startOps : ∀ o ∈ startOps w cfg, o.quiet = true :=
  Prog.all_trace (startUp_quiet cfg) ()

theorem takeOver_notMem_serveOps (ip : IpAddr) : .takeOver ip ∉ serveOps w base := by
  intro h
  cases hi : w .installSigterm with
  | error e => simp [serveOps, hi] at h
  | ok u =>
    have hsel : .takeOver ip ∉ selectOps w := fun hm => by cases quiet_selectOps _ hm
    rcases ha : selected w with _ | _ | _ | _ | _ <;> cases base.tookOverResolvConf <;>
      simp [serveOps, hi, hsel, ha, finishOps] at h

theorem serveOps_eq (w : Answers) (base : Snapshot) :
    ∃ quiet, .restore ∉ quiet ∧ serveOps w base = quiet ++
      if base.tookOverResolvConf ∧ w .installSigterm = .ok () ∧ selected w ≠ .server .panicked
      then [.restore] else [] := by
  have hsel : .restore ∉ selectOps w := fun hm => by cases quiet_selectOps _ hm
  cases hi : w .installSigterm with
  | error e =>
    exact ⟨[.writeOnce base, .spawnStatus base, .installSigterm], by simp, by simp [serveOps, hi]⟩
  | ok u =>
    by_cases hp : selected w = .server .panicked
    · refine ⟨serveOps w base, ?_, by simp [hp]⟩
      simp [serveOps, hi, hp, hsel, finishOps]
    · have hfinish : finishOps base.tookOverResolvConf (selected w) =
          [.abortStatus, .clear] ++ if base.tookOverResolvConf then [.restore] else [] := by
        rcases ha : selected w with _ | _ | _ | _ | _ <;> simp_all [finishOps]
      refine ⟨[.writeOnce base, .spawnStatus base, .installSigterm] ++ selectOps w ++
        [.abortStatus, .clear], by simp [hsel], ?_⟩
      simp [serveOps, hi, hp, hfinish]

theorem runOps_of_takeOver {ip : IpAddr} {s : TakeoverState}
    (htook : .takeOver ip ∈ runOps w cfg) (hok : w (.takeOver ip) = .ok s) :
    ∃ before p, .restore ∉ before ∧
      runOps w cfg = before ++ serveOps w (baseSnapshot cfg p true) := by
  rw [runOps_eq] at htook ⊢
  have hstart : .takeOver ip ∉ startOps w cfg := fun hm => by cases quiet_startOps _ hm
  have hstart' : .restore ∉ startOps w cfg := fun hm => by cases quiet_startOps _ hm
  cases hr : ((ExceptT.run (startUp cfg)).run (answering w) ()).1 with
  | error e =>
    rw [hr] at htook
    exact absurd (by simpa using htook) hstart
  | ok p =>
    rw [hr] at htook
    cases hf : w .serverFinished with
    | some r => simp [startedOps, hf, hstart] at htook
    | none =>
      cases hn : cfg.noTakeover with
      | true => simp [startedOps, hf, hn, hstart, takeOver_notMem_serveOps] at htook
      | false =>
        have hip : ip = p.listen.ip := by
          cases ht : w (.takeOver p.listen.ip) <;>
            simpa [startedOps, hf, hn, ht, hstart, takeOver_notMem_serveOps] using htook
        subst hip
        refine ⟨startOps w cfg ++ [.sleep, .serverFinished, .takeOver p.listen.ip], p, ?_, ?_⟩
        · simp [hstart']
        · simp [startedOps, hf, hn, hok]

/-! ### Signals -/

inductive Signal
  /-- Ctrl-C. -/
  | interrupt
  | terminate
  deriving DecidableEq

/-- A signal that arrives once `run` has made `after` of its calls. -/
structure Delivery where
  signal : Signal
  after : Nat

/-- Whether the calls made have installed a handler for the signal.  Without one the signal
kills the process. -/
def handled (w : Answers) (made : List RunOp) : Signal → Bool
  | .interrupt => .pollCtrlC ∈ made && w .pollCtrlC ≠ .failed
  | .terminate => .installSigterm ∈ made && (w .installSigterm).isOk

def lifetime (w : Answers) (ops : List RunOp) : List Delivery → Nat
  | [] => ops.length
  | d :: ds =>
    if handled w (ops.take d.after) d.signal then lifetime w ops ds
    else min d.after (lifetime w ops ds)

/-- The calls of a run that receives these signals.  One that comes inside or after the last
call cuts nothing off. -/
def called (w : Answers) (cfg : RunConfig) (ds : List Delivery) : List RunOp :=
  (runOps w cfg).take (lifetime w (runOps w cfg) ds)

theorem lifetime_le (w : Answers) (ops : List RunOp) (ds : List Delivery) :
    lifetime w ops ds ≤ ops.length := by
  induction ds with
  | nil => exact Nat.le_refl _
  | cons d ds ih =>
    unfold lifetime
    split <;> omega

theorem lifetime_eq_length_iff (w : Answers) (ops : List RunOp) (ds : List Delivery) :
    lifetime w ops ds = ops.length ↔
      ∀ d ∈ ds, d.after < ops.length → handled w (ops.take d.after) d.signal := by
  induction ds with
  | nil => simp [lifetime]
  | cons d ds ih =>
    have hle := lifetime_le w ops ds
    rw [List.forall_mem_cons, ← ih, lifetime]
    cases hd : handled w (ops.take d.after) d.signal with
    | true => simp
    | false =>
      simp only [Bool.false_eq_true, if_false, imp_false]
      omega

theorem mem_take_concat {a : α} {as : List α} (ha : a ∉ as) {n : Nat} :
    a ∈ (as ++ [a]).take n ↔ as.length < n := by
  rw [List.take_append]
  constructor
  · intro hm
    rcases List.mem_append.mp hm with hm | hm
    · exact absurd (List.mem_of_mem_take hm) ha
    · have := List.length_pos_of_mem hm
      simp only [List.length_take, List.length_singleton] at this
      omega
  · intro hn
    apply List.mem_append_right
    rw [List.take_of_length_le (by simp; omega)]
    exact List.mem_singleton_self a

/-- A run that has taken over restores exactly when the `SIGTERM` handler installs, the branch
taken is not that of a panicked proxy task, and no signal comes before its handler. -/
theorem restore_called_iff {ip : IpAddr} {s : TakeoverState} {ds : List Delivery}
    (htook : .takeOver ip ∈ called w cfg ds) (hok : w (.takeOver ip) = .ok s) :
    .restore ∈ called w cfg ds ↔
      w .installSigterm = .ok () ∧ selected w ≠ .server .panicked ∧
      ∀ d ∈ ds, d.after < (runOps w cfg).length →
        handled w ((runOps w cfg).take d.after) d.signal := by
  rw [← lifetime_eq_length_iff]
  obtain ⟨before, p, hbefore, hops⟩ := runOps_of_takeOver (List.mem_of_mem_take htook) hok
  obtain ⟨quiet, hquiet, hserve⟩ := serveOps_eq w (baseSnapshot cfg p true)
  rw [hserve, ← List.append_assoc] at hops
  have hrest : .restore ∉ before ++ quiet := by simp [hbefore, hquiet]
  have hle := lifetime_le w (runOps w cfg) ds
  rw [called]
  split at hops
  next hends =>
    have hlen : (runOps w cfg).length = (before ++ quiet).length + 1 := by
      rw [hops, List.length_append, List.length_singleton]
    rw [hops, mem_take_concat hrest, ← hops]
    constructor
    · intro hlt
      exact ⟨hends.2.1, hends.2.2, by omega⟩
    · rintro ⟨-, -, hwhole⟩
      omega
  next hends =>
    constructor
    · intro hm
      rw [hops, List.append_nil] at hm
      exact absurd (List.mem_of_mem_take hm) hrest
    · rintro ⟨hi, hp, -⟩
      exact absurd ⟨rfl, hi, hp⟩ hends

/-! ### Two runs of one helper -/

def plainConfig : RunConfig where
  pid := ⟨7, by decide, by decide⟩
  listenText := "127.0.0.53:53"
  listen := some ⟨.v4 (.new 127 0 0 53), 53⟩
  noTakeover := false
  profile := none
  forcedDomains := []

def plainAnswers : Answers
  | .reconcileAfterCrash => .ok none
  | .currentNameservers => .ok []
  | .buildResolver => .ok []
  | .takeOver _ => .ok ⟨7, 0, [], none, false⟩
  | .serverFinished | .pollServer => none
  | .writeOnce _ | .installSigterm | .restore => .ok ()
  | .selectStart => 0
  | .pollCtrlC => .pending
  | .pollSigterm => false
  | .park => .terminated
  | .spawnServer | .sleep | .spawnStatus _ | .abortStatus | .clear => ()

/-- A `SIGTERM` while the helper is parked in `select!`. -/
theorem plain_restores_when_parked :
    .restore ∈ called plainAnswers plainConfig [⟨.terminate, 15⟩] :=
  have htook : plainAnswers (.takeOver (.v4 (.new 127 0 0 53))) =
    .ok ⟨7, 0, [], none, false⟩ := rfl
  (restore_called_iff (by decide) htook).mpr ⟨rfl, by decide, by decide⟩

/-- A `SIGTERM` right after the takeover. -/
theorem plain_term_before_handler :
    ¬ ∀ (w : Answers) (cfg : RunConfig) (ds : List Delivery) (ip : IpAddr) (s : TakeoverState),
      .takeOver ip ∈ called w cfg ds → w (.takeOver ip) = .ok s → .restore ∈ called w cfg ds := by
  intro h
  exact absurd (h plainAnswers plainConfig [⟨.terminate, 7⟩] (.v4 (.new 127 0 0 53))
    ⟨7, 0, [], none, false⟩ (by decide) rfl) (by decide)

end Detour.Helper
