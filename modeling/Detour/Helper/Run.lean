import Detour.Helper.Status
import Detour.ResolvConf.Manager
import Mathlib.Algebra.GroupWithZero.Nat

/-! `dns-helper run`, from its start to its exit: what it asks of the rest of the system, in
order, and where a signal can end it. -/

namespace Detour.Helper

open Atomic Detour.Rust Detour.ResolvConf

/-! ### What `run` asks for -/

inductive ProxyEnd
  | stopped
  | failed (e : String)
  | panicked
  deriving DecidableEq

/-- What polling `tokio::signal::ctrl_c()` for the first time comes to: its handler could not be
installed, or is there from now on. -/
inductive CtrlC
  | failed
  | pending
  | ready
  deriving DecidableEq

inductive Arm
  | interrupted
  | terminated
  | server (result : ProxyEnd)
  deriving DecidableEq

scoped instance branches : NeZero 3 := ⟨by decide⟩

inductive RunOp
  | reconcileAfterCrash
  | currentNameservers
  | buildResolver
  | spawnServer
  | sleep
  | serverFinished
  | takeOver (listenAddr : IpAddr)
  | writeOnce (base : Snapshot)
  | spawnStatus (base : Snapshot)
  | installSigterm
  | selectStart
  | pollCtrlC
  | pollSigterm
  | pollServer
  | park
  | abortStatus
  | clear
  | restore
  deriving DecidableEq

@[reducible] def RunOp.Ret : RunOp → Type
  | .reconcileAfterCrash => Except Stop (Option TakeoverState)
  | .currentNameservers => Except Stop (List IpAddr)
  | .buildResolver => Except String (List String)
  | .serverFinished => Option ProxyEnd
  | .takeOver _ => Except Stop TakeoverState
  | .writeOnce _ => Except ErrorKind Unit
  | .installSigterm => Except ErrorKind Unit
  | .selectStart => Fin 3
  | .pollCtrlC => CtrlC
  | .pollSigterm => Bool
  | .pollServer => Option ProxyEnd
  | .park => Arm
  | .restore => Except Stop Unit
  | .spawnServer | .sleep | .spawnStatus _ | .abortStatus | .clear => Unit

inductive RunError
  | invalidListen (text : String)
  | anotherHelper (pid : UInt32)
  | resolv (context : String) (source : ResolvError)
  | resolver (context : String) (source : String)
  | io (context : String) (source : ErrorKind)
  | proxyPanicked (context : String)
  | proxy (e : String)
  deriving DecidableEq

inductive RunStop
  | err (e : RunError)
  | panic (message : String)
  deriving DecidableEq

abbrev RunM := Fallible RunOp RunOp.Ret RunStop

abbrev ask (o : RunOp) : RunM o.Ret := Fallible.sys o

def orResolv (context : String) : Except Stop α → RunM α
  | .ok a => pure a
  | .error (.err e) => throw (.err (.resolv context e))
  | .error (.panic message) => throw (.panic message)

def joined : ProxyEnd → RunM (Except String Unit)
  | .stopped => pure (.ok ())
  | .failed e => pure (.error e)
  | .panicked => throw (.err (.proxyPanicked "proxy task panicked"))

/-! ### `select!` -/

def pollBranch (branch : Fin 3) : RunM (Option Arm) :=
  match branch with
  | 0 => do
    match ← ask .pollCtrlC with
    | .pending => return none
    | _ => return some .interrupted
  | 1 => return if ← ask .pollSigterm then some .terminated else none
  | 2 => return (← ask .pollServer).map Arm.server

/-- The branches are polled once around from a random one; if none is ready, `run` sleeps until
one of them is. -/
def select : RunM Arm := do
  let start ← ask .selectStart
  match ← pollBranch start with
  | some arm => return arm
  | none => match ← pollBranch (start + 1) with
    | some arm => return arm
    | none => match ← pollBranch (start + 2) with
      | some arm => return arm
      | none => ask .park

/-! ### `run` -/

structure RunConfig where
  pid : Pid
  listenText : String
  /-- What `config.listen.parse()` makes of it. -/
  listen : Option SocketAddr
  noTakeover : Bool
  profile : Option String
  /-- The forced domains of the policy for the profile. -/
  forcedDomains : List String

structure Prepared where
  listen : SocketAddr
  original : List IpAddr
  providers : List String

def parseListen (cfg : RunConfig) : RunM SocketAddr :=
  match cfg.listen with
  | some addr => pure addr
  | none => throw (.err (.invalidListen cfg.listenText))

def orReconciled : Except Stop (Option TakeoverState) → RunM Unit
  | .error (.err (.alreadyActive pid)) => throw (.err (.anotherHelper pid))
  | r => do let _ ← orResolv "reconciling previous state" r

def orBuilt : Except String (List String) → RunM (List String)
  | .ok names => pure names
  | .error e => throw (.err (.resolver "building DoH resolver" e))

def orInstalled : Except ErrorKind Unit → RunM Unit
  | .ok () => pure ()
  | .error e => throw (.err (.io "installing SIGTERM handler" e))

def startUp (cfg : RunConfig) : RunM Prepared := do
  let listen ← parseListen cfg
  orReconciled (← ask .reconcileAfterCrash)
  -- Read the system's real resolvers before takeover.
  let original ← orResolv "reading current nameservers" (← ask .currentNameservers)
  let providers ← orBuilt (← ask .buildResolver)
  ask .spawnServer
  return ⟨listen, original, providers⟩

def baseSnapshot (cfg : RunConfig) (p : Prepared) (tookOver : Bool) : Snapshot where
  active := true
  listen := p.listen.display
  pid := cfg.pid.raw
  tookOverResolvConf := tookOver
  profile := cfg.profile
  providers := p.providers
  forcedDomains := cfg.forcedDomains
  upstreams := p.original.map IpAddr.display
  cacheEntries := 0
  queriesTotal := 0
  recent := []
  updatedAt := 0

def shutDown (tookOver : Bool) : RunM Unit := do
  ask .abortStatus
  ask .clear
  if tookOver then orResolv "restoring /etc/resolv.conf" (← ask .restore)

def tryRestore : RunM Unit := do let _ ← ask .restore

def giveUp (tookOver : Bool) (e : String) : RunM Unit := do
  ask .abortStatus
  ask .clear
  if tookOver then do
    tryRestore
    throw (.err (.proxy e))
  else throw (.err (.proxy e))

def finish (tookOver : Bool) : Arm → RunM Unit
  | .server result => do
    match ← joined result with
    | .ok () => shutDown tookOver
    | .error e => giveUp tookOver e
  | _ => shutDown tookOver

def serve (base : Snapshot) : RunM Unit := do
  -- an error here is only logged
  let _ ← ask (.writeOnce base)
  ask (.spawnStatus base)
  orInstalled (← ask .installSigterm)
  finish base.tookOverResolvConf (← select)

def takeOverUnless (noTakeover : Bool) (listenAddr : IpAddr) : RunM Bool :=
  if noTakeover then return false else do
    let _ ← orResolv "taking over /etc/resolv.conf" (← ask (.takeOver listenAddr))
    return true

def run (cfg : RunConfig) : RunM Unit := do
  let prepared ← startUp cfg
  -- Bind first, take over second. If the bind fails there is nothing to undo.
  ask .sleep
  match ← ask .serverFinished with
  | some result => match ← joined result with
    | .ok () => return ()
    | .error e => throw (.err (.proxy e))
  | none =>
    let tookOver ← takeOverUnless cfg.noTakeover prepared.listen.ip
    serve (baseSnapshot cfg prepared tookOver)

/-! ### What the parts of it can ask for -/

section All

variable {P : RunOp → Prop}

theorem all_orResolv (context : String) (r : Except Stop α) :
    (ExceptT.run (orResolv context r)).All P := by
  rcases r with (_ | _) | _ <;> trivial

theorem all_joined (r : ProxyEnd) : (ExceptT.run (joined r)).All P := by
  cases r <;> trivial

theorem all_parseListen (cfg : RunConfig) : (ExceptT.run (parseListen cfg)).All P := by
  unfold parseListen
  split <;> trivial

theorem all_orReconciled (r : Except Stop (Option TakeoverState)) :
    (ExceptT.run (orReconciled r)).All P := by
  unfold orReconciled
  split
  · trivial
  · exact Fallible.all_bind (all_orResolv _ _) fun _ => trivial

theorem all_orBuilt (r : Except String (List String)) : (ExceptT.run (orBuilt r)).All P := by
  cases r <;> trivial

theorem all_orInstalled (r : Except ErrorKind Unit) : (ExceptT.run (orInstalled r)).All P := by
  cases r <;> trivial

def RunOp.selects : RunOp → Bool
  | .selectStart | .pollCtrlC | .pollSigterm | .pollServer | .park => true
  | _ => false

theorem all_pollBranch (h : ∀ o : RunOp, o.selects = true → P o) (branch : Fin 3) :
    (ExceptT.run (pollBranch branch)).All P := by
  unfold pollBranch
  split <;> refine Fallible.all_bind (Fallible.all_sys (h _ rfl)) (fun r => ?_)
  · cases r <;> trivial
  · trivial
  · trivial

theorem all_select (h : ∀ o : RunOp, o.selects = true → P o) : (ExceptT.run select).All P := by
  refine Fallible.all_bind (Fallible.all_sys (h _ rfl)) fun start => ?_
  refine Fallible.all_bind (all_pollBranch h _) fun r₀ => ?_
  cases r₀ with
  | some arm => trivial
  | none =>
    refine Fallible.all_bind (all_pollBranch h _) fun r₁ => ?_
    cases r₁ with
    | some arm => trivial
    | none =>
      refine Fallible.all_bind (all_pollBranch h _) fun r₂ => ?_
      cases r₂ with
      | some arm => trivial
      | none => exact Fallible.all_sys (h _ rfl)

end All

end Detour.Helper
