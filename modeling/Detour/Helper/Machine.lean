import Detour.Helper.Run
import Detour.Helper.Commands
import Mathlib.Data.List.Basic

/-! One helper on its machine: its main task and its status task, the commands that others run
beside it, and the readers of its status file, each a step at a time and in any order. -/

namespace Detour.Helper

open Atomic Detour.Rust Detour.ResolvConf

/-! ### The helper process -/

inductive HostOp
  /-- Something else that `run` asks for. -/
  | ask (o : RunOp)
  | sys (o : SysOp)
  | unixNow
  /-- Take a snapshot and write it to the temporary file. -/
  | stamp (base : Snapshot)
  /-- Rename the temporary file over the status file. -/
  | publish
  | spawnStatus (base : Snapshot)
  | abortStatus
  | clear
  deriving DecidableEq

@[reducible] def HostOp.Ret : HostOp → Type
  | .ask o => o.Ret
  | .sys o => o.Ret
  | .unixNow => Nanos
  | .publish => Except ErrorKind Unit
  | .stamp _ | .spawnStatus _ | .abortStatus | .clear => Unit

abbrev HostProg := Prog HostOp HostOp.Ret

abbrev act (o : HostOp) : HostProg o.Ret := .perform o

def onHost (call : FsM α) : HostProg (Except Stop α) :=
  call.run.translate (fun o => act (.sys o))

def carry (m : ResolvManager) (pid : Pid) : (o : RunOp) → HostProg o.Ret
  | .reconcileAfterCrash => onHost m.reconcileAfterCrash
  | .currentNameservers => onHost m.currentNameservers
  | .takeOver listenAddr => do
    let now ← act .unixNow
    onHost (m.takeOver pid (UInt64.ofNat (Nanos.asSecs now)) listenAddr)
  | .restore => onHost m.restore
  | .writeOnce base => do
    act (.stamp base)
    act .publish
  | .spawnStatus base => act (.spawnStatus base)
  | .abortStatus => act .abortStatus
  | .clear => act .clear
  | o => act (.ask o)

/-! ### The machine -/

inductive TaskPoint
  | sleeping
  | awake
  | writing (s : Snapshot)

structure StatusTask where
  base : Snapshot
  /-- An aborted task does not wake again, but what it is doing it does to the end. -/
  aborted : Bool
  point : TaskPoint

structure PendingRead where
  text : Option StatusText
  /-- Whether the helper had cleared its status by then. -/
  afterClear : Bool
  deriving DecidableEq

inductive Command
  | restore
  | stop

def Command.body (m : ResolvManager) : Command → CmdM Unit
  | .restore => Helper.restore m
  | .stop => Helper.stop m

structure Machine where
  fs : Fs
  status : Option StatusText
  clock : Nanos
  /-- What is left of `run`. -/
  main : HostProg (Except RunStop Unit)
  /-- The snapshot the main task is writing. -/
  stamped : Option Snapshot
  task : Option StatusTask
  cleared : Bool
  /-- When the helper stopped, if it has. -/
  stoppedAt : Option Nanos
  commands : List (Prog CmdOp CmdOp.Ret (Except CmdStop Unit))
  reads : List PendingRead

/-- What the model does not fix, at one step. -/
structure Outside where
  procs : ProcTable
  answer : (o : RunOp) → o.Ret
  counters : Counters
  written : Except ErrorKind Unit
  signalled : Except ErrorKind Unit
  /-- What is at `STATUS_PATH` when the helper publishes elsewhere. -/
  otherStatus : Option StatusText

structure Setup where
  manager : ResolvManager
  links : OsPath → Option ByteArray
  cfg : RunConfig
  atStatusPath : Bool

namespace Machine

def launch (H : Setup) (fs : Fs) (status : Option StatusText) (clock : Nanos) : Machine where
  fs := fs
  status := status
  clock := clock
  main := (run H.cfg).run.translate (carry H.manager H.cfg.pid)
  stamped := none
  task := none
  cleared := false
  stoppedAt := none
  commands := []
  reads := []

def rename (M : Machine) (written : Except ErrorKind Unit) : Machine :=
  { M with
    status := if written.isOk then (M.stamped.map .json).or M.status else M.status
    stamped := none }

def host (H : Setup) (out : Outside) : Handler HostOp HostOp.Ret Machine
  | .ask o, M => (out.answer o, M)
  | .sys o, M =>
    let (r, fs) := handler ⟨out.procs, H.links⟩ o M.fs
    (r, { M with fs := fs })
  | .unixNow, M => (M.clock, M)
  | .stamp base, M => ((), { M with stamped := some (snapshot base out.counters M.clock) })
  | .publish, M => (out.written, M.rename out.written)
  | .spawnStatus base, M => ((), { M with task := some ⟨base, false, .sleeping⟩ })
  | .abortStatus, M => ((), { M with task := M.task.map ({ · with aborted := true }) })
  | .clear, M => ((), { M with status := none, cleared := true })

def command (H : Setup) (out : Outside) : Handler CmdOp CmdOp.Ret Machine
  | .sys o, M =>
    let (r, fs) := handler ⟨out.procs, H.links⟩ o M.fs
    (r, { M with fs := fs })
  | .readStatus, M => (if H.atStatusPath then M.status else out.otherStatus, M)
  | .unixNow, M => (M.clock, M)
  | .terminate _, M => (out.signalled, M)
  | .sleep, M => ((), M)
  | .println _, M => ((), M)

inductive Event
  | tick (nanos : Nat)
  /-- The main task of the helper. -/
  | main (out : Outside)
  /-- The status task. -/
  | wake
  | stamp (counters : Counters)
  | publish (written : Except ErrorKind Unit)
  /-- The helper exits, or is killed. -/
  | die
  | start (c : Command)
  | command (i : Nat) (out : Outside)
  | openStatus
  | answerRead (i : Nat) (maxAge : Nanos)

def stepMain (H : Setup) (out : Outside) (M : Machine) : Machine :=
  match M.main with
  | .done _ => M
  | .op o k => { (host H out o M).2 with main := k (host H out o M).1 }

def stepCommand (H : Setup) (i : Nat) (out : Outside) (M : Machine) : Machine :=
  match M.commands[i]? with
  | some (.op o k) =>
    { (command H out o M).2 with commands := M.commands.set i (k (command H out o M).1) }
  | _ => M

def wakeTask (M : Machine) : Machine :=
  match M.task with
  | some ⟨base, false, .sleeping⟩ => { M with task := some ⟨base, false, .awake⟩ }
  | _ => M

def stampTask (counters : Counters) (M : Machine) : Machine :=
  match M.task with
  | some ⟨base, aborted, .awake⟩ =>
    { M with task := some ⟨base, aborted, .writing (snapshot base counters M.clock)⟩ }
  | _ => M

def publishTask (written : Except ErrorKind Unit) (M : Machine) : Machine :=
  match M.task with
  | some ⟨base, aborted, .writing s⟩ =>
    { M with
      status := if written.isOk then some (.json s) else M.status
      task := some ⟨base, aborted, .sleeping⟩ }
  | _ => M

def alive (M : Machine) : Bool := M.stoppedAt.isNone

def step (H : Setup) (M : Machine) : Event → Machine
  | .tick nanos => { M with clock := M.clock + nanos }
  | .main out => if M.alive then M.stepMain H out else M
  | .wake => if M.alive then M.wakeTask else M
  | .stamp counters => if M.alive then M.stampTask counters else M
  | .publish written => if M.alive then M.publishTask written else M
  | .die => if M.alive then { M with stoppedAt := some M.clock } else M
  | .start c => { M with commands := M.commands ++ [(c.body H.manager).run] }
  | .command i out => M.stepCommand H i out
  | .openStatus => { M with reads := M.reads ++ [⟨M.status, M.cleared⟩] }
  | .answerRead i _ => { M with reads := M.reads.eraseIdx i }

def run (H : Setup) (M : Machine) (events : List Event) : Machine := events.foldl (step H) M

end Machine

end Detour.Helper
