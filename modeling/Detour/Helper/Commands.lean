import Detour.Helper.Status
import Detour.ResolvConf.Manager

/-! `dns-helper restore` and `dns-helper stop`. -/

namespace Detour.Helper

open Atomic Detour.Rust Detour.ResolvConf

inductive CmdOp
  | sys (o : SysOp)
  | readStatus
  | unixNow
  | terminate (pid : Int)
  | sleep
  | println (line : String)
  deriving DecidableEq

@[reducible] def CmdOp.Ret : CmdOp → Type
  | .sys o => o.Ret
  | .readStatus => Option StatusText
  | .unixNow => Nanos
  | .terminate _ => Except ErrorKind Unit
  | .sleep | .println _ => Unit

inductive CmdError
  | resolv (context : Option String) (source : ResolvError)
  | notSignalled (pid : Int) (source : ErrorKind)
  | didNotExit (pid : Int)
  deriving DecidableEq

inductive CmdStop
  | err (e : CmdError)
  | panic (message : String)
  deriving DecidableEq

abbrev CmdM := Fallible CmdOp CmdOp.Ret CmdStop

abbrev cmd (o : CmdOp) : CmdM o.Ret := Fallible.sys o

def onCmd (call : FsM α) : CmdM (Except Stop α) :=
  ExceptT.lift (call.run.translate (fun o => .perform (.sys o)))

def restore (m : ResolvManager) : CmdM Unit := do
  match ← onCmd m.restore with
  | .ok () => cmd (.println "Restored /etc/resolv.conf from backup.")
  | .error (.err .noBackup) =>
    cmd (.println "No backup present; /etc/resolv.conf was not modified by this tool.")
  | .error (.err e) => throw (.err (.resolv (some "restoring /etc/resolv.conf") e))
  | .error (.panic message) => throw (.panic message)

def leftover (m : ResolvManager) : CmdM Unit := do
  cmd (.println "No helper is running.")
  match ← onCmd m.readState with
  | .ok none => return ()
  | .ok (some _) => do
    cmd (.println "Found leftover state; restoring DNS.")
    let _ ← onCmd m.restore
  | .error (.err e) => throw (.err (.resolv none e))
  | .error (.panic message) => throw (.panic message)

/-- Wait for the helper to actually go away, at most so many times. -/
def waitGone (pid : Int) : Nat → CmdM Unit
  | 0 => throw (.err (.didNotExit pid))
  | n + 1 => do
    cmd .sleep
    if ← cmd (.sys (.kill pid)) then waitGone pid n
    else cmd (.println "Helper stopped and DNS restored.")

def stop (m : ResolvManager) : CmdM Unit := do
  let text ← cmd .readStatus
  let snapshot := readSnapshot text (← cmd .unixNow) 10000000000
  if !snapshot.active || snapshot.pid == 0 then leftover m
  else do
    let pid := ResolvManager.asPidT snapshot.pid
    match ← cmd (.terminate pid) with
    | .error e => throw (.err (.notSignalled pid e))
    | .ok () => do
      cmd (.println ("Sent shutdown signal to helper pid " ++ toString pid ++ "."))
      waitGone pid 50

end Detour.Helper
