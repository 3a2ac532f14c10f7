import Detour.Attach.Sockets
import Detour.Gui.Launches
import Detour.Lib.Worklist

/-! `tunnel attach`: moving a running app's process tree into the tunnel slice. -/

namespace Detour.Attach

open Atomic Detour.Rust Detour.Tunnel

/-! ### What it asks for -/

inductive AttachOp
  | canonicalize (path : Text)
  | processUid (pid : UInt32)
  /-- a snapshot of every process's parent -/
  | processTable
  /-- the pid written to the scope's `cgroup.procs` -/
  | move (pid : UInt32) (scope : Text)
  | println (line : String)
  | ss (args : List String)

@[reducible] def AttachOp.Ret : AttachOp → Type
  | .canonicalize _ => Except String Text
  | .processUid _ => Option UInt32
  | .processTable => List (UInt32 × UInt32)
  | .move _ _ => Except Gui.MoveError Unit
  | .println _ => Unit
  -- whether it succeeded, and its output
  | .ss _ => Except String (Bool × Text)

abbrev AttachM := Fallible AttachOp AttachOp.Ret String

/-! ### Processes -/

def userServiceCgroup (uid : UInt32) : Text :=
  (s!"/sys/fs/cgroup/user.slice/user-{uid}.slice/user@{uid}.service").toList

def components (path : Text) : List Text := (split '/' path).filter (· ≠ [])

def descendants (roots : List UInt32) (table : List (UInt32 × UInt32)) : List UInt32 :=
  Worklist.scan table roots 0

/-- However the table is put together, the walk ends, and it lists each root and each process
below one, once, and nothing else. -/
theorem descendants_spec (roots : List UInt32) (table : List (UInt32 × UInt32))
    (hroots : roots.Nodup) :
    Worklist.scanFor table roots 0 (roots.length + table.length) =
        some (descendants roots table) ∧
      (descendants roots table).Nodup ∧
      ∀ pid, pid ∈ descendants roots table ↔
        Worklist.Reaches (fun parent pid => (pid, parent) ∈ table) roots pid := by
  refine ⟨Worklist.scanFor_eq_some 0 ?_, Worklist.nodup_scan 0 hroots,
    fun _ => Worklist.mem_scan_iff⟩
  have hunseen : (Worklist.unseen table roots).length ≤ table.length := Worklist.length_unseen_le
  omega

theorem cycle_descendants : (descendants [100] [(100, 101), (101, 100), (101, 7)]).Nodup ∧
    101 ∈ descendants [100] [(100, 101), (101, 100), (101, 7)] := by
  obtain ⟨-, hnodup, hmem⟩ :=
    descendants_spec [100] [(100, 101), (101, 100), (101, 7)] (List.nodup_singleton 100)
  refine ⟨hnodup, (hmem 101).mpr ?_⟩
  exact (Worklist.Reaches.root (List.mem_singleton_self 100)).child (by decide)

def checkRoots (uid : UInt32) : List UInt32 → AttachM Unit
  | [] => return ()
  | pid :: roots => do
    match ← Fallible.sys (AttachOp.processUid pid) with
    | some owner =>
      if owner = uid then checkRoots uid roots
      else throw s!"pid {pid} belongs to uid {owner}, not {uid}"
    | none => throw s!"pid {pid} is not running"

def freshOf (uid : UInt32) (moved : List UInt32) :
    List UInt32 → Prog AttachOp AttachOp.Ret (List UInt32)
  | [] => pure []
  | pid :: tree =>
    if pid ∈ moved then freshOf uid moved tree
    else do
      let owner ← Prog.perform (AttachOp.processUid pid)
      let rest ← freshOf uid moved tree
      return if owner = some uid then pid :: rest else rest

def moveFresh (scope : Text) (moved : List UInt32) : List UInt32 → AttachM (List UInt32)
  | [] => return moved
  | pid :: fresh => do
    match ← Fallible.sys (AttachOp.move pid scope) with
    | .ok () => moveFresh scope (moved ++ [pid]) fresh
    -- ESRCH: the process is already gone.
    | .error .gone => moveFresh scope moved fresh
    | .error (.other e) => throw s!"moving pid {pid}: {e}"

def moveTree (uid : UInt32) (scope : Text) (roots : List UInt32) :
    (rounds : Nat) → (moved : List UInt32) → AttachM (List UInt32)
  | 0, moved => return moved
  | rounds + 1, moved => do
    let tree := descendants roots (← Fallible.sys AttachOp.processTable)
    let fresh ← ExceptT.lift (freshOf uid moved tree)
    if fresh.isEmpty then return moved
    else moveTree uid scope roots rounds (← moveFresh scope moved fresh)

/-! ### The command -/

def resetAll (moved : List UInt32) (count : Nat) : List Text → AttachM Nat
  | [] => return count
  | line :: lines =>
    match parseSsLine line with
    | none => resetAll moved count lines
    | some sock =>
      if !sock.pids.any (· ∈ moved) then resetAll moved count lines
      else if isLocalDestination sock.peer.ip then resetAll moved count lines
      else do
        let proto := if sock.proto = "udp".toList then "-u" else "-t"
        match ← Fallible.sys (AttachOp.ss ["-K", proto, ssKillFilter sock]) with
        | .ok (true, _) => resetAll moved (count + 1) lines
        | _ => resetAll moved count lines

def resetConnections (moved : List UInt32) : AttachM Unit := do
  match ← Fallible.sys (AttachOp.ss ["-tunpH"]) with
  | .error e => throw e
  | .ok (_, listing) =>
    let count ← resetAll moved 0 (lines listing)
    Fallible.sys (AttachOp.println
      s!"Reset {count} open connection(s); they will reconnect through the tunnel.")

def slicePath (uid : UInt32) : Text := userServiceCgroup uid ++ '/' :: SLICE.toList

/-- `hold.starts_with(&slice) && hold != slice`: paths are compared by components. -/
@[irreducible] def isInside (uid : UInt32) (scope : Text) : Bool :=
  (components (slicePath uid)).isPrefixOf (components scope) &&
    components scope != components (slicePath uid)

def checkInside (uid : UInt32) (scope : Text) : AttachM Unit :=
  if isInside uid scope then return ()
  else throw s!"{String.ofList scope} is not inside {String.ofList (slicePath uid)}"

def attachTo (uid : UInt32) (scope : Text) (roots : List UInt32) (reset : Bool) : AttachM Unit := do
  checkInside uid scope
  checkRoots uid roots
  let moved ← moveTree uid scope roots 5 []
  Fallible.sys (AttachOp.println s!"Moved {moved.length} process(es) into the tunnel.")
  if reset then resetConnections moved else return ()

def attach (uid : UInt32) (hold : Text) (roots : List UInt32) (reset : Bool) : AttachM Unit := do
  if uid = 0 then throw "refusing to act on root's processes"
  else
    match ← Fallible.sys (AttachOp.canonicalize hold) with
    | .error e => throw s!"holding scope {String.ofList hold}: {e}"
    | .ok scope => attachTo uid scope roots reset

end Detour.Attach
