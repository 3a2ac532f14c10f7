import Detour.Lib.Program
import Detour.Rust.IpAddr
import Mathlib.Algebra.Group.Nat.Defs

/-! The files the takeover touches, and the system calls it makes on them.  `write_atomic` is
one operation here; `Detour.ResolvConf.Disk` opens it up. -/

namespace Detour.ResolvConf

open Detour.Rust

/-! ### Files -/

scoped instance (priority := 2000) decEqBytes : DecidableEq ByteArray := fun a b =>
  decidable_of_iff (a.data = b.data) ByteArray.ext_iff.symm

/-- The raw bytes of a path, which need not be text. -/
abbrev OsPath := ByteArray

structure TakeoverState where
  pid : UInt32
  takenOverAt : UInt64
  originalNameservers : List IpAddr
  originalSymlinkTarget : Option OsPath
  wroteNmDropin : Bool
  deriving DecidableEq

/-- The contents of `state.json`: the JSON of a recorded state, or text that is not one. -/
inductive StateText
  | json (state : TakeoverState)
  | garbled
  deriving DecidableEq

def StateText.fromStr : StateText → Option TakeoverState
  | .json s => some s
  | .garbled => none

inductive Node
  | file (contents : ByteArray)
  | symlink (target : OsPath)
  deriving DecidableEq

structure StateDir where
  backup : Option ByteArray
  state : Option StateText
  deriving DecidableEq

/-- The NetworkManager drop-in; without a `conf.d` directory there is nowhere to put it. -/
inductive NmConf
  | noConfD
  | absent
  | present (contents : ByteArray)
  deriving DecidableEq

@[ext] structure Fs where
  resolv : Option Node
  stateDir : Option StateDir
  nm : NmConf
  deriving DecidableEq

def Fs.backup (fs : Fs) : Option ByteArray := fs.stateDir.bind StateDir.backup

def Fs.state (fs : Fs) : Option StateText := fs.stateDir.bind StateDir.state

/-! ### The rest of the machine -/

/-- A process id the kernel hands out: `getpid` never answers anything else. -/
structure Pid where
  raw : UInt32
  pos : 0 < raw.toNat
  lt : raw.toNat < 2 ^ 31
  deriving DecidableEq

/-- One process, told apart from every other that ever ran, whatever pid it has. -/
abbrev ProcessId := Nat

structure ProcTable where
  holder : Nat → Option ProcessId
  group : Int → Bool

def ProcTable.kill (procs : ProcTable) (pid : Int) : Bool :=
  if 0 < pid then (procs.holder pid.toNat).isSome else procs.group pid

/-- What a call finds around the files: the processes running now, and the contents of the
other files that a link can lead to. -/
structure Env where
  procs : ProcTable
  links : OsPath → Option ByteArray

def Node.read (links : OsPath → Option ByteArray) : Node → Option ByteArray
  | .file b => some b
  | .symlink target => links target

def Fs.contents (links : OsPath → Option ByteArray) (fs : Fs) : Option ByteArray :=
  fs.resolv.bind (Node.read links)

/-! ### System calls -/

inductive ErrorKind
  | notFound
  | permissionDenied
  | alreadyExists
  | invalidData
  | other
  deriving DecidableEq

inductive WriteError
  | tmp (source : ErrorKind)
  | target (source : ErrorKind)
  deriving DecidableEq

inductive FileType
  | file
  | symlink
  deriving DecidableEq

inductive File
  | resolvConf
  | backup
  | state
  | nmDropin
  deriving DecidableEq

inductive Write
  | resolvConf (contents : ByteArray)
  | backup (contents : ByteArray)
  | state (contents : TakeoverState)
  | nmDropin (contents : ByteArray)
  deriving DecidableEq

def Write.file : Write → File
  | .resolvConf _ => .resolvConf
  | .backup _ => .backup
  | .state _ => .state
  | .nmDropin _ => .nmDropin

inductive SysOp
  | readState
  | kill (pid : Int)
  | createStateDir
  | lstatResolv
  | readlinkResolv
  | readResolv
  | writeAtomic (w : Write)
  | nmParentIsDir
  | nmDropinExists
  | backupExists
  | readBackup
  | remove (f : File)
  | symlinkResolv (target : OsPath)
  deriving DecidableEq

@[reducible] def SysOp.Ret : SysOp → Type
  | .readState => Except ErrorKind StateText
  | .kill _ => Bool
  | .createStateDir => Except ErrorKind Unit
  | .lstatResolv => Except ErrorKind FileType
  | .readlinkResolv => Except ErrorKind OsPath
  | .readResolv => Except ErrorKind String
  | .writeAtomic _ => Except WriteError Unit
  | .nmParentIsDir => Bool
  | .nmDropinExists => Bool
  | .backupExists => Bool
  | .readBackup => Except ErrorKind ByteArray
  | .remove _ => Except ErrorKind Unit
  | .symlinkResolv _ => Except ErrorKind Unit

def orNotFound : Option α → Except ErrorKind α
  | some a => .ok a
  | none => .error .notFound

def Node.fileType : Node → FileType
  | .file _ => .file
  | .symlink _ => .symlink

def Node.target : Node → Option OsPath
  | .file _ => none
  | .symlink target => some target

def utf8 (bytes : ByteArray) : Except ErrorKind String :=
  match String.fromUTF8? bytes with
  | some text => .ok text
  | none => .error .invalidData

def Fs.readText (links : OsPath → Option ByteArray) (fs : Fs) : Except ErrorKind String :=
  (orNotFound (fs.contents links)).bind utf8

def Fs.put (fs : Fs) : Write → Except WriteError Unit × Fs
  | .resolvConf b => (.ok (), { fs with resolv := some (.file b) })
  | .backup b => match fs.stateDir with
    | some d => (.ok (), { fs with stateDir := some { d with backup := some b } })
    | none => (.error (.tmp .notFound), fs)
  | .state s => match fs.stateDir with
    | some d => (.ok (), { fs with stateDir := some { d with state := some (.json s) } })
    | none => (.error (.tmp .notFound), fs)
  | .nmDropin b => match fs.nm with
    | .noConfD => (.error (.tmp .notFound), fs)
    | _ => (.ok (), { fs with nm := .present b })

def Fs.unlink (fs : Fs) : File → Except ErrorKind Unit × Fs
  | .resolvConf => match fs.resolv with
    | some _ => (.ok (), { fs with resolv := none })
    | none => (.error .notFound, fs)
  | .backup => match fs.stateDir with
    | some ⟨some _, state⟩ => (.ok (), { fs with stateDir := some ⟨none, state⟩ })
    | _ => (.error .notFound, fs)
  | .state => match fs.stateDir with
    | some ⟨backup, some _⟩ => (.ok (), { fs with stateDir := some ⟨backup, none⟩ })
    | _ => (.error .notFound, fs)
  | .nmDropin => match fs.nm with
    | .present _ => (.ok (), { fs with nm := .absent })
    | _ => (.error .notFound, fs)

def Fs.withStateDir (fs : Fs) : Fs :=
  { fs with stateDir := some (fs.stateDir.getD ⟨none, none⟩) }

def handler (env : Env) : Atomic.Handler SysOp SysOp.Ret Fs
  | .readState, fs => (orNotFound fs.state, fs)
  | .kill pid, fs => (env.procs.kill pid, fs)
  | .createStateDir, fs => (.ok (), fs.withStateDir)
  | .lstatResolv, fs => (orNotFound (fs.resolv.map Node.fileType), fs)
  | .readlinkResolv, fs => match fs.resolv with
    | some (.symlink target) => (.ok target, fs)
    | some (.file _) => (.error .other, fs)
    | none => (.error .notFound, fs)
  | .readResolv, fs => (fs.readText env.links, fs)
  | .writeAtomic w, fs => fs.put w
  | .nmParentIsDir, fs => (fs.nm != .noConfD, fs)
  | .nmDropinExists, fs => (match fs.nm with | .present _ => true | _ => false, fs)
  | .backupExists, fs => (fs.backup.isSome, fs)
  | .readBackup, fs => (orNotFound fs.backup, fs)
  | .remove f, fs => fs.unlink f
  | .symlinkResolv target, fs => match fs.resolv with
    | some _ => (.error .alreadyExists, fs)
    | none => (.ok (), { fs with resolv := some (.symlink target) })

def SysOp.modifies : SysOp → Bool
  | .createStateDir | .writeAtomic _ | .remove _ | .symlinkResolv _ => true
  | _ => false

theorem handler_of_not_modifies (env : Env) (o : SysOp) (fs : Fs) (h : o.modifies = false) :
    (handler env o fs).2 = fs := by
  cases o with
  | readlinkResolv => obtain ⟨_ | _ | _, _, _⟩ := fs <;> rfl
  | createStateDir | writeAtomic _ | remove _ | symlinkResolv _ => cases h
  | _ => rfl

end Detour.ResolvConf
