import Detour.ResolvConf.FileSystem

/-! `ResolvManager`: takeover of `/etc/resolv.conf`, its restoration, and the recovery of a
takeover whose process died. -/

namespace Detour.ResolvConf

open Atomic Detour.Rust

/-! ### Paths -/

structure Path where
  absolute : Bool
  parts : List String
  deriving DecidableEq

def Path.display (p : Path) : String :=
  (if p.absolute then "/" else "") ++ "/".intercalate p.parts

def Path.join (p : Path) (name : String) : Path := { p with parts := p.parts ++ [name] }

def Path.parent (p : Path) : Option Path :=
  if p.parts = [] then none else some { p with parts := p.parts.dropLast }

def RESOLV_CONF : Path := ⟨true, ["etc", "resolv.conf"]⟩

def STATE_DIR : Path := ⟨true, ["var", "lib", "detour"]⟩

def NM_DROPIN : Path := ⟨true, ["etc", "NetworkManager", "conf.d", "00-detour.conf"]⟩

def NM_DROPIN_BODY : String :=
  "# Written by Detour while Detour DNS protection is active.\n" ++
  "# Removed automatically when protection is turned off.\n" ++
  "[main]\n" ++
  "dns=none\n" ++
  "rc-manager=unmanaged\n"

def Path.tmp (p : Path) : Path :=
  (p.parent.getD ⟨true, []⟩).join ("." ++ p.parts.getLast?.getD "tmp" ++ ".detour.tmp")

/-! ### Errors -/

inductive ResolvError
  | denied (path : String)
  | io (path : String) (source : ErrorKind)
  | corruptState (path : String)
  | alreadyActive (pid : UInt32)
  | noBackup
  deriving DecidableEq

def ioErr (path : Path) (source : ErrorKind) : ResolvError :=
  if source = .permissionDenied then .denied path.display else .io path.display source

inductive Stop
  | err (e : ResolvError)
  | panic (message : String)
  deriving DecidableEq

abbrev FsM := Fallible SysOp SysOp.Ret Stop

abbrev sys (o : SysOp) : FsM o.Ret := Fallible.sys o

def fail (e : ResolvError) : FsM α := throw (.err e)

def orIoErr (path : Path) : Except ErrorKind α → FsM α
  | .ok a => pure a
  | .error e => fail (ioErr path e)

def writeAtomic (path : Path) (w : Write) : FsM Unit := do
  match ← sys (SysOp.writeAtomic w) with
  | .ok () => return ()
  | .error (.tmp e) => fail (ioErr path.tmp e)
  | .error (.target e) => fail (ioErr path e)

def expect (message : String) : Option α → FsM α
  | some a => pure a
  | none => throw (.panic message)

def ok (call : FsM α) : FsM (Option α) :=
  ExceptT.mk do
    match ← call.run with
    | .ok a => return .ok (some a)
    | .error (.err _) => return .ok none
    | .error (.panic m) => return .error (.panic m)

/-! ### Nameservers -/

def PROXY_ADDR : String := "127.0.0.53"

def isOurProxy (ip : IpAddr) : Bool := ip.display == PROXY_ADDR

def parseNameservers (text : String) : List IpAddr :=
  ((((((lines text.toList).map trim).filter
    (fun l => l.head? != some '#' && l.head? != some ';')).filterMap
    (stripPrefix "nameserver".toList)).filterMap
    (fun rest => firstWord (trim rest))).filterMap
    (fun addr => IpAddr.parse ((split '%' addr).headD addr))).filter
    (fun ip => !isOurProxy ip)

/-! ### The manager -/

structure ResolvManager where
  resolvPath : Path
  stateDir : Path
  nmDropin : Path
  deriving DecidableEq

namespace ResolvManager

def default : ResolvManager := ⟨RESOLV_CONF, STATE_DIR, NM_DROPIN⟩

def backupPath (m : ResolvManager) : Path := m.stateDir.join "resolv.conf.backup"

def statePath (m : ResolvManager) : Path := m.stateDir.join "state.json"

def readState (m : ResolvManager) : FsM (Option TakeoverState) := do
  match ← sys SysOp.readState with
  | .ok text => match text.fromStr with
    | some state => return some state
    | none => fail (.corruptState m.statePath.display)
  | .error .notFound => return none
  | .error e => fail (ioErr m.statePath e)

/-- The C cast of a `u32` to `pid_t`. -/
def asPidT (pid : UInt32) : Int := pid.toBitVec.toInt

def processIsAlive (pid : UInt32) : FsM Bool :=
  if pid = 0 then return false else sys (SysOp.kill (asPidT pid))

def isActive (m : ResolvManager) : FsM Bool := do
  match ← m.readState with
  | some s => processIsAlive s.pid
  | none => return false

def restore (m : ResolvManager) : FsM Unit := do
  if !(← sys SysOp.backupExists) then
    -- Nothing was ever taken over; make sure no stale state lingers.
    let _ ← sys (SysOp.remove .state)
    fail .noBackup
  let state := (← ok m.readState).join
  let contents ← orIoErr m.backupPath (← sys SysOp.readBackup)
  match state.bind TakeoverState.originalSymlinkTarget with
  | some target =>
    let _ ← sys (SysOp.remove .resolvConf)
    orIoErr m.resolvPath (← sys (SysOp.symlinkResolv target))
  | none => writeAtomic m.resolvPath (.resolvConf contents)
  if state.all TakeoverState.wroteNmDropin then
    -- an error here is only logged
    let _ ← sys (SysOp.remove .nmDropin)
  let _ ← sys (SysOp.remove .state)
  let _ ← sys (SysOp.remove .backup)

def reconcileAfterCrash (m : ResolvManager) : FsM (Option TakeoverState) := do
  match ← m.readState with
  | none => return none
  | some state =>
    if ← processIsAlive state.pid then fail (.alreadyActive state.pid)
    m.restore
    return some state

def currentNameservers (m : ResolvManager) : FsM (List IpAddr) := do
  return parseNameservers (← orIoErr m.resolvPath (← sys SysOp.readResolv))

/-- Whether a file was created: false if one was already there, which restore must keep. -/
def writeNmDropin (m : ResolvManager) : FsM Bool := do
  match m.nmDropin.parent with
  | none => return false
  | some _ =>
    -- No NetworkManager on this system; nothing to suppress.
    if !(← sys SysOp.nmParentIsDir) then return false
    if ← sys SysOp.nmDropinExists then return false
    writeAtomic m.nmDropin (.nmDropin NM_DROPIN_BODY.toByteArray)
    return true

/-- `serde_json::to_vec_pretty`: a path that is not UTF-8 does not serialise. -/
def serialises (state : TakeoverState) : Option TakeoverState :=
  if state.originalSymlinkTarget.all ByteArray.validateUTF8 then some state else none

def takeoverBody (m : ResolvManager) (listenAddr : IpAddr) : String :=
  "# Managed by Detour. The original file is backed up at\n" ++
  "# " ++ m.backupPath.display ++ "\n" ++
  "# and is restored automatically when DNS protection is turned off.\n" ++
  "nameserver " ++ listenAddr.display ++ "\n" ++
  "options edns0 trust-ad\n"

def symlinkTarget : FsM (Option OsPath) := do
  match ← sys SysOp.lstatResolv with
  | .ok .symlink => return (← sys SysOp.readlinkResolv).toOption
  | _ => return none

def redirect (m : ResolvManager) (pid : Pid) (now : UInt64) (listenAddr : IpAddr) :
    FsM TakeoverState := do
  orIoErr m.stateDir (← sys SysOp.createStateDir)
  let target ← symlinkTarget
  let original ← orIoErr m.resolvPath (← sys SysOp.readResolv)
  let nameservers := parseNameservers original
  -- Back up BEFORE modifying anything.
  writeAtomic m.backupPath (.backup original.toByteArray)
  let wroteNmDropin ← m.writeNmDropin
  let state : TakeoverState := ⟨pid.raw, now, nameservers, target, wroteNmDropin⟩
  let encoded ← expect "state serialises" (serialises state)
  writeAtomic m.statePath (.state encoded)
  -- Only now is it safe to redirect resolution.
  let body := m.takeoverBody listenAddr
  writeAtomic m.resolvPath (.resolvConf body.toByteArray)
  return state

def clearTheWay (m : ResolvManager) : FsM Unit := do
  match ← m.readState with
  | none => return ()
  | some existing =>
    if ← processIsAlive existing.pid then fail (.alreadyActive existing.pid)
    -- Stale state from a crash; undo it before taking over afresh.
    m.restore

def takeOver (m : ResolvManager) (pid : Pid) (now : UInt64) (listenAddr : IpAddr) :
    FsM TakeoverState := do
  m.clearTheWay
  m.redirect pid now listenAddr

end ResolvManager

end Detour.ResolvConf
