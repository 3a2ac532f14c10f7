import Detour.ResolvConf.Manager

/-! What each call of the manager does: the system calls it makes, its answer, and the files
it leaves, from every state of the files. -/

namespace Detour.ResolvConf

open Atomic Detour.Rust

variable {env : Env} {m : ResolvManager} {fs : Fs}

/-! ### Small steps -/

@[simp] theorem run_fail (e : ResolvError) :
    (ExceptT.run (fail e : FsM α)).run (handler env) fs = (.error (.err e), fs) := rfl

@[simp] theorem trace_fail (e : ResolvError) :
    (ExceptT.run (fail e : FsM α)).trace (handler env) fs = [] := rfl

@[simp] theorem orIoErr_ok (path : Path) (a : α) : orIoErr path (.ok a) = pure a := rfl

@[simp] theorem orIoErr_error (path : Path) (e : ErrorKind) :
    (orIoErr path (.error e) : FsM α) = fail (ioErr path e) := rfl

def writeOutcome (path : Path) : Except WriteError Unit → Except Stop Unit
  | .ok () => .ok ()
  | .error (.tmp e) => .error (.err (ioErr path.tmp e))
  | .error (.target e) => .error (.err (ioErr path e))

@[simp] theorem writeOutcome_ok (path : Path) : writeOutcome path (.ok ()) = .ok () := rfl

@[simp] theorem run_writeAtomic (path : Path) (w : Write) :
    (ExceptT.run (writeAtomic path w)).run (handler env) fs =
      (writeOutcome path (fs.put w).1, (fs.put w).2) := by
  have hput : handler env (.writeAtomic w) fs = fs.put w := rfl
  rcases h : fs.put w with ⟨(_ | _) | _, _⟩ <;> simp [writeAtomic, writeOutcome, hput, h]

@[simp] theorem trace_writeAtomic (path : Path) (w : Write) :
    (ExceptT.run (writeAtomic path w)).trace (handler env) fs = [.writeAtomic w] := by
  have hput : handler env (.writeAtomic w) fs = fs.put w := rfl
  rcases h : fs.put w with ⟨(_ | _) | _, _⟩ <;> simp [writeAtomic, hput, h]

@[simp] theorem expect_some (message : String) (a : α) : expect message (some a) = pure a := rfl

@[simp] theorem run_expect_none (message : String) :
    (ExceptT.run (expect message none : FsM α)).run (handler env) fs =
      (.error (.panic message), fs) := rfl

@[simp] theorem trace_expect_none (message : String) :
    (ExceptT.run (expect message none : FsM α)).trace (handler env) fs = [] := rfl

def okOutcome : Except Stop α → Except Stop (Option α)
  | .ok a => .ok (some a)
  | .error (.err _) => .ok none
  | .error (.panic m) => .error (.panic m)

@[simp] theorem run_ok (call : FsM α) : (ExceptT.run (ok call)).run (handler env) fs =
    (okOutcome (call.run.run (handler env) fs).1, (call.run.run (handler env) fs).2) := by
  simp only [ok, ExceptT.run_mk, Prog.run_bind]
  rcases (call.run.run (handler env) fs).1 with (_ | _) | _ <;> rfl

@[simp] theorem trace_ok (call : FsM α) : (ExceptT.run (ok call)).trace (handler env) fs =
    call.run.trace (handler env) fs := by
  simp only [ok, ExceptT.run_mk, Prog.trace_bind]
  rcases (call.run.run (handler env) fs).1 with (_ | _) | _ <;> simp

namespace ResolvManager

/-! ### Reading the record -/

def stateOutcome (m : ResolvManager) : Option StateText → Except Stop (Option TakeoverState)
  | none => .ok none
  | some (.json s) => .ok (some s)
  | some .garbled => .error (.err (.corruptState m.statePath.display))

@[simp] theorem readState_run :
    (ExceptT.run m.readState).run (handler env) fs = (m.stateOutcome fs.state, fs) := by
  rcases h : fs.state with _ | _ | _ <;>
    simp [readState, handler, orNotFound, stateOutcome, StateText.fromStr, h]

@[simp] theorem readState_trace :
    (ExceptT.run m.readState).trace (handler env) fs = [.readState] := by
  rcases h : fs.state with _ | _ | _ <;>
    simp [readState, handler, orNotFound, StateText.fromStr, h]

def alive (procs : ProcTable) (pid : UInt32) : Bool := pid ≠ 0 && procs.kill (asPidT pid)

def aliveOps (pid : UInt32) : List SysOp := if pid = 0 then [] else [.kill (asPidT pid)]

@[simp] theorem processIsAlive_run (pid : UInt32) :
    (ExceptT.run (processIsAlive pid)).run (handler env) fs =
      (.ok (alive env.procs pid), fs) := by
  by_cases h : pid = 0 <;> simp [processIsAlive, alive, handler, h]

@[simp] theorem processIsAlive_trace (pid : UInt32) :
    (ExceptT.run (processIsAlive pid)).trace (handler env) fs = aliveOps pid := by
  by_cases h : pid = 0 <;> simp [processIsAlive, aliveOps, h]

theorem alive_pid (procs : ProcTable) (pid : Pid) :
    alive procs pid.raw = (procs.holder pid.raw.toNat).isSome := by
  have h0 : pid.raw ≠ 0 := by
    intro h
    have := pid.pos
    simp [h] at this
  have hcast : asPidT pid.raw = pid.raw.toNat :=
    BitVec.toInt_eq_toNat_of_lt (by have := pid.lt; simpa using by omega)
  have hpos : pid.raw.toNat ≠ 0 := Nat.pos_iff_ne_zero.mp pid.pos
  simp [alive, ProcTable.kill, h0, hcast, hpos]

/-! ### `restore` -/

end ResolvManager

def Fs.record (fs : Fs) : Option TakeoverState := fs.state.bind StateText.fromStr

def Fs.target (fs : Fs) : Option OsPath := fs.record.bind TakeoverState.originalSymlinkTarget

def Fs.dropsNm (fs : Fs) : Bool := fs.record.all TakeoverState.wroteNmDropin

def NmConf.removed : NmConf → NmConf
  | .present _ => .absent
  | nm => nm

def StateDir.cleared (d : StateDir) : StateDir := { d with state := none }

@[simp] theorem unlink_resolvConf : (fs.unlink .resolvConf).2 = { fs with resolv := none } := by
  rcases fs with ⟨_ | _, _, _⟩ <;> rfl

@[simp] theorem unlink_nmDropin : (fs.unlink .nmDropin).2 = { fs with nm := fs.nm.removed } := by
  rcases fs with ⟨_, _, _ | _ | _⟩ <;> rfl

@[simp] theorem unlink_state :
    (fs.unlink .state).2 = { fs with stateDir := fs.stateDir.map StateDir.cleared } := by
  rcases fs with ⟨_, _ | ⟨_, _ | _⟩, _⟩ <;> rfl

@[simp] theorem unlink_backup : (fs.unlink .backup).2 =
    { fs with stateDir := fs.stateDir.map (fun d => { d with backup := none }) } := by
  rcases fs with ⟨_, _ | ⟨_ | _, _⟩, _⟩ <;> rfl

@[simp] theorem put_resolvConf (b : ByteArray) :
    fs.put (.resolvConf b) = (.ok (), { fs with resolv := some (.file b) }) := rfl

@[simp] theorem put_backup (r : Option Node) (d : StateDir) (nm : NmConf) (b : ByteArray) :
    Fs.put ⟨r, some d, nm⟩ (.backup b) =
      (.ok (), ⟨r, some { d with backup := some b }, nm⟩) := rfl

@[simp] theorem put_state (r : Option Node) (d : StateDir) (nm : NmConf) (s : TakeoverState) :
    Fs.put ⟨r, some d, nm⟩ (.state s) =
      (.ok (), ⟨r, some { d with state := some (.json s) }, nm⟩) := rfl

def Node.ofTarget (b : ByteArray) : Option OsPath → Node
  | some t => .symlink t
  | none => .file b

def Fs.restored (fs : Fs) (b : ByteArray) : Fs where
  resolv := some (.ofTarget b fs.target)
  stateDir := some ⟨none, none⟩
  nm := if fs.dropsNm then fs.nm.removed else fs.nm

def Fs.putBack (fs : Fs) (b : ByteArray) : List SysOp :=
  match fs.target with
  | some t => [.remove .resolvConf, .symlinkResolv t]
  | none => [.writeAtomic (.resolvConf b)]

def Fs.restoreOps (fs : Fs) (b : ByteArray) : List SysOp :=
  [.backupExists, .readState, .readBackup] ++ fs.putBack b ++
    (if fs.dropsNm then [.remove .nmDropin] else []) ++ [.remove .state, .remove .backup]

namespace ResolvManager

theorem okOutcome_stateOutcome (st : Option StateText) :
    ∃ o, okOutcome (m.stateOutcome st) = .ok o ∧ o.join = st.bind StateText.fromStr := by
  rcases st with _ | _ | _
  · exact ⟨some none, rfl, rfl⟩
  · exact ⟨some (some _), rfl, rfl⟩
  · exact ⟨none, rfl, rfl⟩

theorem restore_run_none (h : fs.backup = none) :
    (ExceptT.run m.restore).run (handler env) fs =
      (.error (.err .noBackup), { fs with stateDir := fs.stateDir.map StateDir.cleared }) := by
  simp [restore, handler, h]

theorem restore_trace_none (h : fs.backup = none) :
    (ExceptT.run m.restore).trace (handler env) fs = [.backupExists, .remove .state] := by
  simp [restore, handler, h]

theorem stateDir_of_backup {b : ByteArray} (h : fs.backup = some b) :
    ∃ st, fs.stateDir = some ⟨some b, st⟩ := by
  obtain ⟨_, _ | ⟨_, st⟩, _⟩ := fs
  · cases h
  · obtain rfl := show _ = some b from h
    exact ⟨st, rfl⟩

theorem restore_run {b : ByteArray} (h : fs.backup = some b) :
    (ExceptT.run m.restore).run (handler env) fs = (.ok (), fs.restored b) := by
  obtain ⟨o, ho, hj⟩ := m.okOutcome_stateOutcome fs.state
  obtain ⟨st, hd⟩ := stateDir_of_backup h
  have htarget : o.join.bind TakeoverState.originalSymlinkTarget = fs.target := by rw [hj]; rfl
  have hdrops : o.join.all TakeoverState.wroteNmDropin = fs.dropsNm := by rw [hj]; rfl
  rcases ht : fs.target with _ | t <;> cases hw : fs.dropsNm <;>
    simp [restore, handler, h, ho, htarget, hdrops, ht, hw, hd, orNotFound, Fs.put,
      Fs.restored, Node.ofTarget, StateDir.cleared, Except.map]

theorem restore_trace {b : ByteArray} (h : fs.backup = some b) :
    (ExceptT.run m.restore).trace (handler env) fs = fs.restoreOps b := by
  obtain ⟨o, ho, hj⟩ := m.okOutcome_stateOutcome fs.state
  have htarget : o.join.bind TakeoverState.originalSymlinkTarget = fs.target := by rw [hj]; rfl
  have hdrops : o.join.all TakeoverState.wroteNmDropin = fs.dropsNm := by rw [hj]; rfl
  rcases ht : fs.target with _ | t <;> cases hw : fs.dropsNm <;>
    simp [restore, handler, h, ho, htarget, hdrops, ht, hw, orNotFound, Fs.put,
      Fs.restoreOps, Fs.putBack]

/-! ### `take_over` -/

def writesNm (m : ResolvManager) (nm : NmConf) : Bool :=
  m.nmDropin.parent.isSome && nm = .absent

def nmAfter (m : ResolvManager) (nm : NmConf) : NmConf :=
  if m.writesNm nm then .present NM_DROPIN_BODY.toByteArray else nm

def nmOps (m : ResolvManager) (nm : NmConf) : List SysOp :=
  match m.nmDropin.parent, nm with
  | none, _ => []
  | some _, .noConfD => [.nmParentIsDir]
  | some _, .present _ => [.nmParentIsDir, .nmDropinExists]
  | some _, .absent =>
    [.nmParentIsDir, .nmDropinExists, .writeAtomic (.nmDropin NM_DROPIN_BODY.toByteArray)]

theorem writeNmDropin_run : (ExceptT.run m.writeNmDropin).run (handler env) fs =
    (.ok (m.writesNm fs.nm), { fs with nm := m.nmAfter fs.nm }) := by
  obtain ⟨resolv, stateDir, nm⟩ := fs
  cases h : m.nmDropin.parent <;> cases nm <;>
    simp [writeNmDropin, handler, writesNm, nmAfter, Fs.put, Except.map, h]

theorem writeNmDropin_trace : (ExceptT.run m.writeNmDropin).trace (handler env) fs =
    m.nmOps fs.nm := by
  obtain ⟨resolv, stateDir, nm⟩ := fs
  cases h : m.nmDropin.parent <;> cases nm <;>
    simp [writeNmDropin, handler, nmOps, h]

theorem symlinkTarget_run : (ExceptT.run symlinkTarget).run (handler env) fs =
    (.ok (fs.resolv.bind Node.target), fs) := by
  obtain ⟨_ | _ | _, stateDir, nm⟩ := fs <;>
    simp [symlinkTarget, handler, orNotFound, Node.fileType, Node.target, Except.toOption,
      Except.map]

def linkOps (fs : Fs) : List SysOp :=
  if (fs.resolv.bind Node.target).isSome then [.lstatResolv, .readlinkResolv] else [.lstatResolv]

theorem symlinkTarget_trace : (ExceptT.run symlinkTarget).trace (handler env) fs =
    linkOps fs := by
  obtain ⟨_ | _ | _, stateDir, nm⟩ := fs <;>
    simp [symlinkTarget, linkOps, handler, orNotFound, Node.fileType, Node.target]

def recorded (m : ResolvManager) (pid : Pid) (now : UInt64) (fs : Fs) (text : String) :
    TakeoverState :=
  ⟨pid.raw, now, parseNameservers text, fs.resolv.bind Node.target, m.writesNm fs.nm⟩

end ResolvManager

def Fs.backedUp (m : ResolvManager) (text : String) (fs : Fs) : Fs where
  resolv := fs.resolv
  stateDir := some ⟨some text.toByteArray, fs.state⟩
  nm := m.nmAfter fs.nm

def Fs.recordedIn (m : ResolvManager) (pid : Pid) (now : UInt64) (text : String) (fs : Fs) :
    Fs where
  resolv := fs.resolv
  stateDir := some ⟨some text.toByteArray, some (.json (m.recorded pid now fs text))⟩
  nm := m.nmAfter fs.nm

def Fs.takenOver (m : ResolvManager) (pid : Pid) (now : UInt64) (listenAddr : IpAddr)
    (text : String) (fs : Fs) : Fs where
  resolv := some (.file (m.takeoverBody listenAddr).toByteArray)
  stateDir := some ⟨some text.toByteArray, some (.json (m.recorded pid now fs text))⟩
  nm := m.nmAfter fs.nm

/-- The link target, if there is one, can be written as JSON. -/
def Fs.linkIsText (fs : Fs) : Bool := (fs.resolv.bind Node.target).all ByteArray.validateUTF8

@[simp] theorem withStateDir_resolv : fs.withStateDir.resolv = fs.resolv := rfl

@[simp] theorem withStateDir_nm : fs.withStateDir.nm = fs.nm := rfl

@[simp] theorem withStateDir_state : fs.withStateDir.state = fs.state := by
  obtain ⟨_, _ | _, _⟩ := fs <;> rfl

@[simp] theorem withStateDir_backup : fs.withStateDir.backup = fs.backup := by
  obtain ⟨_, _ | _, _⟩ := fs <;> rfl

@[simp] theorem withStateDir_readText (links : OsPath → Option ByteArray) :
    fs.withStateDir.readText links = fs.readText links := rfl

@[simp] theorem withStateDir_put_backup (b : ByteArray) : fs.withStateDir.put (.backup b) =
    (.ok (), ⟨fs.resolv, some ⟨some b, fs.state⟩, fs.nm⟩) := by
  obtain ⟨_, _ | _, _⟩ := fs <;> rfl

namespace ResolvManager

@[simp] theorem linkOps_withStateDir : linkOps fs.withStateDir = linkOps fs := rfl

variable {pid : Pid} {now : UInt64} {listenAddr : IpAddr} {text : String}

theorem redirect_run (h : fs.readText env.links = .ok text) (hl : fs.linkIsText = true) :
    (ExceptT.run (m.redirect pid now listenAddr)).run (handler env) fs =
      (.ok (m.recorded pid now fs text), fs.takenOver m pid now listenAddr text) := by
  have hl' : (fs.resolv.bind Node.target).all ByteArray.validateUTF8 = true := hl
  simp [redirect, handler, h, symlinkTarget_run, writeNmDropin_run, serialises, hl',
    recorded, Fs.takenOver, Except.map]

def backupOps (m : ResolvManager) (fs : Fs) (text : String) : List SysOp :=
  [.createStateDir] ++ linkOps fs ++ [.readResolv, .writeAtomic (.backup text.toByteArray)] ++
    m.nmOps fs.nm

def redirectOps (m : ResolvManager) (pid : Pid) (now : UInt64) (listenAddr : IpAddr)
    (fs : Fs) (text : String) : List SysOp :=
  m.backupOps fs text ++ [.writeAtomic (.state (m.recorded pid now fs text)),
    .writeAtomic (.resolvConf (m.takeoverBody listenAddr).toByteArray)]

theorem redirect_trace (h : fs.readText env.links = .ok text) (hl : fs.linkIsText = true) :
    (ExceptT.run (m.redirect pid now listenAddr)).trace (handler env) fs =
      m.redirectOps pid now listenAddr fs text := by
  have hl' : (fs.resolv.bind Node.target).all ByteArray.validateUTF8 = true := hl
  simp [redirect, handler, h, symlinkTarget_run, symlinkTarget_trace, writeNmDropin_run,
    writeNmDropin_trace, serialises, hl', redirectOps, backupOps, recorded]

theorem redirect_run_panic (h : fs.readText env.links = .ok text) (hl : fs.linkIsText = false) :
    (ExceptT.run (m.redirect pid now listenAddr)).run (handler env) fs =
      (.error (.panic "state serialises"), fs.backedUp m text) := by
  have hl' : (fs.resolv.bind Node.target).all ByteArray.validateUTF8 = false := hl
  simp [redirect, handler, h, symlinkTarget_run, writeNmDropin_run, serialises, hl',
    Fs.backedUp]

theorem redirect_trace_panic (h : fs.readText env.links = .ok text)
    (hl : fs.linkIsText = false) :
    (ExceptT.run (m.redirect pid now listenAddr)).trace (handler env) fs =
      m.backupOps fs text := by
  have hl' : (fs.resolv.bind Node.target).all ByteArray.validateUTF8 = false := hl
  simp [redirect, handler, h, symlinkTarget_run, symlinkTarget_trace, writeNmDropin_run,
    writeNmDropin_trace, serialises, hl', backupOps]

theorem redirect_run_unread {e : ErrorKind} (h : fs.readText env.links = .error e) :
    (ExceptT.run (m.redirect pid now listenAddr)).run (handler env) fs =
      (.error (.err (ioErr m.resolvPath e)), fs.withStateDir) := by
  simp [redirect, handler, h, symlinkTarget_run]

theorem redirect_trace_unread {e : ErrorKind} (h : fs.readText env.links = .error e) :
    (ExceptT.run (m.redirect pid now listenAddr)).trace (handler env) fs =
      [.createStateDir] ++ linkOps fs ++ [.readResolv] := by
  simp [redirect, handler, h, symlinkTarget_run, symlinkTarget_trace]

/-! ### Absent, live and stale takeovers -/

theorem takeOver_run_fresh (h : fs.state = none) :
    (ExceptT.run (m.takeOver pid now listenAddr)).run (handler env) fs =
      (ExceptT.run (m.redirect pid now listenAddr)).run (handler env) fs := by
  simp [takeOver, clearTheWay, h, stateOutcome]

theorem takeOver_trace_fresh (h : fs.state = none) :
    (ExceptT.run (m.takeOver pid now listenAddr)).trace (handler env) fs =
      .readState :: (ExceptT.run (m.redirect pid now listenAddr)).trace (handler env) fs := by
  simp [takeOver, clearTheWay, h, stateOutcome]

theorem takeOver_run_alive {s : TakeoverState} (h : fs.state = some (.json s))
    (ha : alive env.procs s.pid = true) :
    (ExceptT.run (m.takeOver pid now listenAddr)).run (handler env) fs =
      (.error (.err (.alreadyActive s.pid)), fs) := by
  simp [takeOver, clearTheWay, h, stateOutcome, ha]

theorem takeOver_run_stale {s : TakeoverState} {b : ByteArray} (h : fs.state = some (.json s))
    (hb : fs.backup = some b) (ha : alive env.procs s.pid = false) :
    (ExceptT.run (m.takeOver pid now listenAddr)).run (handler env) fs =
      (ExceptT.run (m.redirect pid now listenAddr)).run (handler env) (fs.restored b) := by
  simp [takeOver, clearTheWay, h, stateOutcome, ha, restore_run hb]

theorem takeOver_trace_alive {s : TakeoverState} (h : fs.state = some (.json s))
    (ha : alive env.procs s.pid = true) :
    (ExceptT.run (m.takeOver pid now listenAddr)).trace (handler env) fs =
      .readState :: aliveOps s.pid := by
  simp [takeOver, clearTheWay, h, stateOutcome, ha]

theorem takeOver_trace_stale {s : TakeoverState} {b : ByteArray} (h : fs.state = some (.json s))
    (hb : fs.backup = some b) (ha : alive env.procs s.pid = false) :
    (ExceptT.run (m.takeOver pid now listenAddr)).trace (handler env) fs =
      .readState :: aliveOps s.pid ++ fs.restoreOps b ++
        (ExceptT.run (m.redirect pid now listenAddr)).trace (handler env) (fs.restored b) := by
  simp [takeOver, clearTheWay, h, stateOutcome, ha, restore_run hb, restore_trace hb]

theorem reconcileAfterCrash_trace_none (h : fs.state = none) :
    (ExceptT.run m.reconcileAfterCrash).trace (handler env) fs = [.readState] := by
  simp [reconcileAfterCrash, h, stateOutcome]

theorem reconcileAfterCrash_trace_alive {s : TakeoverState} (h : fs.state = some (.json s))
    (ha : alive env.procs s.pid = true) :
    (ExceptT.run m.reconcileAfterCrash).trace (handler env) fs = .readState :: aliveOps s.pid := by
  simp [reconcileAfterCrash, h, stateOutcome, ha]

theorem reconcileAfterCrash_trace_stale {s : TakeoverState} {b : ByteArray}
    (h : fs.state = some (.json s)) (hb : fs.backup = some b)
    (ha : alive env.procs s.pid = false) :
    (ExceptT.run m.reconcileAfterCrash).trace (handler env) fs =
      .readState :: aliveOps s.pid ++ fs.restoreOps b := by
  simp [reconcileAfterCrash, h, stateOutcome, ha, restore_trace hb]

theorem reconcileAfterCrash_run_none (h : fs.state = none) :
    (ExceptT.run m.reconcileAfterCrash).run (handler env) fs = (.ok none, fs) := by
  simp [reconcileAfterCrash, h, stateOutcome]

theorem reconcileAfterCrash_run_alive {s : TakeoverState} (h : fs.state = some (.json s))
    (ha : alive env.procs s.pid = true) :
    (ExceptT.run m.reconcileAfterCrash).run (handler env) fs =
      (.error (.err (.alreadyActive s.pid)), fs) := by
  simp [reconcileAfterCrash, h, stateOutcome, ha]

theorem reconcileAfterCrash_run_stale {s : TakeoverState} {b : ByteArray}
    (h : fs.state = some (.json s)) (hb : fs.backup = some b)
    (ha : alive env.procs s.pid = false) :
    (ExceptT.run m.reconcileAfterCrash).run (handler env) fs =
      (.ok (some s), fs.restored b) := by
  simp [reconcileAfterCrash, h, stateOutcome, ha, restore_run hb, Except.map]

/-! ### The calls that change the files -/

def recordWrites (m : ResolvManager) (pid : Pid) (now : UInt64) (fs : Fs) (text : String) :
    List SysOp :=
  [.createStateDir, .writeAtomic (.backup text.toByteArray)] ++
    (if m.writesNm fs.nm then [.writeAtomic (.nmDropin NM_DROPIN_BODY.toByteArray)] else []) ++
    [.writeAtomic (.state (m.recorded pid now fs text))]

def redirectWrites (m : ResolvManager) (pid : Pid) (now : UInt64) (listenAddr : IpAddr)
    (fs : Fs) (text : String) : List SysOp :=
  m.recordWrites pid now fs text ++
    [.writeAtomic (.resolvConf (m.takeoverBody listenAddr).toByteArray)]

theorem linkOps_filter : (linkOps fs).filter SysOp.modifies = [] := by
  unfold linkOps
  split <;> rfl

theorem nmOps_filter (nm : NmConf) : (m.nmOps nm).filter SysOp.modifies =
    if m.writesNm nm then [.writeAtomic (.nmDropin NM_DROPIN_BODY.toByteArray)] else [] := by
  cases h : m.nmDropin.parent <;> cases nm <;>
    simp [nmOps, writesNm, h, SysOp.modifies]

theorem redirectOps_filter : (m.redirectOps pid now listenAddr fs text).filter SysOp.modifies =
    m.redirectWrites pid now listenAddr fs text := by
  simp [redirectOps, backupOps, redirectWrites, recordWrites, linkOps_filter, nmOps_filter,
    SysOp.modifies, List.filter_cons]

theorem redirect_trace_filter (h : fs.readText env.links = .ok text) :
    ((ExceptT.run (m.redirect pid now listenAddr)).trace (handler env) fs).filter
        SysOp.modifies <+: m.redirectWrites pid now listenAddr fs text := by
  rw [← redirectOps_filter]
  apply List.IsPrefix.filter
  cases hl : fs.linkIsText with
  | true =>
    rewrite [redirect_trace h hl]
    exact List.prefix_rfl
  | false =>
    rw [redirect_trace_panic h hl]
    exact List.prefix_append _ _

/-- Every state a takeover of `fs` passes through, with the writes made so far: what holds of
these six holds at every crash point. -/
theorem redirect_stages {P : List SysOp → Fs → Prop}
    (start : P [] fs)
    (dir : P [.createStateDir] fs.withStateDir)
    (backup : P [.createStateDir, .writeAtomic (.backup text.toByteArray)]
      ⟨fs.resolv, some ⟨some text.toByteArray, fs.state⟩, fs.nm⟩)
    (dropin : m.writesNm fs.nm = true → P [.createStateDir,
      .writeAtomic (.backup text.toByteArray),
      .writeAtomic (.nmDropin NM_DROPIN_BODY.toByteArray)] (fs.backedUp m text))
    (record : P (m.recordWrites pid now fs text) (fs.recordedIn m pid now text))
    (redirected : P (m.redirectWrites pid now listenAddr fs text)
      (fs.takenOver m pid now listenAddr text)) :
    ∀ d, d <+: m.redirectWrites pid now listenAddr fs text → P d (exec (handler env) d fs) := by
  have hdir : handler env .createStateDir fs = (.ok (), fs.withStateDir) := rfl
  have hwrite (w : Write) (fs : Fs) : handler env (.writeAtomic w) fs = fs.put w := rfl
  cases hw : m.writesNm fs.nm with
  | false =>
    simp only [redirectWrites, recordWrites, hw] at record redirected ⊢
    simp only [forall_prefix_cons, forall_prefix_nil, List.cons_append, List.nil_append,
      exec_cons, exec_nil, hdir, hwrite, withStateDir_put_backup, put_state, put_resolvConf,
      Bool.false_eq_true, if_false]
    have hnm : m.nmAfter fs.nm = fs.nm := by simp [nmAfter, hw]
    simp only [Fs.recordedIn, Fs.takenOver, hnm] at record redirected
    exact ⟨start, dir, backup, record, redirected⟩
  | true =>
    have hnm : fs.nm = .absent := by
      simp [writesNm] at hw
      exact hw.2
    have hput (r : Option Node) (d : Option StateDir) (b : ByteArray) :
        Fs.put ⟨r, d, fs.nm⟩ (.nmDropin b) = (.ok (), ⟨r, d, .present b⟩) := by
      rw [hnm]; rfl
    have hafter : m.nmAfter fs.nm = .present NM_DROPIN_BODY.toByteArray := by
      simp [nmAfter, hw]
    simp only [redirectWrites, recordWrites, hw] at record redirected ⊢
    simp only [forall_prefix_cons, forall_prefix_nil, List.cons_append, List.nil_append,
      exec_cons, exec_nil, hdir, hwrite, withStateDir_put_backup, hput, put_state,
      put_resolvConf, if_true]
    simp only [Fs.backedUp, Fs.recordedIn, Fs.takenOver, hafter] at dropin record redirected
    exact ⟨start, dir, backup, dropin hw, record, redirected⟩

end ResolvManager

def Fs.restoreWrites (fs : Fs) (b : ByteArray) : List SysOp :=
  fs.putBack b ++ (if fs.dropsNm then [.remove .nmDropin] else []) ++
    [.remove .state, .remove .backup]

theorem restoreOps_filter (b : ByteArray) :
    (fs.restoreOps b).filter SysOp.modifies = fs.restoreWrites b := by
  cases ht : fs.target <;> cases hd : fs.dropsNm <;>
    simp [Fs.restoreOps, Fs.restoreWrites, Fs.putBack, ht, hd, SysOp.modifies]

def Fs.undoWrites (fs : Fs) (b : ByteArray) : List SysOp :=
  fs.putBack b ++ if fs.dropsNm then [.remove .nmDropin] else []

def Fs.undone (fs : Fs) (b : ByteArray) : Fs where
  resolv := some (.ofTarget b fs.target)
  stateDir := fs.stateDir
  nm := if fs.dropsNm then fs.nm.removed else fs.nm

/-- Every state a restore of `fs` passes through, with the changes made so far. -/
theorem restore_stages {b : ByteArray} (hb : fs.backup = some b) {P : List SysOp → Fs → Prop}
    (start : P [] fs)
    (unlinked : fs.target.isSome = true → P [.remove .resolvConf] { fs with resolv := none })
    (putBack : P (fs.putBack b) { fs with resolv := some (.ofTarget b fs.target) })
    (undone : P (fs.undoWrites b) (fs.undone b))
    (forgotten : P (fs.undoWrites b ++ [.remove .state])
      { fs.undone b with stateDir := some ⟨some b, none⟩ })
    (restored : P (fs.restoreWrites b) (fs.restored b)) :
    ∀ d, d <+: fs.restoreWrites b → P d (exec (handler env) d fs) := by
  obtain ⟨st, hd⟩ := ResolvManager.stateDir_of_backup hb
  have hremove (f : File) (fs : Fs) : handler env (.remove f) fs = fs.unlink f := rfl
  have hwrite (w : Write) (fs : Fs) : handler env (.writeAtomic w) fs = fs.put w := rfl
  have hlink (t : OsPath) (d : Option StateDir) (nm : NmConf) :
      handler env (.symlinkResolv t) ⟨none, d, nm⟩ =
        (.ok (), ⟨some (.symlink t), d, nm⟩) := rfl
  have hstate (r : Option Node) (nm : NmConf) :
      (Fs.unlink ⟨r, some ⟨some b, st⟩, nm⟩ .state).2 = ⟨r, some ⟨some b, none⟩, nm⟩ :=
    unlink_state
  have hbackup (r : Option Node) (nm : NmConf) :
      (Fs.unlink ⟨r, some ⟨some b, none⟩, nm⟩ .backup).2 = ⟨r, some ⟨none, none⟩, nm⟩ := rfl
  simp only [Fs.undoWrites, Fs.undone, Fs.restoreWrites, Fs.restored, Fs.putBack] at *
  cases ht : fs.target <;> cases hn : fs.dropsNm <;>
    simp only [ht, hn, hd, Bool.false_eq_true, if_false, if_true, List.append_nil,
      List.cons_append, List.nil_append, forall_prefix_cons, forall_prefix_nil, exec_cons,
      exec_nil, hremove, hwrite, hlink, hstate, hbackup, put_resolvConf, unlink_resolvConf,
      unlink_nmDropin, Node.ofTarget, Option.isSome_some, forall_const] at *
  · exact ⟨start, putBack, forgotten, restored⟩
  · exact ⟨start, putBack, undone, forgotten, restored⟩
  · exact ⟨start, unlinked, putBack, forgotten, restored⟩
  · exact ⟨start, unlinked, putBack, undone, forgotten, restored⟩

end Detour.ResolvConf
