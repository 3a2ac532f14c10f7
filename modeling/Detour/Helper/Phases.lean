import Detour.Helper.Machine
import Detour.Lib.Typestate

/-! The phases of a run, as far as its status is concerned: before the takeover it says nothing
of one, while it says so it leaves `resolv.conf` alone, and once the status is cleared it
publishes nothing. -/

namespace Detour.Helper

open Atomic Detour.Rust Detour.ResolvConf

inductive Phase
  | before
  | redirected
  | cleared

def Snapshot.claims (s : Snapshot) : Bool := s.active && s.tookOverResolvConf

end Detour.Helper

namespace Detour.ResolvConf

def SysOp.touchesResolv : SysOp → Bool
  | .writeAtomic (.resolvConf _) | .remove .resolvConf | .symlinkResolv _ => true
  | _ => false

theorem handler_of_not_touchesResolv (env : Env) {o : SysOp} (fs : Fs)
    (h : o.touchesResolv = false) : (handler env o fs).2.resolv = fs.resolv := by
  obtain ⟨resolv, stateDir, nm⟩ := fs
  cases o with
  | writeAtomic w =>
    cases w with
    | resolvConf b => cases h
    | backup b => cases stateDir <;> rfl
    | state s => cases stateDir <;> rfl
    | nmDropin b => cases nm <;> rfl
  | remove f =>
    cases f with
    | resolvConf => cases h
    | backup => rcases stateDir with _ | ⟨_ | _, _⟩ <;> rfl
    | state => rcases stateDir with _ | ⟨_, _ | _⟩ <;> rfl
    | nmDropin => cases nm <;> rfl
  | symlinkResolv target => cases h
  | readlinkResolv => rcases resolv with _ | _ | _ <;> rfl
  | _ => rfl

end Detour.ResolvConf

namespace Detour.Helper

open Atomic Detour.Rust Detour.ResolvConf

def Setup.IsTakeover (H : Setup) (resolv : Option Node) : Prop :=
  ∃ addr, H.cfg.listen = some addr ∧
    resolv = some (.file (H.manager.takeoverBody addr.ip).toByteArray)

/-! ### The protocols -/

def runProtocol (H : Setup) : Protocol Phase RunOp RunOp.Ret where
  permits
    | x, .reconcileAfterCrash | x, .currentNameservers => x = .before
    | x, .takeOver ip => x = .before ∧ ∃ addr, H.cfg.listen = some addr ∧ addr.ip = ip
    | x, .writeOnce base | x, .spawnStatus base =>
      x = .redirected ∨ x = .before ∧ base.claims = false
    | x, .restore => x ≠ .redirected
    | _, _ => True
  leads
    | _, .takeOver _, r, y => y = if r.isOk then .redirected else .before
    | _, .clear, _, y => y = .cleared
    | x, _, _, y => y = x

def hostProtocol (H : Setup) : Protocol Phase HostOp HostOp.Ret where
  permits
    | .redirected, .sys o => o.touchesResolv = false
    | .before, .stamp base | .before, .spawnStatus base => base.claims = false
    | .cleared, .stamp _ | .cleared, .spawnStatus _ | .cleared, .publish => False
    | _, _ => True
  leads x o _ y :=
    if o = .clear then y = .cleared
    else y = x ∨ x = .before ∧ y = .redirected ∧
      ∃ b, o = .sys (.writeAtomic (.resolvConf b)) ∧ H.IsTakeover (some (.file b))

def takeoverProtocol (body : ByteArray) : Protocol Bool SysOp SysOp.Ret where
  permits x _ := x = false
  leads _ o _ y := y = true → o = .writeAtomic (.resolvConf body)

/-! ### The manager -/

variable {H : Setup} {m : ResolvManager} {pid : Pid} {now : UInt64} {listenAddr : IpAddr}

theorem stays_before {body : ByteArray} (call : FsM α) :
    call.run.Follows (takeoverProtocol body) (fun y _ => y = false) false := by
  apply Prog.follows_of_all (T := fun _ => True) _ (Prog.all_true _)
  intro o _
  exact ⟨rfl, fun _ => nofun⟩

def TookOver (y : Bool) (r : Except Stop α) : Prop := y = r.isOk

theorem tookOver_bind {body : ByteArray} {call : FsM α} {f : α → FsM β}
    (hf : ∀ a, (ExceptT.run (f a)).Follows (takeoverProtocol body) TookOver false) :
    (ExceptT.run (call >>= f)).Follows (takeoverProtocol body) TookOver false := by
  refine Fallible.follows_bind (S := fun y _ => y = false) ?call (fun y a hy => hy ▸ hf a)
  case call =>
    refine (stays_before call).mono fun y r hy => ?_
    cases r with
    | ok a => exact hy
    | error e => exact hy

theorem takeOver_tookOver :
    (ExceptT.run (m.takeOver pid now listenAddr)).Follows
      (takeoverProtocol (m.takeoverBody listenAddr).toByteArray) TookOver false := by
  unfold ResolvManager.takeOver ResolvManager.redirect
  refine tookOver_bind fun _ => tookOver_bind fun _ => tookOver_bind fun _ =>
    tookOver_bind fun target => tookOver_bind fun _ => tookOver_bind fun original =>
    tookOver_bind fun _ => tookOver_bind fun dropin => tookOver_bind fun encoded =>
    tookOver_bind fun _ => ?_
  refine Fallible.follows_bind (S := fun y _ => y = true) ?_ fun y _ hy => hy
  refine Fallible.follows_sys_bind rfl fun r => ?_
  rcases r with (_ | _) | _
  · exact ⟨false, nofun, rfl⟩
  · exact ⟨false, nofun, rfl⟩
  · exact ⟨true, fun _ => rfl, rfl⟩

/-! ### The helper -/

theorem onHost_stays {x : Phase} (hx : x ≠ .redirected) (call : FsM α) :
    (onHost call).Follows (hostProtocol H) (fun y _ => y = x) x := by
  have hsys : (onHost call).All (fun o => ∃ s, o = .sys s) :=
    Prog.all_translate (fun o => (Prog.all_perform _).mpr ⟨o, rfl⟩) _
  refine Prog.follows_of_all ?_ hsys
  rintro _ ⟨o, rfl⟩
  refine ⟨?_, fun _ => .inl rfl⟩
  cases x with
  | before => trivial
  | redirected => exact absurd rfl hx
  | cleared => trivial

def Phase.ofTaken (taken : Bool) : Phase := if taken then .redirected else .before

theorem onHost_takeOver {addr : SocketAddr} (haddr : H.cfg.listen = some addr) :
    (onHost (H.manager.takeOver pid now addr.ip)).Follows (hostProtocol H)
      (fun y r => y = Phase.ofTaken r.isOk) .before := by
  refine Prog.Follows.translate (x := false) (e := Phase.ofTaken) ?_
    (takeOver_tookOver.mono fun y r hy => congrArg Phase.ofTaken hy)
  intro x o hx next hnext
  cases hx
  refine ⟨trivial, fun r => ⟨_, ?_, rfl⟩⟩
  cases hr : next r with
  | false => exact .inl rfl
  | true =>
    have ho := hnext r hr
    exact .inr ⟨rfl, rfl, _, congrArg HostOp.sys ho, addr, haddr, rfl⟩

theorem carry_follows (x : Phase) (o : RunOp) (hx : (runProtocol H).permits x o)
    (next : o.Ret → Phase) (hnext : ∀ r, (runProtocol H).leads x o r (next r)) :
    (carry H.manager H.cfg.pid o).Follows (hostProtocol H) (fun y r => y = next r) x := by
  have stay (o' : HostOp) (h : (hostProtocol H).permits x o') (hc : o' ≠ .clear)
      {next : o'.Ret → Phase} (hnext : ∀ r, next r = x) :
      (act o').Follows (hostProtocol H) (fun y r => y = next r) x :=
    ⟨h, fun r => ⟨x, by simp [hostProtocol, hc], (hnext r).symm⟩⟩
  cases o with
  | reconcileAfterCrash =>
    obtain rfl : x = .before := hx
    exact (onHost_stays (x := .before) nofun _).mono fun y r hy => hy.trans (hnext r).symm
  | currentNameservers =>
    obtain rfl : x = .before := hx
    exact (onHost_stays (x := .before) nofun _).mono fun y r hy => hy.trans (hnext r).symm
  | takeOver ip =>
    obtain ⟨rfl, addr, haddr, rfl⟩ := hx
    refine Prog.Follows.bind (stay .unixNow trivial nofun (fun _ => rfl)) ?_
    rintro _ t rfl
    exact (onHost_takeOver haddr).mono fun y r hy => hy.trans (hnext r).symm
  | restore => exact (onHost_stays hx _).mono fun y r hy => hy.trans (hnext r).symm
  | writeOnce base =>
    rcases hx with rfl | ⟨rfl, hbase⟩
    · refine Prog.Follows.bind (stay (.stamp base) trivial nofun (fun _ => rfl)) ?_
      rintro _ _ rfl
      exact stay .publish trivial nofun hnext
    · refine Prog.Follows.bind (stay (.stamp base) hbase nofun (fun _ => rfl)) ?_
      rintro _ _ rfl
      exact stay .publish trivial nofun hnext
  | spawnStatus base =>
    rcases hx with rfl | ⟨rfl, hbase⟩
    · exact stay (.spawnStatus base) trivial nofun hnext
    · exact stay (.spawnStatus base) hbase nofun hnext
  | abortStatus => exact stay .abortStatus (by cases x <;> trivial) nofun hnext
  | clear =>
    exact ⟨by cases x <;> trivial, fun r => ⟨.cleared, by simp [hostProtocol], (hnext r).symm⟩⟩
  | _ => exact stay (.ask _) (by cases x <;> trivial) nofun hnext

/-! ### `run` -/

variable {cfg : RunConfig}

def AnyEnd (_ : Phase) (_ : α) : Prop := True

theorem ask_bind {o : RunOp} {x : Phase} {Q : Phase → Except RunStop α → Prop}
    {f : o.Ret → RunM α} (ho : (runProtocol H).permits x o)
    (hstay : ∀ r, (runProtocol H).leads x o r x)
    (hf : ∀ r, (ExceptT.run (f r)).Follows (runProtocol H) Q x) :
    (ExceptT.run (ask o >>= f)).Follows (runProtocol H) Q x :=
  Fallible.follows_sys_bind ho fun r => ⟨x, hstay r, hf r⟩

theorem calm_bind {p : RunM α} {x : Phase} {Q : Phase → Except RunStop β → Prop} {f : α → RunM β}
    (hp : (ExceptT.run p).All (fun _ => False)) (he : ∀ e, Q x (.error e))
    (hf : ∀ a, (ExceptT.run (f a)).Follows (runProtocol H) Q x) :
    (ExceptT.run (p >>= f)).Follows (runProtocol H) Q x := by
  refine Fallible.follows_bind (S := fun y _ => y = x) ?_ fun y a hy => hy ▸ hf a
  refine (Prog.follows_of_all (P := runProtocol H) (x := x) nofun hp).mono fun y r hy => ?_
  cases r with
  | ok a => exact hy
  | error e => exact hy ▸ he e

def Started (H : Setup) (y : Phase) : Except RunStop Prepared → Prop
  | .ok p => y = .before ∧ H.cfg.listen = some p.listen
  | .error _ => True

theorem startUp_follows :
    (ExceptT.run (startUp H.cfg)).Follows (runProtocol H) (Started H) .before := by
  unfold startUp
  refine Fallible.follows_bind (S := fun y addr => y = .before ∧ H.cfg.listen = some addr)
    ?listen fun y addr haddr => ?_
  case listen =>
    unfold parseListen
    cases h : H.cfg.listen with
    | none => trivial
    | some addr => exact ⟨rfl, rfl⟩
  obtain ⟨rfl, haddr⟩ := haddr
  have he (e : RunStop) : Started H .before (.error e) := trivial
  refine ask_bind rfl (fun _ => rfl) fun r => calm_bind (all_orReconciled r) he fun _ => ?_
  refine ask_bind rfl (fun _ => rfl) fun r => calm_bind (all_orResolv _ r) he fun original => ?_
  refine ask_bind trivial (fun _ => rfl) fun r => calm_bind (all_orBuilt r) he fun names => ?_
  exact ask_bind trivial (fun _ => rfl) fun _ => ⟨rfl, haddr⟩

theorem select_follows {x : Phase} :
    (ExceptT.run select).Follows (runProtocol H) (fun y _ => y = x) x := by
  apply Prog.follows_of_all _ (all_select (P := (·.selects = true)) fun _ h => h)
  intro o ho
  cases o with
  | selectStart | pollCtrlC | pollSigterm | pollServer | park => exact ⟨trivial, fun _ => rfl⟩
  | _ => cases ho

theorem finish_follows {x : Phase} (tookOver : Bool) (arm : Arm) :
    (ExceptT.run (finish tookOver arm)).Follows (runProtocol H) AnyEnd x := by
  have clear_bind {f : Unit → RunM Unit}
      (hf : ∀ r, (ExceptT.run (f r)).Follows (runProtocol H) AnyEnd .cleared) :
      (ExceptT.run (ask .clear >>= f)).Follows (runProtocol H) AnyEnd x :=
    Fallible.follows_sys_bind trivial fun r => ⟨.cleared, rfl, hf r⟩
  have hshut : (ExceptT.run (shutDown tookOver)).Follows (runProtocol H) AnyEnd x := by
    unfold shutDown
    refine ask_bind trivial (fun _ => rfl) fun _ => clear_bind fun _ => ?_
    cases tookOver with
    | false => trivial
    | true =>
      refine ask_bind nofun (fun _ => rfl) fun r => ?_
      exact (Prog.follows_of_all (T := fun _ => False) nofun (all_orResolv _ r)).mono
        fun _ _ _ => trivial
  cases arm with
  | interrupted => exact hshut
  | terminated => exact hshut
  | server result =>
    refine calm_bind (all_joined result) (fun _ => trivial) fun r => ?_
    cases r with
    | ok u => exact hshut
    | error e =>
      refine ask_bind trivial (fun _ => rfl) fun _ => clear_bind fun _ => ?_
      cases tookOver with
      | false => trivial
      | true => exact ask_bind nofun (fun _ => rfl) fun _ => trivial

/-- A snapshot that claims a takeover is published only when one is made. -/
theorem serve_follows {x : Phase} {base : Snapshot}
    (hx : x = .redirected ∨ x = .before ∧ base.claims = false) :
    (ExceptT.run (serve base)).Follows (runProtocol H) AnyEnd x := by
  unfold serve
  refine ask_bind hx (fun _ => rfl) fun _ => ask_bind hx (fun _ => rfl) fun _ => ?_
  refine ask_bind trivial (fun _ => rfl) fun r => ?_
  refine calm_bind (all_orInstalled r) (fun _ => trivial) fun _ => ?_
  refine Fallible.follows_bind (S := fun y _ => y = x) ?_ fun y arm hy => finish_follows _ _
  refine select_follows.mono fun y r hy => ?_
  cases r with
  | ok arm => exact hy
  | error e => trivial

theorem run_follows :
    (ExceptT.run (run H.cfg)).Follows (runProtocol H) AnyEnd .before := by
  unfold run
  refine Fallible.follows_bind (S := fun y p => y = .before ∧ H.cfg.listen = some p.listen)
    (startUp_follows.mono ?_) ?_
  · intro y r hy
    cases r with
    | ok p => exact hy
    | error e => trivial
  rintro _ p ⟨rfl, hlisten⟩
  refine ask_bind trivial (fun _ => rfl) fun _ => ask_bind trivial (fun _ => rfl) fun r => ?_
  cases r with
  | some result =>
    refine calm_bind (all_joined result) (fun _ => trivial) fun r => ?_
    cases r <;> trivial
  | none =>
    unfold takeOverUnless
    cases H.cfg.noTakeover with
    | true => exact serve_follows (.inr ⟨rfl, rfl⟩)
    | false =>
      refine Fallible.follows_bind (S := fun y tookOver => y = .redirected) ?_
        fun y _ hy => serve_follows (.inl hy)
      refine Fallible.follows_sys_bind ⟨rfl, _, hlisten, rfl⟩ fun r => ?_
      rcases r with (_ | _) | s
      · exact ⟨.before, rfl, trivial⟩
      · exact ⟨.before, rfl, trivial⟩
      · exact ⟨.redirected, rfl, rfl⟩

/-- The helper's process keeps to its protocol from its start. -/
theorem helper_follows : ((run H.cfg).run.translate (carry H.manager H.cfg.pid)).Follows
    (hostProtocol H) AnyEnd .before := Prog.Follows.translate (e := id) carry_follows run_follows

end Detour.Helper
