import Detour.FilterRoute.Connections

/-! The commands of the control panel that have to do with the tunnel slice, as what they ask of
systemd, of the root helper and of the kernel. -/

namespace Detour.Gui

open Atomic Detour.Rust Detour.Tunnel

/-! ### What they ask for -/

def FILTER_TPROXY_PORT : UInt16 := 8089

structure TunnelApp where
  name : Text
  command : Text
  args : List Text
  process : Option Text
  deriving DecidableEq

def fileName (command : Text) : Text := (split '/' command).getLast?.getD command

def TunnelApp.processName (app : TunnelApp) : Text := app.process.getD (fileName app.command)

structure Presence where
  inside : Bool
  outside : Bool
  deriving DecidableEq

inductive HelperCall
  | tunnelUp
  | tunnelDown
  | filterUp (port : UInt16)
  | filterDown
  deriving DecidableEq

inductive GuiOp
  | configExists
  | isActive
  | runAnchor
  | helper (c : HelperCall)
  | stopAnchor
  | idleHolds
  | stopUnit (unit : Text)
  | filterRunning
  | tunnelApp (app : Text)
  | isUp
  | presence (entry : TunnelApp)
  | holdExists (unit : Text)
  | runHold (unit : Text)
  | spawn (entry : TunnelApp)
  | captureFlatpak (id unit : Text)
  | runScope (entry : TunnelApp)

@[reducible] def GuiOp.Ret : GuiOp → Type
  | .configExists => Except String Bool
  | .isActive | .filterRunning | .isUp | .holdExists _ => Bool
  | .runAnchor | .runHold _ | .spawn _ | .runScope _ => Except String Unit
  | .helper _ => Except String String
  | .stopAnchor | .stopUnit _ => Unit
  | .idleHolds => List Text
  | .tunnelApp _ => Except String (Option TunnelApp)
  | .presence _ => Presence
  | .captureFlatpak _ _ => Except String Nat

abbrev GuiM := Fallible GuiOp GuiOp.Ret String

abbrev ask (o : GuiOp) : GuiM o.Ret := Fallible.sys o

def orErr (context : String) : Except String α → GuiM α
  | .ok a => pure a
  | .error e => throw (context ++ e)

/-! ### The commands -/

def ensureAnchor : GuiM Unit := do
  if ← ask .isActive then return ()
  else orErr "" (← ask .runAnchor)

def pruneIdleHolds : Prog GuiOp GuiOp.Ret Unit :=
  Prog.perform GuiOp.idleHolds >>= Prog.forEach fun unit => Prog.perform (GuiOp.stopUnit unit)

def tunnelUp : GuiM String := do
  let there ← orErr "" (← ask .configExists)
  if there then
    ensureAnchor
    orErr "" (← ask (.helper .tunnelUp))
  else throw "No WireGuard config yet. Generate or import one first."

def tunnelDown : GuiM String := do
  let msg ← orErr "" (← ask (.helper .tunnelDown))
  ask .stopAnchor
  ExceptT.lift pruneIdleHolds
  return msg

def filterRouteOn : GuiM String := do
  if ← ask .filterRunning then
    ensureAnchor
    orErr "" (← ask (.helper (.filterUp FILTER_TPROXY_PORT)))
  else throw "Start the filter bypass first."

def filterRouteOff : GuiM String := do orErr "" (← ask (.helper .filterDown))

/-- `apps::flatpak_app_id`: the first argument after `run` that is no option. -/
def flatpakAppId (command : Text) (args : List Text) : Option Text :=
  if (split '/' command).getLast? = some "flatpak".toList then
    ((args.dropWhile (· ≠ "run".toList)).drop 1).find? fun a => a.head? ≠ some '-'
  else none

def holdUnit (appName : Text) : Text :=
  "detour-hold-".toList ++
    appName.map (fun c => if c.isAlphanum then c.toLower else '_') ++ ".scope".toList

def waitForHold (unit : Text) : Nat → GuiM Unit
  | 0 => throw "the holding scope did not appear"
  | rounds + 1 => do
    if ← ask (.holdExists unit) then return () else waitForHold unit rounds

def ensureHold (unit : Text) : GuiM Unit := do
  if ← ask (.holdExists unit) then return ()
  else
    orErr "could not create the holding scope: " (← ask (.runHold unit))
    waitForHold unit 100

def launchFlatpak (entry : TunnelApp) (label : String) (id : Text) : GuiM String := do
  ensureHold (holdUnit entry.name)
  orErr ("could not launch " ++ label ++ ": ") (← ask (.spawn entry))
  let moved ← orErr ("could not move " ++ label ++ " into the tunnel: ")
    (← ask (.captureFlatpak id (holdUnit entry.name)))
  if moved = 0 then
    throw (label ++ " started but could not be moved into the tunnel. Close it and " ++
      "check it is not running elsewhere.")
  else return "Launched " ++ label ++ " (Flatpak) inside the tunnel."

def launchScope (entry : TunnelApp) (label : String) : GuiM String := do
  orErr ("could not launch " ++ label ++ ": ") (← ask (.runScope entry))
  return "Launched " ++ label ++ " inside the tunnel."

def launchInside (entry : TunnelApp) (label : String) : GuiM String := do
  ensureAnchor
  ExceptT.lift pruneIdleHolds
  match flatpakAppId entry.command entry.args with
  | some id => launchFlatpak entry label id
  | none => launchScope entry label

/-- `String.quote` stands for `{:?}`. -/
def orNamed (app : Text) : Option TunnelApp → GuiM TunnelApp
  | some entry => pure entry
  | none => throw ("no tunnel app named " ++ (String.ofList app).quote)

def launchInTunnel (app : Text) : GuiM String := do
  let entry ← orNamed app (← orErr "" (← ask (.tunnelApp app)))
  let label := String.ofList entry.name
  -- Without the tunnel up there is no marking rule.
  if ← ask .isUp then
    let here ← ask (.presence entry)
    if here.outside then
      throw (label ++ " is already running outside the tunnel. Use \"Move into tunnel\" to " ++
        "bring it in without closing it.")
    else if here.inside then return label ++ " is already running inside the tunnel."
    else launchInside entry label
  else throw "Start the tunnel first."

/-! ### The operations of each part -/

variable {P : GuiOp → Prop} {entry : TunnelApp} {unit : Text}

theorem all_orErr {α : Type} (context : String) (r : Except String α) :
    (ExceptT.run (orErr context r)).All P := by
  cases r <;> trivial

theorem all_ensureAnchor (hactive : P .isActive) (hrun : P .runAnchor) :
    (ExceptT.run ensureAnchor).All P := by
  refine ⟨hactive, fun active => ?_⟩
  cases active with
  | true => trivial
  | false => exact ⟨hrun, fun r => all_orErr _ r⟩

theorem all_pruneIdleHolds (hidle : P .idleHolds) (hstop : ∀ unit, P (.stopUnit unit)) :
    pruneIdleHolds.All P :=
  ⟨hidle, Prog.all_forEach fun unit => Prog.all_perform _ |>.mpr (hstop unit)⟩

theorem all_waitForHold (hexists : P (.holdExists unit)) (rounds : Nat) :
    (ExceptT.run (waitForHold unit rounds)).All P := by
  induction rounds with
  | zero => trivial
  | succ rounds ih =>
    refine ⟨hexists, fun there => ?_⟩
    cases there with
    | true => trivial
    | false => exact ih

theorem all_ensureHold (hexists : P (.holdExists unit)) (hrun : P (.runHold unit)) :
    (ExceptT.run (ensureHold unit)).All P := by
  refine ⟨hexists, fun there => ?_⟩
  cases there with
  | true => trivial
  | false =>
    refine ⟨hrun, fun r => ?_⟩
    exact Fallible.all_bind (all_orErr _ r) fun _ => all_waitForHold hexists 100

theorem all_launchFlatpak (hexists : P (.holdExists (holdUnit entry.name)))
    (hrun : P (.runHold (holdUnit entry.name))) (hspawn : P (.spawn entry)) {id : Text}
    (hcapture : P (.captureFlatpak id (holdUnit entry.name))) (label : String) :
    (ExceptT.run (launchFlatpak entry label id)).All P := by
  apply Fallible.all_bind (all_ensureHold hexists hrun)
  intro _
  refine ⟨hspawn, fun r => Fallible.all_bind (all_orErr _ r) fun _ => ?_⟩
  refine ⟨hcapture, fun r => Fallible.all_bind (all_orErr _ r) fun moved => ?_⟩
  split <;> trivial

theorem all_launchScope (hrun : P (.runScope entry)) (label : String) :
    (ExceptT.run (launchScope entry label)).All P :=
  ⟨hrun, fun r => Fallible.all_bind (all_orErr _ r) fun _ => trivial⟩

end Detour.Gui
