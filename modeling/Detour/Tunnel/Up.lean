import Detour.Tunnel.Kernel

/-! `tunnel::up` and `tunnel::down`: the commands they run and what they do when one fails. -/

namespace Detour.Tunnel

open Atomic Detour.Rust Detour.ResolvConf

/-! ### What they ask for -/

inductive Output
  | notSpawned (source : ErrorKind)
  | exited (success : Bool) (stderr : Text)
  deriving DecidableEq

inductive Op
  | exec (c : Command)
  | createDirAll (dir : Path)
  | toSocketAddrs (endpoint : Text)
  | openTruncate (path : Path)
  | writeAll (path : Path) (contents : Content)
  | removeFile (path : Path)

@[reducible] def Op.Ret : Op → Type
  | .exec _ => Output
  | .createDirAll _ | .openTruncate _ | .writeAll _ _ | .removeFile _ => Except ErrorKind Unit
  | .toSocketAddrs _ => Option (List SocketAddr)

inductive TunnelError
  | invalidConfig (message : String)
  | read (path : Path) (source : ErrorKind)
  | command (command : String) (stderr : Text)
  | spawn (command : String) (source : ErrorKind)
  deriving DecidableEq

abbrev TunnelM := Fallible Op Op.Ret TunnelError

abbrev ask (o : Op) : TunnelM o.Ret := Fallible.sys o

/-! ### Steps -/

/-- One setup step. Optional steps (IPv6 fail-closed) may fail on hosts with IPv6 disabled. -/
structure Step where
  command : Command
  optional : Bool
  deriving DecidableEq

def step (c : Command) : Step := ⟨c, false⟩

def optional (c : Command) : Step := ⟨c, true⟩

def upSteps (config : WgConfig) (setconfPath nftPath : Path) : List Step :=
  [step .linkAdd, step (.wgSetconf setconfPath)] ++
  config.addressesV4.map (fun addr => step (.addressAdd addr)) ++
  [step (.linkSetUp (config.mtu.getD DEFAULT_MTU)),
    step .routeAddDefault,
    -- Fail closed: if the interface goes away its route goes with it, and this is what marked
    -- traffic hits instead of the main table.
    step .routeAddUnreachable,
    step .ruleAdd,
    optional .routeAddUnreachable6,
    optional .ruleAdd6,
    step (.nftLoad nftPath)]

def downSteps : List Step :=
  [optional (.nftDelete .inet NFT_TABLE),
    optional .ruleDel,
    optional .ruleDel6,
    optional .routeFlush,
    optional .routeFlush6,
    optional .linkDel]

def commandLine (c : Command) : String := " ".intercalate c.argv

def settle (s : Step) : Output → Except TunnelError Unit
  | .notSpawned source => .error (.spawn (commandLine s.command) source)
  | .exited true _ => .ok ()
  | .exited false stderr =>
    if s.optional then .ok () else .error (.command (commandLine s.command) (trim stderr))

def run (s : Step) : TunnelM Unit := do
  let output ← ask (.exec s.command)
  ExceptT.mk (pure (settle s output))

/-! ### `down` and `up` -/

def tryRun (s : Step) : Prog Op Op.Ret Unit := ExceptT.run (run s) >>= fun _ => pure ()

def down : Prog Op Op.Ret Unit := Prog.forEach tryRun downSteps

def orRead (path : Path) : Except ErrorKind Unit → TunnelM Unit
  | .ok () => pure ()
  | .error source => throw (.read path source)

def writePrivate (path : Path) (contents : Content) : TunnelM Unit := do
  orRead path (← ask (.openTruncate path))
  orRead path (← ask (.writeAll path contents))

def resolveEndpointV4 (endpoint : Text) : TunnelM (Option Text) :=
  if (parseSocketAddrV4 endpoint).isSome then pure (some endpoint)
  else do
    let addrs ← ask (.toSocketAddrs endpoint)
    return (addrs.bind (·.find? fun a => match a.ip with
      | .v4 _ => true
      | .v6 _ => false)).map (fun a => a.display.toList)

def pinnedSetconf (config : WgConfig) : TunnelM Text :=
  match config.endpoint with
  | none => pure config.setconf
  | some ep => do
    match ← resolveEndpointV4 ep with
    | some v4 => return withEndpoint config.setconf v4
    | none => throw (.invalidConfig
        ("could not resolve an IPv4 address for endpoint " ++ String.ofList ep))

def setconfPath (workDir : Path) : Path := workDir ++ "/wg-setconf.conf"

def nftPath (workDir : Path) : Path := workDir ++ "/tunnel.nft"

def prepare (config : WgConfig) (uid : UInt32) (workDir : Path) : TunnelM Unit := do
  orRead workDir (← ask (.createDirAll workDir))
  let setconf ← pinnedSetconf config
  writePrivate (setconfPath workDir) (.data setconf)
  writePrivate (nftPath workDir) (.ruleset (nftRuleset uid))

def conclude (result : Except TunnelError Unit) : TunnelM Unit :=
  match result with
  | .ok () => pure ()
  | .error e => do
    ExceptT.lift down
    throw e

def up (config : WgConfig) (uid : UInt32) (workDir : Path) : TunnelM Unit := do
  ExceptT.lift down
  prepare config uid workDir
  let result ← ExceptT.lift (ExceptT.run
    (Fallible.tryForEach run (upSteps config (setconfPath workDir) (nftPath workDir))))
  -- The private key has been handed to the kernel; do not leave a copy.
  let _ ← ask (.removeFile (setconfPath workDir))
  conclude result

/-! ### What may be answered -/

/-- A command that is refused changes nothing, and one that succeeds has its effect.  A write
that fails may leave a part of the text. -/
def Op.answers : (o : Op) → World → o.Ret → World → Prop
  | .exec c, w, r, w' =>
    (w' = w ∧ ∀ stderr, r ≠ .exited true stderr) ∨
      ((∃ stderr, r = .exited true stderr) ∧ c.effect w = some w')
  | .openTruncate path, w, r, w' =>
    (∃ e, r = .error e ∧ w' = w) ∨
      (r = .ok () ∧ w' = { w with files := Function.update w.files path (some (.data [])) })
  | .writeAll path contents, w, r, w' =>
    (r = .ok () ∧ w' = { w with files := Function.update w.files path (some contents) }) ∨
      ∃ e written, r = .error e ∧ (∀ text, contents = .data text → written <+: text) ∧
        w' = { w with files := Function.update w.files path (some (.data written)) }
  | .removeFile path, w, r, w' =>
    (∃ e, r = .error e ∧ w' = w) ∨
      (r = .ok () ∧ w' = { w with files := Function.update w.files path none })
  | .createDirAll _, w, _, w' => w' = w
  | .toSocketAddrs _, w, _, w' => w' = w

abbrev anyhow : Env Op Op.Ret World := Op.answers

end Detour.Tunnel
