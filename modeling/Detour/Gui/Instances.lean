import Detour.Gui.Scopes
import Detour.Gui.Slice
import Detour.Tunnel.Parse
import Mathlib.Data.List.Infix

/-! Which running instances of a native app the control panel notices. -/

namespace Detour.Gui

open Atomic Detour.Rust Detour.Tunnel

/-! ### Processes -/

def utf8 (s : Text) : List UInt8 := s.flatMap String.utf8EncodeChar

def contains (pat s : Text) : Bool := decide (pat <:+: s)

structure Running where
  pid : UInt32
  program : Text
  cgroup : Text

/-- The kernel keeps fifteen bytes of the name. -/
def Running.comm (p : Running) : List UInt8 := (utf8 p.program).take 15

def Running.cgroupFile (p : Running) : Text := "0::".toList ++ p.cgroup ++ ['\n']

structure ProcessTable where
  procs : List Running
  nodup : (procs.map Running.pid).Nodup

def ProcessTable.pgrep (t : ProcessTable) (name : Text) : Text :=
  unlines ((t.procs.filter fun p => p.comm = utf8 name).map fun p => Nat.toDigits 10 p.pid.toNat)

def ProcessTable.readCgroup (t : ProcessTable) (pid : UInt32) : Option Text :=
  (t.procs.find? fun p => p.pid = pid).map Running.cgroupFile

/-- PIDs of processes named `name`, split by whether they already run inside the tunnel slice;
`out` is what `pgrep` printed, if it could be started. -/
def runningSplit (out : Option Text) (readCgroup : UInt32 → Option Text) :
    List UInt32 × List UInt32 :=
  match out with
  | none => ([], [])
  | some out => ((lines out).filterMap fun l => parseU32 (trim l)).partition fun pid =>
      contains SLICE.toList ((readCgroup pid).getD [])

def presence (c : Cgroups) (t : ProcessTable) (entry : TunnelApp) : Presence :=
  match flatpakAppId entry.command entry.args with
  | some id => flatpakPresence c entry.name id
  | none =>
    let (inside, outside) := runningSplit (some (t.pgrep entry.processName)) t.readCgroup
    ⟨!inside.isEmpty, !outside.isEmpty⟩

/-! ### The browsers for the filter bypass -/

def FILTER_PORT : UInt16 := 8088

inductive BrowserOp
  | filterRunning
  | tunnelApp (app : Text)
  | runningSplit (name : Text)
  | spawn (command : Text) (args : List Text)

@[reducible] def BrowserOp.Ret : BrowserOp → Type
  | .filterRunning => Bool
  | .tunnelApp _ => Except String (Option TunnelApp)
  | .runningSplit _ => List UInt32 × List UInt32
  | .spawn _ _ => Except String Unit

abbrev BrowserM := Fallible BrowserOp BrowserOp.Ret String

def PROXY_BROWSERS : List Text := ["brave", "brave-browser", "chromium", "google-chrome-stable",
  "google-chrome", "vivaldi", "vivaldi-stable", "microsoft-edge"].map String.toList

def launchBrowser (entry : TunnelApp) (label : String) : BrowserM String :=
  if fileName entry.command ∈ PROXY_BROWSERS then do
    let (_, outside) ← Fallible.sys (BrowserOp.runningSplit (fileName entry.command))
    if outside.isEmpty then
      let flag := s!"--proxy-server=http://127.0.0.1:{FILTER_PORT.toNat}".toList
      match ← Fallible.sys (BrowserOp.spawn entry.command (flag :: entry.args)) with
      | .ok () => return "Launched " ++ label ++ " through the filter bypass."
      | .error e => throw ("could not launch " ++ label ++ ": " ++ e)
    else throw (label ++ " is already running, so a new launch would just reuse it without " ++
      "the proxy. Quit it completely first, then launch again.")
  else throw (label ++ " isn't a Chromium-family browser, so it can't take a --proxy-server " ++
    "flag. Filter bypass works with Brave, Chromium, Chrome, Vivaldi or Edge.")

/-- `String.quote` stands for `{:?}`. -/
def launchWithFilter (app : Text) : BrowserM String := do
  if ← Fallible.sys BrowserOp.filterRunning then
    match ← Fallible.sys (BrowserOp.tunnelApp app) with
    | .error e => throw e
    | .ok none => throw ("no app named " ++ (String.ofList app).quote)
    | .ok (some entry) => launchBrowser entry (String.ofList entry.name)
  else throw "Start the filter bypass first."

/-! ### What is found -/

variable {t : ProcessTable} {c : Cgroups} {entry : TunnelApp} {p : Running} {name : Text}

theorem parse_line (pid : UInt32) :
    parseU32 (trim (stripCr (Nat.toDigits 10 pid.toNat))) = some pid := by
  have hchars : ∀ c ∈ Nat.toDigits 10 pid.toNat, isWhitespace c = false :=
    fun c hc => (addrChar_of_mem_toDigits (.inl rfl) hc).plain.1
  have hline : stripCr (Nat.toDigits 10 pid.toNat) = Nat.toDigits 10 pid.toNat := by
    rw [stripCr]
    split
    · next hlast =>
      have hcr := hchars '\r' (List.mem_of_getLast? hlast)
      exact absurd hcr (by decide)
    · rfl
  rw [hline, trim_of_plain hchars, parseU32_toDigits]

theorem pids_pgrep (t : ProcessTable) (name : Text) :
    ((lines (t.pgrep name)).filterMap fun l => parseU32 (trim l)) =
      (t.procs.filter fun p => p.comm = utf8 name).map Running.pid := by
  rw [ProcessTable.pgrep, lines_unlines]
  · simp only [List.map_map, List.filterMap_map, Function.comp_def, parse_line]
    exact congrFun List.filterMap_eq_map _
  · intro l hl
    obtain ⟨p, -, rfl⟩ := List.mem_map.mp hl
    exact fun hmem => (addrChar_of_mem_toDigits (.inl rfl) hmem).plain.2.2 rfl

theorem readCgroup_pid (h : p ∈ t.procs) : t.readCgroup p.pid = some p.cgroupFile := by
  obtain ⟨procs, hnd⟩ := t
  rw [ProcessTable.readCgroup]
  change p ∈ procs at h
  change (procs.find? fun q => q.pid = p.pid).map Running.cgroupFile = _
  induction procs with
  | nil => cases h
  | cons q procs ih =>
    obtain ⟨hq, hnd⟩ := List.nodup_cons.mp hnd
    rcases List.mem_cons.mp h with rfl | hmem
    · simp
    · have hne : q.pid ≠ p.pid := fun heq => hq (heq ▸ List.mem_map_of_mem hmem)
      rw [List.find?_cons_of_neg (by simpa using hne)]
      exact ih hnd hmem

theorem outside_iff (t : ProcessTable) (name : Text) :
    (runningSplit (some (t.pgrep name)) t.readCgroup).2.isEmpty = false ↔
      ∃ p ∈ t.procs, p.comm = utf8 name ∧ ¬SLICE.toList <:+: p.cgroupFile := by
  simp only [runningSplit, pids_pgrep, List.partition_eq_filter_filter]
  rw [List.isEmpty_eq_false_iff_exists_mem]
  simp only [List.mem_filter, List.mem_map, Function.comp_apply, Bool.not_eq_true',
    decide_eq_true_eq]
  constructor
  · rintro ⟨_, ⟨p, ⟨hp, hcomm⟩, rfl⟩, hout⟩
    rw [readCgroup_pid hp, contains, decide_eq_false_iff_not] at hout
    exact ⟨p, hp, hcomm, hout⟩
  · rintro ⟨p, hp, hcomm, hout⟩
    refine ⟨p.pid, ⟨p, ⟨hp, hcomm⟩, rfl⟩, ?_⟩
    rw [readCgroup_pid hp, contains, decide_eq_false_iff_not]
    exact hout

theorem comm_eq_iff (h : p.program = name) : p.comm = utf8 name ↔ (utf8 name).length ≤ 15 := by
  rw [Running.comm, h, List.take_eq_self_iff]

/-! ### What is launched -/

def PresentOutside (entry : TunnelApp) : (o : GuiOp) → o.Ret → Prop
  | .tunnelApp _, r => r = .ok (some entry)
  | .presence e, r => e = entry → r.outside = true
  | _, _ => True

theorem launchInTunnel_refuses (entry : TunnelApp) (app : Text) :
    (ExceptT.run (launchInTunnel app)).Meets (PresentOutside entry) (fun _ => True)
      fun r => ∀ msg, r ≠ .ok msg := by
  refine ⟨trivial, ?_⟩
  rintro _ rfl
  refine ⟨trivial, fun up _ => ?_⟩
  cases up with
  | false => nofun
  | true =>
    refine ⟨trivial, fun here hhere => ?_⟩
    obtain ⟨inside, outside⟩ := here
    obtain rfl := hhere rfl
    nofun

def FoundOutside (entry : TunnelApp) : (o : BrowserOp) → o.Ret → Prop
  | .tunnelApp _, r => r = .ok (some entry)
  | .runningSplit name, r => name = fileName entry.command → r.2.isEmpty = false
  | _, _ => True

def SpawnsNothing : BrowserOp → Prop
  | .spawn _ _ => False
  | _ => True

theorem launchBrowser_refuses (entry : TunnelApp) (label : String) :
    (ExceptT.run (launchBrowser entry label)).Meets (FoundOutside entry) SpawnsNothing
      fun _ => True := by
  rw [launchBrowser]
  split
  · refine ⟨trivial, fun pids hpids => ?_⟩
    obtain ⟨inside, outside⟩ := pids
    cases outside with
    | nil => cases hpids rfl
    | cons pid outside => trivial
  · trivial

theorem launchWithFilter_refuses (entry : TunnelApp) (app : Text) :
    (ExceptT.run (launchWithFilter app)).Meets (FoundOutside entry) SpawnsNothing
      fun _ => True := by
  refine ⟨trivial, fun running _ => ?_⟩
  cases running with
  | false => trivial
  | true =>
    refine ⟨trivial, ?_⟩
    rintro _ rfl
    exact launchBrowser_refuses entry _

/-! ### What is noticed -/

def InTunnelSlice (uid : UInt32) (p : Running) : Prop :=
  split '/' ('/' :: (slicePath uid).toList) <+: split '/' p.cgroup

structure RunsOutside (uid : UInt32) (entry : TunnelApp) (p : Running) : Prop where
  started : p.program = fileName entry.command
  outside : ¬InTunnelSlice uid p

def launching (entry : TunnelApp) (p : Running) : Env GuiOp GuiOp.Ret (Cgroups × ProcessTable)
  | .tunnelApp _, _, r, _ => r = .ok (some entry)
  | .presence e, s, r, _ => p ∈ s.2.procs ∧ r = presence s.1 s.2 e
  | _, _, _, _ => True

def browsing (entry : TunnelApp) (p : Running) : Env BrowserOp BrowserOp.Ret ProcessTable
  | .tunnelApp _, _, r, _ => r = .ok (some entry)
  | .runningSplit name, t, r, _ =>
    p ∈ t.procs ∧ r = runningSplit (some (t.pgrep name)) t.readCgroup
  | _, _, _, _ => True

/-- The app counts as running outside, no launch succeeds, and no browser is started. -/
structure Noticed (entry : TunnelApp) (p : Running) : Prop where
  presence : ∀ c t, p ∈ t.procs → (presence c t entry).outside = true
  launch : ∀ app s d msg, ¬Prog.Visits (launching entry p) (ExceptT.run (launchInTunnel app)) s
    (.done (.ok msg)) d
  filter : ∀ app s d command args k, ¬Prog.Visits (browsing entry p)
    (ExceptT.run (launchWithFilter app)) s (.op (.spawn command args) k) d

theorem presence_outside (h : flatpakAppId entry.command entry.args = none) :
    (presence c t entry).outside = true ↔
      ∃ p ∈ t.procs, p.comm = utf8 entry.processName ∧ ¬SLICE.toList <:+: p.cgroupFile := by
  rw [← outside_iff, presence, h]
  change (!_) = true ↔ _
  rw [Bool.not_eq_true']

/-- An instance that runs outside is noticed exactly if the kernel keeps the whole file name of
the app's command and the cgroup of the process does not mention the slice anywhere. -/
theorem noticed_iff (uid : UInt32) (entry : TunnelApp) (p : Running)
    (hnative : flatpakAppId entry.command entry.args = none) (hprocess : entry.process = none)
    (hp : RunsOutside uid entry p) :
    Noticed entry p ↔
      (utf8 (fileName entry.command)).length ≤ 15 ∧ ¬SLICE.toList <:+: p.cgroupFile := by
  have hname : entry.processName = fileName entry.command := by
    rw [TunnelApp.processName, hprocess, Option.getD_none]
  constructor
  · intro h
    let t : ProcessTable := ⟨[p], by simp⟩
    have hout := h.presence ⟨[], fun _ => [], fun _ => none⟩ t (List.mem_singleton_self p)
    obtain ⟨q, hq, hcomm, hcgroup⟩ := (presence_outside hnative).mp hout
    obtain rfl := List.mem_singleton.mp hq
    rw [hname] at hcomm
    exact ⟨(comm_eq_iff hp.started).mp hcomm, hcgroup⟩
  · rintro ⟨hshort, hcgroup⟩
    have hcomm := (comm_eq_iff hp.started).mpr hshort
    have hpresence (c : Cgroups) (t : ProcessTable) (ht : p ∈ t.procs) :
        (Gui.presence c t entry).outside = true := by
      apply (presence_outside hnative).mpr
      rw [hname]
      exact ⟨p, ht, hcomm, hcgroup⟩
    refine ⟨hpresence, ?_, ?_⟩
    · intro app s d msg hv
      refine (launchInTunnel_refuses entry app).visits (fun o s r t he => ?_) hv msg rfl
      cases o with
      | tunnelApp a => exact he
      | presence e =>
        rintro rfl
        rw [he.2]
        exact hpresence s.1 s.2 he.1
      | _ => trivial
    · intro app s d command args k hv
      refine ((launchWithFilter_refuses entry app).visits (fun o t r t' he => ?_) hv).1
      cases o with
      | tunnelApp a => exact he
      | runningSplit name =>
        rintro rfl
        rw [he.2]
        exact (outside_iff t _).mpr ⟨p, he.1, hcomm, hcgroup⟩
      | _ => trivial

def brave : TunnelApp := ⟨"Brave".toList, "/usr/bin/brave".toList, [], none⟩

def braveWindow : Running := ⟨4711, "brave".toList,
  "/user.slice/user-1000.slice/user@1000.service/app.slice/app-brave.scope".toList⟩

theorem brave_noticed : Noticed brave braveWindow := by
  apply (noticed_iff 1000 brave braveWindow (by decide +kernel) rfl ⟨by decide +kernel, ?_⟩).mpr
  · decide +kernel
  · unfold InTunnelSlice
    decide +kernel

def chrome : TunnelApp := ⟨"Chrome".toList, "google-chrome-stable".toList, [], none⟩

def chromeWindow : Running := ⟨4711, "google-chrome-stable".toList,
  "/user.slice/user-1000.slice/user@1000.service/app.slice/app-chrome.scope".toList⟩

/-- A name of twenty bytes is not found. -/
theorem chrome_unnoticed : ¬∀ uid entry p, flatpakAppId entry.command entry.args = none →
    entry.process = none → RunsOutside uid entry p → Noticed entry p := by
  intro hall
  have hout : ¬InTunnelSlice 1000 chromeWindow := by
    unfold InTunnelSlice
    decide +kernel
  have hnative : flatpakAppId chrome.command chrome.args = none := by decide +kernel
  have hstarted : chromeWindow.program = fileName chrome.command := by decide +kernel
  have hnoticed := hall 1000 chrome chromeWindow hnative rfl ⟨hstarted, hout⟩
  let t : ProcessTable := ⟨[chromeWindow], by simp⟩
  have hfound := hnoticed.presence ⟨[], fun _ => [], fun _ => none⟩ t (List.mem_singleton_self _)
  obtain ⟨p, hp, hcomm, -⟩ := (presence_outside hnative).mp hfound
  obtain rfl := List.mem_singleton.mp hp
  have hcut : chromeWindow.comm ≠ utf8 chrome.processName := by decide +kernel
  exact hcut hcomm

end Detour.Gui
