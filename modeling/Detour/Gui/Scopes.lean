import Detour.Gui.Launches
import Detour.Lib.Answers
import Detour.Rust.AddrText

/-! The scopes that flatpak makes, and the commands that look for an app's own among them. -/

namespace Detour.Gui

open Atomic Detour.Rust Detour.Tunnel

/-! ### The commands -/

def flatpakScopes (appSlice : List Text) (id : Text) : List Text :=
  appSlice.filter fun n =>
    ("app-flatpak-".toList ++ id ++ ['-']).isPrefixOf n && ".scope".toList.isSuffixOf n

structure Cgroups where
  appSlice : List Text
  scopes : Text → List Process
  holds : Text → Option (List Process)

def flatpakPresence (c : Cgroups) (appName id : Text) : Presence where
  inside := ((c.holds (holdUnit appName)).getD []).any fun p => p.comm ≠ "sleep".toList
  outside := (flatpakScopes c.appSlice id).any fun s => !(c.scopes s).isEmpty

inductive AppOp
  | launch (o : LaunchOp)
  | runningSplit (name : Text)
  /-- what the root helper is asked to move -/
  | attach (unit : Text) (pids : List Nat)

@[reducible] def AppOp.Ret : AppOp → Type
  | .launch o => o.Ret
  | .runningSplit _ => List Nat × List Nat
  | .attach _ _ => Except String String

abbrev AppM := Fallible AppOp AppOp.Ret String

def ofLaunch (p : LaunchM α) : AppM α :=
  ExceptT.mk ((ExceptT.run p).translate fun o =>
    (Prog.perform (AppOp.launch o) : Prog AppOp AppOp.Ret _))

def ofGui (p : GuiM α) : AppM α :=
  ExceptT.mk ((ExceptT.run p).translate fun o =>
    (Prog.perform (AppOp.launch (.gui o)) : Prog AppOp AppOp.Ret _))

def procsOf : List Text → AppM (List Nat)
  | [] => return []
  | scope :: scopes => do
    let pids ← Fallible.sys (AppOp.launch (.procs scope))
    return pids ++ (← procsOf scopes)

def outsidePids (entry : TunnelApp) : AppM (List Nat) :=
  match flatpakAppId entry.command entry.args with
  | some id => do procsOf (← Fallible.sys (AppOp.launch (.flatpakScopes id)))
  | none => do return (← Fallible.sys (AppOp.runningSplit entry.processName)).2

def attachToTunnel (app : Text) : AppM String := do
  if ← ofGui (ask .isUp) then
    let entry ← ofGui (do orNamed app (← orErr "" (← ask (.tunnelApp app))))
    let pids ← outsidePids entry
    if pids = [] then throw (String.ofList entry.name ++ " is not running outside the tunnel.")
    else
      ofGui ensureAnchor
      ofGui (ensureHold (holdUnit entry.name))
      match ← Fallible.sys (AppOp.attach (holdUnit entry.name) pids) with
      | .ok msg => return msg
      | .error e => throw e
  else throw "Start the tunnel first."

/-! ### Names -/

structure Scope where
  id : Text
  n : Nat

def Scope.number (s : Scope) : Text := Nat.toDigits 10 s.n ++ ".scope".toList

def Scope.name (s : Scope) : Text := "app-flatpak-".toList ++ (s.id ++ '-' :: s.number)

variable {running : List Scope} {id : Text} {s : Scope}

theorem dash_notMem_number (s : Scope) : '-' ∉ s.number := by
  rw [Scope.number, List.mem_append, not_or]
  refine ⟨fun h => ?_, by decide⟩
  have hchar : AddrChar '-' := addrChar_of_mem_toDigits (.inl rfl) h
  unfold AddrChar at hchar
  exact absurd hchar (by decide)

theorem prefix_dash_iff {a b rest : Text} (h : '-' ∉ rest) :
    a ++ ['-'] <+: b ++ '-' :: rest ↔ a = b ∨ a ++ ['-'] <+: b := by
  induction a generalizing b with
  | nil =>
    cases b with
    | nil => simp
    | cons c b => simp
  | cons x a ih =>
    cases b with
    | nil =>
      simp only [List.cons_append, List.nil_append, List.cons_prefix_cons]
      constructor
      · rintro ⟨-, hpre⟩
        exact absurd (hpre.subset (by simp)) h
      · simp
    | cons y b =>
      simp only [List.cons_append, List.cons_prefix_cons, ih, List.cons.injEq]
      tauto

theorem Scope.suffix_name (s : Scope) : ".scope".toList <:+ s.name := by
  unfold Scope.name Scope.number
  generalize "app-flatpak-".toList = pre, ".scope".toList = suffix
  exact ⟨pre ++ (s.id ++ '-' :: Nat.toDigits 10 s.n), by simp⟩

theorem mem_flatpakScopes {appSlice : List Text} (s : Scope) : s.name ∈ flatpakScopes appSlice id ↔
    s.name ∈ appSlice ∧ (id = s.id ∨ id ++ ['-'] <+: s.id) := by
  have hsuffix := s.suffix_name
  unfold flatpakScopes
  rewrite [List.mem_filter, Bool.and_eq_true, List.isPrefixOf_iff_prefix,
    List.isSuffixOf_iff_suffix, and_iff_left hsuffix]
  unfold Scope.name
  generalize "app-flatpak-".toList = pre
  rw [List.append_assoc, List.prefix_append_right_inj, prefix_dash_iff (dash_notMem_number s)]

theorem name_id {s t : Scope} (h : s.name = t.name) : s.id = t.id := by
  unfold Scope.name at h
  replace h := List.append_cancel_left h
  have hpre : s.id ++ ['-'] <+: t.id ++ '-' :: t.number := by
    rw [← h]
    exact ⟨s.number, List.append_cons .. |>.symm⟩
  have hpre' : t.id ++ ['-'] <+: s.id ++ '-' :: s.number := by
    rw [h]
    exact ⟨t.number, List.append_cons .. |>.symm⟩
  rcases (prefix_dash_iff (dash_notMem_number t)).mp hpre with heq | hlt
  · exact heq
  rcases (prefix_dash_iff (dash_notMem_number s)).mp hpre' with heq | hgt
  · exact heq.symm
  have h1 := hlt.length_le
  have h2 := hgt.length_le
  simp only [List.length_append, List.length_singleton] at h1 h2
  omega

/-! ### Whose processes are found -/

/-- These are the scopes that are running, and `owner` is the app of every process in them. -/
structure Shows (running : List Scope) (owner : Nat → Option Text) (c : Cgroups) : Prop where
  listed : ∀ name, "app-flatpak-".toList <+: name →
    (name ∈ c.appSlice ↔ ∃ s ∈ running, s.name = name)
  owned : ∀ s : Scope, ∀ p ∈ c.scopes s.name, owner p.pid = some s.id

def Cgroups.Answers (c : Cgroups) : (o : AppOp) → o.Ret → Prop
  | .launch (.flatpakScopes id), r => r = flatpakScopes c.appSlice id
  | .launch (.procs scope), r => r = (c.scopes scope).map Process.pid
  | .launch (.gui (.presence entry)), r => ∀ id, flatpakAppId entry.command entry.args = some id →
    r = flatpakPresence c entry.name id
  | _, _ => True

def apps (running : List Scope) (owner : Nat → Option Text) : Env AppOp AppOp.Ret Cgroups :=
  fun o c r d => Shows running owner c ∧ c.Answers o r ∧ Shows running owner d

/-- No scope of another app, whose id extends this one by a dash, is running. -/
def Apart (running : List Scope) (id : Text) : Prop := ∀ s ∈ running, ¬(id ++ ['-'] <+: s.id)

variable {owner : Nat → Option Text} {c : Cgroups}

theorem prefix_of_mem_flatpakScopes {name : Text} (h : name ∈ flatpakScopes c.appSlice id) :
    "app-flatpak-".toList <+: name ∧ name ∈ c.appSlice := by
  unfold flatpakScopes at h
  rewrite [List.mem_filter, Bool.and_eq_true, List.isPrefixOf_iff_prefix] at h
  obtain ⟨hmem, hpre, -⟩ := h
  rewrite [List.append_assoc] at hpre
  exact ⟨(List.prefix_append _ _).trans hpre, hmem⟩

theorem Shows.mem_flatpakScopes_iff (h : Shows running owner c) (hapart : Apart running id)
    (name : Text) : name ∈ flatpakScopes c.appSlice id ↔
      ∃ s ∈ running, s.id = id ∧ s.name = name := by
  constructor
  · intro hmem
    obtain ⟨hpre, hlisted⟩ := prefix_of_mem_flatpakScopes hmem
    obtain ⟨s, hs, rfl⟩ := (h.listed name hpre).mp hlisted
    rcases ((mem_flatpakScopes s).mp hmem).2 with hid | hext
    · exact ⟨s, hs, hid.symm, rfl⟩
    · exact absurd hext (hapart s hs)
  · rintro ⟨s, hs, hid, rfl⟩
    have hlisted := (h.listed s.name ⟨_, rfl⟩).mpr ⟨s, hs, rfl⟩
    exact (mem_flatpakScopes s).mpr ⟨hlisted, .inl hid.symm⟩

theorem Shows.outside_iff (h : Shows running owner c) (hapart : Apart running id) (name : Text) :
    (flatpakPresence c name id).outside = true ↔
      ∃ s ∈ running, s.id = id ∧ c.scopes s.name ≠ [] := by
  have hmem := h.mem_flatpakScopes_iff hapart
  simp only [flatpakPresence, List.any_eq_true, hmem, Bool.not_eq_true',
    List.isEmpty_eq_false_iff]
  constructor
  · rintro ⟨_, ⟨s, hs, hid, rfl⟩, hne⟩
    exact ⟨s, hs, hid, hne⟩
  · rintro ⟨s, hs, hid, hne⟩
    exact ⟨_, ⟨s, hs, hid, rfl⟩, hne⟩

/-! ### What is moved -/

def Own (owner : Nat → Option Text) (id : Text) : (o : LaunchOp) → o.Ret → Prop
  | .flatpakScopes id', r => id' = id → ∀ name ∈ r, ∃ s : Scope, s.id = id ∧ s.name = name
  | .procs scope, r => ∀ s : Scope, s.name = scope → ∀ pid ∈ r, owner pid = some s.id
  | _, _ => True

def MovesOwn (owner : Nat → Option Text) (id unit : Text) : LaunchOp → Prop
  | .move pid u => owner pid = some id ∧ u = unit
  | _ => True

theorem moveAll_own {unit : Text} {pids : List Nat} (h : ∀ pid ∈ pids, owner pid = some id)
    (moved : Nat) : (ExceptT.run (moveAll unit moved pids)).All (MovesOwn owner id unit) := by
  induction pids generalizing moved with
  | nil => trivial
  | cons pid pids ih =>
    obtain ⟨hpid, hpids⟩ := List.forall_mem_cons.mp h
    refine ⟨⟨hpid, rfl⟩, fun r => ?_⟩
    match r with
    | .ok () => exact ih hpids (moved + 1)
    | .error .gone => exact ih hpids moved
    | .error (.other _) => trivial

theorem sweep_own {unit : Text} {scopes : List Text}
    (h : ∀ name ∈ scopes, ∃ s : Scope, s.id = id ∧ s.name = name) (moved : Nat) :
    (ExceptT.run (sweep unit moved scopes)).Meets (Own owner id) (MovesOwn owner id unit)
      fun _ => True := by
  induction scopes generalizing moved with
  | nil => trivial
  | cons scope scopes ih =>
    obtain ⟨⟨s, hid, hname⟩, hscopes⟩ := List.forall_mem_cons.mp h
    apply Fallible.meets_bind (S := fun _ => True) (fun _ => trivial)
    · refine ⟨trivial, fun pids hpids => ?_⟩
      have hown : ∀ pid ∈ pids, owner pid = some id := by
        rw [← hid]
        exact hpids s hname
      apply (Prog.meets_of_all (moveAll_own hown 0)).mono
      intro r _
      cases r <;> trivial
    · exact fun n _ => ih hscopes (moved + n)

theorem captureRounds_own (unit : Text) (rounds moved : Nat) :
    (ExceptT.run (captureRounds id unit rounds moved)).Meets (Own owner id)
      (MovesOwn owner id unit) fun _ => True := by
  induction rounds generalizing moved with
  | zero => trivial
  | succ rounds ih =>
    refine ⟨trivial, fun late _ => ?_⟩
    cases late with
    | true => trivial
    | false =>
      refine ⟨trivial, fun scopes hscopes => ?_⟩
      apply Fallible.meets_bind (S := fun _ => True) (fun _ => trivial)
      · apply (sweep_own (hscopes rfl) moved).mono
        intro r _
        cases r <;> trivial
      · intro moved _
        split
        · refine ⟨trivial, fun settled _ => ?_⟩
          cases settled with
          | true => trivial
          | false => exact ih moved
        · exact ih moved

theorem captureFlatpak_own (unit : Text) : (ExceptT.run (captureFlatpak id unit)).Meets
    (Own owner id) (MovesOwn owner id unit) fun _ => True := captureRounds_own unit 4001 0

def OwnApp (owner : Nat → Option Text) (id : Text) : (o : AppOp) → o.Ret → Prop
  | .launch o, r => Own owner id o r
  | _, _ => True

theorem procsOf_own {P : AppOp → Prop} (hprocs : ∀ scope, P (.launch (.procs scope)))
    {scopes : List Text} (h : ∀ name ∈ scopes, ∃ s : Scope, s.id = id ∧ s.name = name) :
    (ExceptT.run (procsOf scopes)).Meets (OwnApp owner id) P
      (Fallible.Unless fun pids => ∀ pid ∈ pids, owner pid = some id) := by
  induction scopes with
  | nil => exact fun _ hpid => absurd hpid List.not_mem_nil
  | cons scope scopes ih =>
    obtain ⟨⟨s, hid, hname⟩, hscopes⟩ := List.forall_mem_cons.mp h
    refine ⟨hprocs scope, fun pids hpids => ?_⟩
    apply Fallible.meets_bind (fun _ => trivial) (ih hscopes)
    intro rest hrest pid hpid
    rcases List.mem_append.mp hpid with hpid | hpid
    · rw [← hid]
      exact hpids s hname pid hpid
    · exact hrest pid hpid

theorem outsidePids_own {P : AppOp → Prop} (hscopes : ∀ id, P (.launch (.flatpakScopes id)))
    (hprocs : ∀ scope, P (.launch (.procs scope))) {entry : TunnelApp}
    (h : flatpakAppId entry.command entry.args = some id) :
    (ExceptT.run (outsidePids entry)).Meets (OwnApp owner id) P
      (Fallible.Unless fun pids => ∀ pid ∈ pids, owner pid = some id) := by
  rw [outsidePids, h]
  exact ⟨hscopes id, fun scopes hown => procsOf_own hprocs (hown rfl)⟩

theorem ofLaunch_own {p : LaunchM α} {P : LaunchOp → Prop} {Q : Except String α → Prop}
    (h : (ExceptT.run p).Meets (Own owner id) P Q) : (ExceptT.run (ofLaunch p)).Meets
      (OwnApp owner id) (fun o => ∀ o', o = .launch o' → P o') Q := by
  apply h.translate
  intro o ho
  refine ⟨?_, fun r hr => hr⟩
  rintro _ ⟨⟩
  exact ho

theorem apps_own (hapart : Apart running id) {o : AppOp} {r : o.Ret} {d : Cgroups}
    (h : apps running owner o c r d) : OwnApp owner id o r := by
  obtain ⟨hshows, hanswer, -⟩ := h
  cases o with
  | launch o =>
    cases o with
    | flatpakScopes id' =>
      rintro rfl name hname
      rw [hanswer] at hname
      obtain ⟨s, -, hs⟩ := (hshows.mem_flatpakScopes_iff hapart name).mp hname
      exact ⟨s, hs⟩
    | procs scope =>
      rintro s rfl pid hpid
      rw [hanswer] at hpid
      obtain ⟨p, hp, rfl⟩ := List.mem_map.mp hpid
      exact hshows.owned s p hp
    | _ => trivial
  | _ => trivial

/-- Nothing of another app is found, counted, moved on a launch or handed to the helper. -/
structure FindsOwn (running : List Scope) (id : Text) (owner : Nat → Option Text) (c : Cgroups) :
    Prop where
  scopes : ∀ name, name ∈ flatpakScopes c.appSlice id ↔ ∃ s ∈ running, s.id = id ∧ s.name = name
  presence : ∀ appName, (flatpakPresence c appName id).outside = true ↔
    ∃ s ∈ running, s.id = id ∧ c.scopes s.name ≠ []
  capture : ∀ unit pid u k d, Prog.Visits (apps running owner)
    (ExceptT.run (ofLaunch (captureFlatpak id unit))) c (.op (.launch (.move pid u)) k) d →
    owner pid = some id
  attach : ∀ entry, flatpakAppId entry.command entry.args = some id → ∀ pids d,
    Prog.Visits (apps running owner) (ExceptT.run (outsidePids entry)) c (.done (.ok pids)) d →
    ∀ pid ∈ pids, owner pid = some id

/-- The scopes found are exactly the app's own, unless one of another app is running whose id
extends this one by a dash. -/
theorem flatpakScopes_own_iff (running : List Scope) (id : Text) :
    (∀ owner c, Shows running owner c → FindsOwn running id owner c) ↔ Apart running id := by
  constructor
  · intro hall s hs hext
    let c : Cgroups := ⟨running.map Scope.name, fun _ => [], fun _ => none⟩
    have hshows : Shows running (fun _ => none) c :=
      ⟨fun name _ => List.mem_map, fun _ _ hp => absurd hp List.not_mem_nil⟩
    have hfound : s.name ∈ flatpakScopes c.appSlice id :=
      (mem_flatpakScopes s).mpr ⟨List.mem_map_of_mem hs, .inr hext⟩
    obtain ⟨t, -, hid, hname⟩ := ((hall _ c hshows).scopes s.name).mp hfound
    have hlt := hext.length_le
    rw [← name_id hname, hid, List.length_append, List.length_singleton] at hlt
    omega
  · intro hapart owner c hshows
    have hown : ∀ (o : AppOp) (s : Cgroups) (r : o.Ret) (t : Cgroups),
        apps running owner o s r t → OwnApp owner id o r := fun _ _ _ _ => apps_own hapart
    refine ⟨hshows.mem_flatpakScopes_iff hapart, hshows.outside_iff hapart, ?_, ?_⟩
    · intro unit pid u k d hv
      have hmeets := (ofLaunch_own (captureFlatpak_own unit)).visits hown hv
      exact (hmeets.1 _ rfl).1
    · intro entry hentry pids d hv
      exact (outsidePids_own (P := fun _ => True) (fun _ => trivial) (fun _ => trivial)
        hentry).visits hown hv

def codeOss : Scope := ⟨"com.visualstudio.code-oss".toList, 4242⟩

/-- The scope of an app is found for the one whose id its own extends. -/
theorem codeOss_found : ¬∀ running id owner c, Shows running owner c →
    ∀ name, name ∈ flatpakScopes c.appSlice id ↔ ∃ s ∈ running, s.id = id ∧ s.name = name := by
  intro hall
  let c : Cgroups := ⟨[codeOss].map Scope.name, fun _ => [], fun _ => none⟩
  have hshows : Shows [codeOss] (fun _ => none) c :=
    ⟨fun name _ => List.mem_map, fun _ _ hp => absurd hp List.not_mem_nil⟩
  have hext : "com.visualstudio.code".toList ++ ['-'] <+: codeOss.id := by decide
  have hfound : codeOss.name ∈ flatpakScopes c.appSlice "com.visualstudio.code".toList :=
    (mem_flatpakScopes codeOss).mpr ⟨List.mem_singleton_self _, .inr hext⟩
  obtain ⟨s, hs, hid, -⟩ := (hall _ _ _ c hshows codeOss.name).mp hfound
  rw [List.mem_singleton.mp hs] at hid
  exact absurd hid (by decide)

end Detour.Gui
