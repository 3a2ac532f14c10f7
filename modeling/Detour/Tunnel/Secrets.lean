import Detour.Tunnel.Endpoints

/-! What `up` leaves of the private key in its work directory. -/

namespace Detour.Tunnel

open Atomic Detour.Rust Detour.ResolvConf

variable {config : WgConfig} {uid : UInt32} {workDir : Path} {key body : Text} {w t u : World}

/-! ### The key -/

def WgConfig.PrivateKey (config : WgConfig) (key : Text) : Prop :=
  "privatekey = ".toList ++ key ∈ lines config.setconf

/-- The work directory has no file for `wg setconf` with the key in it. -/
def NoCopy (workDir : Path) (key : Text) (w : World) : Prop :=
  ∀ text, w.files (setconfPath workDir) = some (.data text) → ¬key <:+: text

theorem isEndpoint_privateKey (key : Text) :
    isEndpoint ("privatekey = ".toList ++ key) = false := rfl

theorem holds_key {names : Text → Option (List SocketAddr)} (hkey : config.PrivateKey key)
    (h : pinned names config = some body) : key <:+: body := by
  have hline : key <:+: "privatekey = ".toList ++ key := (List.suffix_append _ _).isInfix
  apply hline.trans
  unfold pinned at h
  cases hep : config.endpoint with
  | none =>
    rw [hep] at h
    cases h
    exact infix_of_mem_lines hkey
  | some ep =>
    rw [hep] at h
    obtain ⟨a, -, rfl⟩ := Option.map_eq_some_iff.mp h
    rw [withEndpoint_eq (List.ne_nil_of_mem hkey)]
    apply infix_unlines
    refine List.mem_map.mpr ⟨_, hkey, ?_⟩
    rw [pin, isEndpoint_privateKey]
    rfl

/-! ### What the calls come to -/

/-- What comes of the calls of `up`, but for the commands.  Each of them is made at most once. -/
structure Outcomes where
  createDir : Except ErrorKind Unit
  /-- The addresses of a name. -/
  names : Text → Option (List SocketAddr)
  opens : Path → Except ErrorKind Unit
  /-- A write that fails has put down this many characters. -/
  writes : Path → Except (ErrorKind × Nat) Unit
  removes : Path → Except ErrorKind Unit

def Outcomes.answers (o : Outcomes) : Env Op Op.Ret World := fun op w r w' =>
  op.answers w r w' ∧ match op, r with
    | .exec _, _ => True
    | .createDirAll _, r => r = o.createDir
    | .toSocketAddrs ep, r => r = o.names ep
    | .openTruncate path, r => r = o.opens path
    | .writeAll path contents, r => match o.writes path with
      | .ok () => r = .ok ()
      | .error (e, n) => r = .error e ∧
        ∀ text, contents = .data text → w'.files path = some (.data (text.take n))
    | .removeFile path, r => r = o.removes path

def Outcomes.Opens (o : Outcomes) (config : WgConfig) (workDir : Path) : Prop :=
  o.createDir = .ok () ∧ (pinned o.names config).isSome ∧ o.opens (setconfPath workDir) = .ok ()

/-- The file is not opened and was not there with the key, or its write fails before the key is
put down, or both files are written and this one is removed. -/
def Outcomes.Clean (o : Outcomes) (config : WgConfig) (workDir : Path) (key : Text) (w : World) :
    Prop :=
  (¬o.Opens config workDir ∧ NoCopy workDir key w) ∨
    (o.Opens config workDir ∧ match o.writes (setconfPath workDir) with
      | .error (_, n) => ∀ body, pinned o.names config = some body → ¬key <:+: body.take n
      | .ok () => o.opens (nftPath workDir) = .ok () ∧ o.writes (nftPath workDir) = .ok () ∧
        o.removes (setconfPath workDir) = .ok ())

/-! ### The files along a run -/

theorem nftPath_ne (workDir : Path) : nftPath workDir ≠ setconfPath workDir := by
  intro h
  have hlist := congrArg String.toList h
  rw [nftPath, setconfPath, String.toList_append, String.toList_append] at hlist
  exact absurd (List.append_cancel_left hlist) (by decide)

theorem keeps_files {α : Type} {p : Prog Op Op.Ret α} {o : Outcomes}
    (hp : p.All fun op => ∃ c, op = .exec c) (w : World) :
    p.Keeps o.answers (fun t => t.files = w.files) (fun _ t => t.files = w.files) w := by
  apply Prog.keeps_of_all hp
  · rintro _ t r t' ⟨c, rfl⟩ ht ⟨hanswers, -⟩
    rcases hanswers with ⟨rfl, -⟩ | ⟨-, heff⟩
    · exact ht
    · exact (Command.effect_frame heff).files.trans ht
  · rfl

theorem all_exec_run (s : Step) : (ExceptT.run (run s)).All fun op => ∃ c, op = .exec c := by
  unfold run
  exact Fallible.all_bind (Fallible.all_sys ⟨_, rfl⟩) fun _ => trivial

theorem all_exec_down : down.All fun op => ∃ c, op = .exec c := by
  apply Prog.all_forEach
  intro s
  exact Prog.all_bind (all_exec_run s) fun _ => trivial

variable {o : Outcomes} {path : Path} {contents : Content}

variable (o path contents) in
inductive Written (w : World) : Except TunnelError Unit → World → Prop
  | unopened (e : ErrorKind) (t : World) : o.opens path = .error e → t.files = w.files →
    Written w (.error (.read path e)) t
  | cut (e : ErrorKind) (n : Nat) (t : World) : o.opens path = .ok () →
    o.writes path = .error (e, n) →
    (∀ text, contents = .data text → t.files path = some (.data (text.take n))) →
    (∀ q, q ≠ path → t.files q = w.files q) → Written w (.error (.read path e)) t
  | whole (t : World) : o.opens path = .ok () → o.writes path = .ok () →
    t.files = Function.update w.files path (some contents) → Written w (.ok ()) t

theorem writePrivate_written (w : World) : (ExceptT.run (writePrivate path contents)).Keeps
    o.answers (fun _ => True) (Written o path contents w) w := by
  unfold writePrivate
  apply Fallible.keeps_sys_bind trivial
  rintro r t ⟨hopen, rfl⟩
  cases hr : o.opens path with
  | error e =>
    rcases hopen with ⟨_, -, rfl⟩ | ⟨hok, -⟩
    · exact ⟨trivial, .unopened e t hr rfl⟩
    · rw [hr] at hok
      cases hok
  | ok _ =>
    rcases hopen with ⟨_, herr, -⟩ | ⟨-, rfl⟩
    · rw [hr] at herr
      cases herr
    · apply Fallible.keeps_sys_bind trivial
      rintro r' t ⟨hwrite, hthis⟩
      dsimp only at hthis
      cases hw : o.writes path with
      | ok _ =>
        rw [hw] at hthis
        subst hthis
        rcases hwrite with ⟨-, rfl⟩ | ⟨_, _, herr, -, -⟩
        · refine ⟨trivial, .whole _ hr hw ?_⟩
          exact Function.update_idem ..
        · cases herr
      | error f =>
        obtain ⟨e, n⟩ := f
        rw [hw] at hthis
        obtain ⟨rfl, htext⟩ := hthis
        refine ⟨trivial, .cut e n t hr hw htext fun q hq => ?_⟩
        rcases hwrite with ⟨hok, -⟩ | ⟨_, _, -, -, rfl⟩
        · cases hok
        · dsimp only
          rw [Function.update_of_ne hq, Function.update_of_ne hq]

/-! ### What is left -/

theorem noCopy_congr (h : t.files (setconfPath workDir) = u.files (setconfPath workDir)) :
    NoCopy workDir key t ↔ NoCopy workDir key u := by
  rw [NoCopy, NoCopy, h]

theorem noCopy_of_data {text : Text} (h : t.files (setconfPath workDir) = some (.data text)) :
    NoCopy workDir key t ↔ ¬key <:+: text := by
  rw [NoCopy, h]
  constructor
  · exact fun hno => hno text rfl
  · rintro hno _ ⟨⟩
    exact hno

theorem clean_unopened (h : ¬o.Opens config workDir) :
    o.Clean config workDir key w ↔ NoCopy workDir key w := by
  rw [Outcomes.Clean, and_iff_right h, or_iff_left fun hopen => h hopen.1]

theorem clean_cut {e : ErrorKind} {n : Nat} (h : o.Opens config workDir)
    (hw : o.writes (setconfPath workDir) = .error (e, n))
    (hbody : pinned o.names config = some body) :
    o.Clean config workDir key w ↔ ¬key <:+: body.take n := by
  rw [Outcomes.Clean, or_iff_right fun hno => hno.1 h, and_iff_right h, hw, hbody]
  constructor
  · exact fun hno => hno body rfl
  · rintro hno _ ⟨⟩
    exact hno

theorem clean_whole (h : o.Opens config workDir)
    (hw : o.writes (setconfPath workDir) = .ok ()) : o.Clean config workDir key w ↔
      o.opens (nftPath workDir) = .ok () ∧ o.writes (nftPath workDir) = .ok () ∧
        o.removes (setconfPath workDir) = .ok () := by
  rw [Outcomes.Clean, or_iff_right fun hno => hno.1 h, and_iff_right h, hw]

def Prepared (o : Outcomes) (config : WgConfig) (workDir : Path) (key : Text) (w : World) :
    Except TunnelError Unit → World → Prop
  | .ok _, t => (∃ body, pinned o.names config = some body ∧
      t.files (setconfPath workDir) = some (.data body)) ∧ o.Opens config workDir ∧
      o.writes (setconfPath workDir) = .ok () ∧
      o.opens (nftPath workDir) = .ok () ∧ o.writes (nftPath workDir) = .ok ()
  | .error _, t => NoCopy workDir key t ↔ o.Clean config workDir key w

theorem pinnedSetconf_outcomes (config : WgConfig) (w : World) :
    (ExceptT.run (pinnedSetconf config)).Keeps o.answers (fun t => t = w)
      (fun r _ => r.toOption = pinned o.names config) w := by
  apply (pinnedSetconf_keeps config w).restrict
  rintro op t r t' ⟨hanswers, hthis⟩
  refine ⟨hanswers, ?_⟩
  cases op with
  | toSocketAddrs ep => exact hthis
  | _ => trivial

theorem prepare_prepared (hkey : config.PrivateKey key) (hu : u.files = w.files) :
    (ExceptT.run (prepare config uid workDir)).Keeps o.answers (fun _ => True)
      (Prepared o config workDir key w) u := by
  have hsame (t : World) (ht : t.files = w.files) (hno : ¬o.Opens config workDir) :
      NoCopy workDir key t ↔ o.Clean config workDir key w := by
    rw [clean_unopened hno]
    exact noCopy_congr (congrFun ht _)
  unfold prepare
  apply Fallible.keeps_sys_bind trivial
  rintro r v ⟨rfl, rfl⟩
  cases hdir : o.createDir with
  | error e => exact ⟨trivial, hsame _ hu fun h => nomatch hdir.symm.trans h.1⟩
  | ok _ =>
    apply Fallible.keeps_bind (S := fun body t => t = v ∧ pinned o.names config = some body)
    · refine ((pinnedSetconf_outcomes config v).and_here).mono (fun _ _ => trivial) ?_
      rintro r t ⟨rfl, hpin⟩
      cases r with
      | ok body => exact ⟨rfl, hpin.symm⟩
      | error e =>
        refine hsame t hu fun h => ?_
        have hsome := h.2.1
        rw [← hpin] at hsome
        cases hsome
    · rintro body _ - ⟨rfl, hpin⟩
      have hopens (hopen : o.opens (setconfPath workDir) = .ok ()) : o.Opens config workDir :=
        ⟨hdir, by rw [hpin]; rfl, hopen⟩
      apply Fallible.keeps_bind (S := fun _ t => o.Opens config workDir ∧
        o.writes (setconfPath workDir) = .ok () ∧
        t.files (setconfPath workDir) = some (.data body))
      · refine (writePrivate_written _).mono (fun _ _ => trivial) ?_
        intro r t hwritten
        cases hwritten with
        | unopened e t hopen hfiles =>
          exact hsame t (hfiles.trans hu) fun h => nomatch hopen.symm.trans h.2.2
        | cut e n t hopen hwrite htext =>
          rw [Fallible.Goes, Prepared, noCopy_of_data (htext body rfl),
            clean_cut (hopens hopen) hwrite hpin]
        | whole t hopen hwrite hfiles =>
          refine ⟨hopens hopen, hwrite, ?_⟩
          rw [hfiles, Function.update_self]
      · rintro _ t - ⟨hopen, hwrite, hfile⟩
        have hcopy (v : World) (hv : v.files (setconfPath workDir) = some (.data body)) :
            ¬NoCopy workDir key v := by
          rw [noCopy_of_data hv]
          exact not_not_intro (holds_key hkey hpin)
        refine (writePrivate_written t).mono (fun _ _ => trivial) ?_
        intro r v hwritten
        cases hwritten with
        | unopened e v hnft hfiles =>
          refine iff_of_false (hcopy v (by rw [hfiles, hfile])) ?_
          rw [clean_whole hopen hwrite, hnft]
          exact fun h => nomatch h.1
        | cut e n v hnft hnftWrite htext hfiles =>
          refine iff_of_false (hcopy v (by rw [hfiles _ (nftPath_ne workDir).symm, hfile])) ?_
          rw [clean_whole hopen hwrite, hnftWrite]
          exact fun h => nomatch h.2.1
        | whole v hnft hnftWrite hfiles =>
          refine ⟨⟨body, hpin, ?_⟩, hopen, hwrite, hnft, hnftWrite⟩
          rw [hfiles, Function.update_of_ne (nftPath_ne workDir).symm, hfile]

theorem all_exec_conclude (result : Except TunnelError Unit) :
    (ExceptT.run (conclude result)).All fun op => ∃ c, op = .exec c := by
  cases result with
  | ok _ => trivial
  | error e => exact Fallible.all_bind (Fallible.all_lift all_exec_down) fun _ => trivial

theorem up_keeps_clean (hkey : config.PrivateKey key) (w : World) :
    (ExceptT.run (up config uid workDir)).Keeps o.answers (fun _ => True)
      (fun _ t => NoCopy workDir key t ↔ o.Clean config workDir key w) w := by
  unfold up
  apply Fallible.keeps_bind (Fallible.keeps_lift
    ((keeps_files all_exec_down w).mono (fun _ _ => trivial) fun _ _ h => h))
  intro _ u _ hu
  apply Fallible.keeps_bind (S := fun _ => Prepared o config workDir key w (.ok ()))
  · refine (prepare_prepared hkey hu).mono (fun _ h => h) ?_
    intro r t h
    cases r with
    | ok _ => exact h
    | error e => exact h
  · rintro _ t - ⟨⟨body, hpin, hfile⟩, hopen, hwrite, hnft, hnftWrite⟩
    have hsteps := keeps_files (o := o) (Fallible.all_tryForEach all_exec_run
      (upSteps config (setconfPath workDir) (nftPath workDir))) t
    apply Fallible.keeps_bind (Fallible.keeps_lift (hsteps.mono (fun _ _ => trivial)
      fun _ _ h => h))
    intro result v _ hv
    apply Fallible.keeps_sys_bind trivial
    rintro r x ⟨hremove, rfl⟩
    have hx : NoCopy workDir key x ↔ o.Clean config workDir key w := by
      rw [clean_whole hopen hwrite, and_iff_right hnft, and_iff_right hnftWrite]
      rcases hremove with ⟨e, hr, rfl⟩ | ⟨hr, rfl⟩
      · refine iff_of_false ?_ (by rw [hr]; nofun)
        rw [noCopy_of_data ((congrFun hv _).trans hfile)]
        exact not_not_intro (holds_key hkey hpin)
      · refine iff_of_true (fun text htext => ?_) hr
        dsimp only at htext
        rw [Function.update_self] at htext
        cases htext
    refine (keeps_files (all_exec_conclude result) x).mono (fun _ _ => trivial) fun _ y hy => ?_
    rw [← hx]
    exact noCopy_congr (congrFun hy _)

/-- Of every run of `up`, whatever its calls and commands come to: it leaves no copy of the key
exactly where the calls come to one of the three cases. -/
theorem up_leaves_no_copy_iff (hkey : config.PrivateKey key)
    {r : Except TunnelError Unit}
    (hv : Prog.Visits o.answers (ExceptT.run (up config uid workDir)) w (.done r) t) :
    NoCopy workDir key t ↔ o.Clean config workDir key w :=
  (Prog.keeps_iff.mp (up_keeps_clean hkey w) _ t hv).2 r rfl

/-! ### A run that goes well, and one that does not -/

def secretKey : Text := "aGVsbG8=".toList

def secretConfig : WgConfig :=
  ⟨["172.16.0.2/32".toList], none,
    unlines (["[Interface]", "privatekey = aGVsbG8="].map String.toList), none⟩

theorem secretConfig_key : secretConfig.PrivateKey secretKey := by
  unfold WgConfig.PrivateKey
  decide +kernel

def openingFiles (opens : Path → Except ErrorKind Unit) : Outcomes where
  createDir := .ok ()
  names _ := none
  opens := opens
  writes _ := .ok ()
  removes _ := .ok ()

def obligingFiles (opens : Path → Except ErrorKind Unit) : Handler Op Op.Ret World
  | .openTruncate path, w => match opens path with
    | .ok _ => obliging (.openTruncate path) w
    | .error e => (.error e, w)
  | o, w => obliging o w

theorem obligingFiles_answers (opens : Path → Except ErrorKind Unit) (op : Op) (w : World) :
    (openingFiles opens).answers op w (obligingFiles opens op w).1
      (obligingFiles opens op w).2 := by
  cases op with
  | openTruncate path =>
    cases hopen : opens path with
    | ok _ =>
      simp only [obligingFiles, hopen]
      exact ⟨.inr ⟨rfl, rfl⟩, hopen.symm⟩
    | error e =>
      simp only [obligingFiles, hopen]
      exact ⟨.inl ⟨e, rfl, rfl⟩, hopen.symm⟩
  | writeAll path contents => exact ⟨.inl ⟨rfl, rfl⟩, rfl⟩
  | removeFile path => exact ⟨.inr ⟨rfl, rfl⟩, rfl⟩
  | exec c => exact ⟨(obliging_dependable (.exec c) w).1, trivial⟩
  | createDirAll dir => exact ⟨rfl, rfl⟩
  | toSocketAddrs endpoint => exact ⟨rfl, rfl⟩

def secretRun (opens : Path → Except ErrorKind Unit) : Except TunnelError Unit × World :=
  (ExceptT.run (up secretConfig 1000 "/run/detour")).run (obligingFiles opens) freshWorld

theorem secretRun_visits (opens : Path → Except ErrorKind Unit) :
    Prog.Visits (openingFiles opens).answers (ExceptT.run (up secretConfig 1000 "/run/detour"))
      freshWorld (.done (secretRun opens).1) (secretRun opens).2 :=
  Prog.visits_run (obligingFiles_answers opens) _ _

theorem secret_removed : NoCopy "/run/detour" secretKey (secretRun fun _ => .ok ()).2 ↔
    (openingFiles fun _ => .ok ()).Clean secretConfig "/run/detour" secretKey freshWorld :=
  up_leaves_no_copy_iff secretConfig_key (secretRun_visits _)

def noRoom (path : Path) : Except ErrorKind Unit :=
  if path = nftPath "/run/detour" then .error .other else .ok ()

theorem secret_left : ¬∀ (o : Outcomes) (config : WgConfig) (uid : UInt32) (workDir : Path)
    (key : Text) (w t : World) (r : Except TunnelError Unit), config.PrivateKey key →
    Prog.Visits o.answers (ExceptT.run (up config uid workDir)) w (.done r) t →
    NoCopy workDir key t := by
  intro hall
  have hrun := secretRun_visits noRoom
  have hno := hall _ _ _ _ _ _ _ _ secretConfig_key hrun
  have hiff := (Prog.keeps_iff.mp (up_keeps_clean secretConfig_key freshWorld) _ _ hrun).2 _ rfl
  have hsetconf : noRoom (setconfPath "/run/detour") = .ok () := by decide +kernel
  have hnft : noRoom (nftPath "/run/detour") = .error .other := by decide +kernel
  rw [hiff, clean_whole ⟨rfl, rfl, hsetconf⟩ rfl] at hno
  have hopen : noRoom (nftPath "/run/detour") = .ok () := hno.1
  rw [hnft] at hopen
  cases hopen

end Detour.Tunnel
