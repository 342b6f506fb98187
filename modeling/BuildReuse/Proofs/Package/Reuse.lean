import BuildReuse.Proofs.Build.Rebuild
import BuildReuse.Proofs.Cache.Reuse
import BuildReuse.Proofs.Cache.Status
import BuildReuse.Proofs.Package.Recorded
import BuildReuse.Proofs.Stage.Served

/-! A package that finds a log to reuse. The cache check hands the recorded result to the
build, which passes it on, and the workspace holds just what was recorded. -/
namespace BuildReuse.Package

open BuildReuse.Cache (LockAside Hits Reuses)
open BuildReuse.FileSystem (Touched)
open BuildReuse.Lock (Bystanders)
open BuildReuse.Stage (Outcome)
open BuildReuse.Stage.Forest (Told)
open BuildReuse.Task (Ends Turned)

def Opens (p : Package) (place : Path) (m : Machine) (o : Outcome StageValue PackageError) (m' : Machine)
    (f' : Forest) : Prop :=
  Stage.Forest.Served p.specs (Bystanders place) ⟨workspaceStage, none⟩ m p.fresh o m' f'

variable {t : Target} {tool : BuildTool} {config : Config} {place : Path} {r : BuildResult} {m m' : Machine}
  {w : MaterializedWorkspace} {o : Outcome StageValue PackageError} {f' : Forest}

theorem checkedEnds {rely : Machine → Machine → Prop} {c : Except PackageError StageValue}
    (ends : Ends rely m ((checkSpec t config).body none) (some c) m') :
    ∃ c', Ends rely m (Cache.loadResultOrClean t config).run (some c') m' ∧ c = c'.map .checked := by
  rcases ends.bind with ⟨c', m₁, checks, rest⟩ | ⟨no, -⟩
  · cases c' with
    | ok b =>
      cases rest
      exact ⟨_, checks, rfl⟩
    | error e =>
      cases rest
      exact ⟨_, checks, rfl⟩
  · cases no

theorem opensIff (opened : openWorkspace t .standard r = .ok w)
    (hits : ∀ c m', Turned (Bystanders place) m ((checkSpec t config).body none) c m' →
      c = .ok (.checked (some r)) ∨ ∃ e, c = .error e) :
    (ofTarget t tool .standard config).Opens place m o m' f' ↔
      ∃ c, Turned (Bystanders place) m ((checkSpec t config).body none) c m' ∧
        Told (.checked (some r)) (.built r) (.opened w) c o f' := by
  have last : (workspaceSpec t .standard).body (some (.built r)) = .done (.ok (.opened w)) := by
    simp only [workspaceSpec, opened]
    rfl
  exact Stage.Forest.freshServedIff (b := buildSpec t tool config) rfl rfl rfl rfl rfl last hits

variable {fs : FileSystem} {T : Trail} {log : Path}

section

variable (tidy : m.files.Tidy) (sound : m.locks.Sound) (found : m.files.find t.here t.root = .ok T)
  (aside : LockAside t config (t.directory.lockPlace T) m.files) (reuses : Reuses t config m.files log r)
include tidy sound found aside reuses

theorem hitChecked {c : Except PackageError StageValue}
    (turned : Turned (Bystanders (t.directory.lockPlace T)) m ((checkSpec t config).body none) c m') :
    ∃ c', c = c'.map .checked ∧ m.Touches (t.directory.lockPlace T) m' ∧ m'.rehearsals = m.rehearsals ∧
      Hits config r m' c' := by
  obtain ⟨c', ends, same⟩ := checkedEnds (turned.ends Bystanders.refl Bystanders.trans)
  exact ⟨c', same, Cache.hitEnds tidy sound found aside reuses ends⟩

theorem onlyHits : ∀ c m', Turned (Bystanders (t.directory.lockPlace T)) m ((checkSpec t config).body none) c m' →
    c = .ok (.checked (some r)) ∨ ∃ e, c = .error e := by
  intro c m' turned
  obtain ⟨c', rfl, -, -, hit⟩ := hitChecked tidy sound found aside reuses turned
  cases hit with
  | reused => exact .inl rfl
  | unlocked e => exact .inr ⟨_, rfl⟩
  | noDeadline => exact .inr ⟨_, rfl⟩

end

theorem hitTold {c : Except PackageError (Option BuildResult)} (hit : Hits config r m' c)
    (told : Told (.checked (some r)) (.built r) (.opened w) (c.map .checked) o f') :
    o = .ok (0, .opened w) ∧ buildWasReused f' = some true ∨ (∃ e, o = .error (.lock e)) ∨
      o = .error (.buildLog .noDeadline) ∧ m'.deadline? config.logReadyTimeout = none := by
  cases hit with
  | reused =>
    cases told
    exact .inl ⟨rfl, rfl⟩
  | unlocked e =>
    cases told
    exact .inr (.inl ⟨e, rfl⟩)
  | noDeadline endless =>
    cases told
    exact .inr (.inr ⟨rfl, endless⟩)

theorem recordedOpens (absolute : t.projectFile.isAbsolute = true) (reuses : Reuses t config fs log r) :
    ∃ w, openWorkspace t .standard r = .ok w ∧ w.Records r := by
  obtain ⟨-, -, -, -, -, -, -, matched⟩ := reuses.loads
  obtain ⟨w, materialized, records⟩ :=
    standardRecords (BuildResult.matchedNamed absolute matched) reuses.good.2.1
  exact ⟨w, by rw [openWorkspace, materialized]; rfl, records⟩

variable {caller : Caller} {registry : Nat} {root : Path} {name : Option String} {p : Package}

/-- Of a log that can be reused, a new package with the standard factory opens the workspace that
was recorded. It calls no tool, so that every other tool would do as well, and only the lock
file is touched. The exceptions are that there is no lock, and that the end of the time-out
is no time of the clock; and where the lock can be had, the workspace can be. -/
theorem hitOpens (opens : openAt caller registry root name tool .standard config fs = .ok p)
    (tidy : m.files.Tidy) (sound : m.locks.Sound)
    (found : m.files.find p.target.here p.target.root = .ok T)
    (aside : LockAside p.target config (p.target.directory.lockPlace T) m.files)
    (reuses : Reuses p.target config m.files log r) :
    ∃ w : MaterializedWorkspace, w.Records r ∧
      (∀ o m' f', p.Opens (p.target.directory.lockPlace T) m o m' f' →
        Touched (p.target.directory.lockPlace T) m.files m'.files ∧ m'.rehearsals = m.rehearsals ∧
        (∀ other, (ofTarget p.target other .standard config).Opens (p.target.directory.lockPlace T) m o m' f') ∧
        (o = .ok (0, .opened w) ∧ buildWasReused f' = some true ∨ (∃ e, o = .error (.lock e)) ∨
          o = .error (.buildLog .noDeadline) ∧ m'.deadline? config.logReadyTimeout = none)) ∧
      ∀ guard m₁, Turned (Bystanders (p.target.directory.lockPlace T)) m
          (p.target.directory.acquire "cache-check").run (.ok guard) m₁ →
        m₁.deadline? config.logReadyTimeout ≠ none →
        ∃ m' f', p.Opens (p.target.directory.lockPlace T) m (.ok (0, .opened w)) m' f' := by
  obtain ⟨isPackage, absolute⟩ := opened opens
  obtain ⟨w, opensIt, records⟩ := recordedOpens absolute reuses
  have hits := onlyHits tidy sound found aside reuses
  rw [isPackage]
  refine ⟨w, records, fun o m' f' served => ?_, fun guard m₁ takes timely => ?_⟩
  · obtain ⟨c, turned, told⟩ := (opensIff opensIt hits).mp served
    obtain ⟨c', rfl, touches, quiet, hit⟩ := hitChecked tidy sound found aside reuses turned
    exact ⟨touches.touched, quiet, fun other => (opensIff opensIt hits).mpr ⟨_, turned, told⟩, hitTold hit told⟩
  · have turned := Cache.hitTurned tidy sound found aside reuses takes timely
    have checked : Turned (Bystanders (p.target.directory.lockPlace T)) m
        ((checkSpec p.target config).body none) (.ok (.checked (some r))) _ := turned.andThen rfl
    exact ⟨_, _, (opensIff opensIt hits).mpr ⟨_, checked, .value⟩⟩

open BuildReuse.Build (app appTool resultNaming)
open BuildReuse.Cache (ready linked lockApartOf)

theorem opensAs {t : Target} {factory : WorkspaceFactory}
    (directory : Directory.openAt caller registry config root fs = .ok t.directory)
    (target : Target.find t.directory name config fs = .ok t) :
    openAt caller registry root name tool factory config fs = .ok (ofTarget t tool factory config) := by
  simp only [openAt, bind, Except.bind, directory, Except.mapError, target]

def brief : Config := { Config.default with lockTimeout := .ofMillis 1000 }

def appPackage : Package := ofTarget app appTool .standard brief

theorem readyOpened : ∃ w : MaterializedWorkspace, ∃ m' f',
    openAt app.directory.caller 0 ⟨"/"⟩ none appTool .standard brief ready.files = .ok appPackage ∧
    w.Records (resultNaming "/app.kproj") ∧
    appPackage.Opens ⟨"/.kiln-lock"⟩ ready (.ok (0, .opened w)) m' f' ∧
    Touched ⟨"/.kiln-lock"⟩ ready.files m'.files ∧ m'.rehearsals = ready.rehearsals := by
  have opens : openAt app.directory.caller 0 ⟨"/"⟩ none appTool .standard brief ready.files = .ok appPackage :=
    opensAs (by decide +kernel) (by decide +kernel)
  have saw : Cache.outlook app brief ready.files =
      .ok (some ⟨"/c.buildlog"⟩, .reusable (resultNaming "/app.kproj")) := by decide +kernel
  obtain ⟨path, -, reuses⟩ := Cache.outlookReuses.mp saw
  have found : ready.files.find app.here app.root = .ok [] := by decide +kernel
  have place : app.directory.lockPlace [] = ⟨"/.kiln-lock"⟩ := by decide +kernel
  have absent : ready.files.walk false FileSystem.linkLimit [] (FileSystem.stepsOf ⟨"/.kiln-lock"⟩) =
      .ok (.absent [] ".kiln-lock") := by decide +kernel
  have listed : app.directory.filesWithExtension brief.logExtension
      (ready.files.withFile 0 ".kiln-lock" [] 0) = .ok [⟨"/c.buildlog"⟩] := by decide +kernel
  have apart : Cache.LockApart app brief ⟨"/.kiln-lock"⟩ ready.files :=
    lockApartOf (.made absent [] 0) (FileSystem.madeLeads absent [] 0).2 listed (by decide +kernel)
  obtain ⟨w, records, answers, finishes⟩ := hitOpens opens (FileSystem.tidyOf (by decide +kernel))
    LockTable.Sound.empty found (place ▸ ⟨apart.logs, fun _ => apart⟩) reuses
  have taken : ((app.directory.acquire "cache-check").run.poll ready).2.value? =
      some (.ok ⟨1, 2, ⟨"/.kiln-lock"⟩⟩) := by decide +kernel
  obtain ⟨m', f', opened⟩ := finishes _ _ (.ended (Prod.ext rfl (Task.ofValue taken))) (by decide +kernel)
  obtain ⟨touched, quiet, -⟩ := answers _ _ _ opened
  have place' : appPackage.target.directory.lockPlace [] = ⟨"/.kiln-lock"⟩ := place
  rw [place'] at opened touched
  exact ⟨w, m', f', opens, records, opened, touched, quiet⟩

def lent : Machine := { linked with rehearsals := [.ofActs [{ output := ⟨some 0, "", ""⟩ }]] }

def lentTurn := Stage.Forest.poll appPackage.specs ⟨workspaceStage, none⟩ lent appPackage.fresh

def lentAgain := Stage.Forest.poll appPackage.specs ⟨workspaceStage, some 0⟩ lentTurn.2.1 lentTurn.2.2

def unmade : Target := { app with directory := { app.directory with lockFileName := "app.kproj" } }

def unmadePackage : Package := ofTarget unmade appTool .standard { brief with lockFileName := "app.kproj" }

def twoNames : Machine := Cache.quiet #[⟨.directory [("c.buildlog", 1), ("x", 2)], 0o755, 0⟩,
  ⟨.file (bytesOf "[1,[[\"/x/../app.kproj\",true,[\"b\"],[\"b\"]],[\"/app.kproj\",true,[\"a\"],[\"a\"]]]]"), 0o644, 0⟩,
  ⟨.directory [], 0o755, 0⟩]

theorem linkedLogRebuilt :
    ((app.directory.file brief.lockFileName).hasExtension brief.logExtension = false ∧
      openAt app.directory.caller 0 ⟨"/"⟩ none appTool .standard brief lent.files = .ok appPackage ∧
      Reuses app brief lent.files ⟨"/c.buildlog"⟩ (resultNaming "/app.kproj") ∧
      ∃ m' f', appPackage.Opens ⟨"/.kiln-lock"⟩ lent
          (.error (.buildFailed (.emptyBuildLog ⟨"/c.buildlog"⟩))) m' f' ∧ (m'.asked 0).length = 1) ∧
    (unmade.directory.file "app.kproj").hasExtension brief.logExtension = false ∧
      openAt app.directory.caller 0 ⟨"/"⟩ (some "app.kproj") appTool .standard
        { brief with lockFileName := "app.kproj" } twoNames.files = .ok unmadePackage ∧
      Reuses unmade brief twoNames.files ⟨"/c.buildlog"⟩ (resultNaming "/app.kproj") ∧
      ∃ w m' f', unmadePackage.Opens ⟨"/app.kproj"⟩ twoNames (.ok (0, .opened w)) m' f' ∧
        ¬ w.Records (resultNaming "/app.kproj") := by
  have saw : Cache.outlook app brief lent.files =
      .ok (some ⟨"/c.buildlog"⟩, .reusable (resultNaming "/app.kproj")) := by decide +kernel
  obtain ⟨path, same, reuses⟩ := Cache.outlookReuses.mp saw
  cases same
  have saw' : Cache.outlook unmade brief twoNames.files =
      .ok (some ⟨"/c.buildlog"⟩, .reusable (resultNaming "/app.kproj")) := by decide +kernel
  obtain ⟨path, same, reuses'⟩ := Cache.outlookReuses.mp saw'
  cases same
  have rebuilt : lentTurn.1 = .inr ⟨workspaceStage, some 0⟩ ∧
      lentAgain.1 = .inl (.error (.buildFailed (.emptyBuildLog ⟨"/c.buildlog"⟩))) ∧
      (lentAgain.2.1.asked 0).length = 1 := by decide +kernel
  refine ⟨⟨by decide +kernel, opensAs (by decide +kernel) (by decide +kernel), reuses, _, _,
    .ofWait Bystanders.refl rebuilt.1 (.ofAnswer rebuilt.2.1), rebuilt.2.2⟩,
    by decide +kernel, opensAs (by decide +kernel) (by decide +kernel), reuses', ?_⟩
  refine ⟨⟨⟨⟨1, [⟨1, "app.kproj", ⟨"/x/../app.kproj"⟩, [⟨"b", ⟨"b"⟩⟩], []⟩]⟩, false⟩, []⟩, _, _,
    .ofAnswer (by decide +kernel), ?_⟩
  rintro ⟨-, ⟨p, same, file, -⟩, -⟩
  cases same
  exact absurd file (by decide)

end BuildReuse.Package
