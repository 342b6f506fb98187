import BuildReuse.Proofs.Build.Course
import BuildReuse.Proofs.Build.Sentinel
import BuildReuse.Proofs.Cache.Discards
import BuildReuse.Proofs.Cache.Status

/-! What a package does under the lock to the sentinel, as long as the others spare it. Checks and
reports leave it alone, and a report tells what it holds. -/
namespace BuildReuse

open BuildReuse.FileSystem (Noted Straight)
open BuildReuse.Task (Ends Ensures whenAvailableEnsures)

structure TopLevel (T : Trail) (config : Config) : Prop where
  straight : Straight T
  isName : IsName config.sentinelFileName
  noLog : (T.path.join config.sentinelFileName).hasExtension config.logExtension = false
  noTree : config.sentinelFileName ∉ config.intermediateDirs

structure Target.Seated (T : Trail) (config : Config) (t : Target) : Prop where
  root : t.root = T.path
  sentinel : t.sentinel = t.directory.file config.sentinelFileName

def Marked (T : Trail) (config : Config) (place : Path) (note : Option String) (m : Machine) : Prop :=
  Noted T config.sentinelFileName place note m.files

def Spares (T : Trail) (config : Config) (place : Path) (m m' : Machine) : Prop :=
  ∀ note, Marked T config place note m → Marked T config place note m'

abbrev Leaves (T : Trail) (config : Config) (place : Path) (note note' : Option String) {ε α : Type}
    (job : MachineJob ε α) : Prop :=
  Ensures (Spares T config place) (Marked T config place note) job.run (fun _ => Marked T config place note')
    (Marked T config place note')

abbrev Spared (T : Trail) (config : Config) (place : Path) (note : Option String) {ε α : Type} (job : MachineJob ε α) :
    Prop := Leaves T config place note note job

variable {T : Trail} {config : Config} {place : Path} {note : Option String} {t : Target} {m m' : Machine}

theorem sparesRefl (m : Machine) : Spares T config place m m := fun _ => id

theorem sparesTrans {m'' : Machine} (h : Spares T config place m m') (k : Spares T config place m' m'') :
    Spares T config place m m'' := fun note marked => k note (h note marked)

theorem sparesStable (m m' : Machine) (marked : Marked T config place note m) (others : Spares T config place m m') :
    Marked T config place note m' := others note marked

theorem Leaves.ends {note' : Option String} {ε α : Type} {job : MachineJob ε α} {o}
    (leaves : Leaves T config place note note' job) (marked : Marked T config place note m)
    (ends : Ends (Spares T config place) m job.run o m') : Marked T config place note' m' := by
  have left := leaves marked ends
  cases o with
  | none => exact left
  | some r => exact left

theorem yieldSpared {ε : Type} : Spared T config place note (Job.yield : MachineJob ε Unit) :=
  .lift (.wait sparesStable sparesStable)

theorem Machine.Touches.spares (top : TopLevel T config) (touches : m.Touches place m') :
    Spares T config place m m' :=
  fun _ marked => FileSystem.Noted.touched marked top.isName touches.touched

section

variable (seated : t.Seated T config)
include seated

theorem Target.Seated.sentinelPath : t.sentinel = T.path.join config.sentinelFileName := by
  rw [seated.sentinel, Directory.file]
  exact congrArg (Path.join · _) seated.root

theorem Target.Seated.found (marked : Marked T config place note m) : m.files.find t.here t.root = .ok T := by
  rw [seated.root]
  exact FileSystem.Noted.found marked t.here

theorem Target.Seated.reads (top : TopLevel T config) (marked : Marked T config place note m) :
    t.lastBuildError m.files = note := by
  rw [Target.lastBuildError, seated.sentinelPath]
  cases note with
  | none =>
    have missing := FileSystem.Noted.readsNone marked top.isName t.here
    simp only [FileSystem.readText, FileSystem.readBytes, missing, bind, Except.bind]
    rfl
  | some text =>
    have bytes := (FileSystem.Noted.readsText marked top.isName t.here).2
    rw [FileSystem.readTextOf bytes, FileSystem.textOfBytes]
    rfl

end

def Another (t : Target) (config : Config) (path : Path) : Prop :=
  ∃ name, IsName name ∧ config.sentinelFileName ≠ name ∧ path = t.directory.file name

namespace Cache

theorem judgeKeeps (log : Option Path) :
    Spared T config place note (judge t config log) := by
  cases log with
  | none => exact .done fun _ => id
  | some log =>
    exact (Build.loadKeeps sparesStable log config.logReadyTimeout).jobBind
      (fun results => .lift (.get sparesStable)) fun _ _ => id

theorem verdictOnKeeps (log : Option Path) : Spared T config place note (verdictOn t config log) := by
  refine (judgeKeeps log).tryCatch (fun _ _ => id) fun e => ?_
  cases e with
  | buildLog e =>
    simp only
    split
    · exact .done fun _ => id
    · exact .done fun _ => id
  | _ => exact .done fun _ => id

variable (top : TopLevel T config) (seated : t.Seated T config)
include top seated

theorem logsAnother {logs : List Path} (marked : Marked T config place note m)
    (listed : t.directory.filesWithExtension config.logExtension m.files = .ok logs) :
    ∀ log ∈ logs, Another t config log := by
  intro log isLog
  obtain ⟨es, at?, entry⟩ := logEntry (seated.found marked) listed
  obtain ⟨e, member, -, rfl, extension⟩ := entry log isLog
  refine ⟨e.1, marked.tidy.named at? e member, ?_, rfl⟩
  intro same
  have noLog := top.noLog
  rw [same, ← seated.root] at noLog
  cases noLog.symm.trans extension

theorem treesAnother {name : String} {found : List Path} (marked : Marked T config place note m)
    (inside : name ∈ config.intermediateDirs)
    (listed : t.directory.directoriesNamed name m.files = .ok found) : ∀ path ∈ found, Another t config path := by
  obtain ⟨es, at?⟩ := marked.entry.directory
  have parent : ∀ T', m.files.find t.here t.root = .ok T' → T' = T :=
    fun T' found' => Except.ok.inj (found'.symm.trans (seated.found marked))
  obtain ⟨-, rfl⟩ := treesListed parent at? listed
  intro path member
  simp only [List.map_map, List.mem_map, List.mem_filter, Bool.and_eq_true, beq_iff_eq] at member
  obtain ⟨e, ⟨isEntry, -, rfl⟩, rfl⟩ := member
  refine ⟨e.1, marked.tidy.named at? e isEntry, ?_, rfl⟩
  intro same
  exact top.noTree (same ▸ inside)

theorem removeKeeps {path : Path} {f : FileSystem → Int → Except IoError FileSystem} (another : Another t config path)
    (removes : ∀ fs fs' now, f fs now = .ok fs' → fs.removeFile t.here path = .ok fs' ∨ fs.removeTree t.here path = .ok fs') :
    Spared T config place note (changeFiles f) := by
  refine Task.changeFilesEnsures (fun m m₁ fs marked others removed => ?_) fun m m₁ _ marked others _ => others note marked
  have marked₁ := others note marked
  obtain ⟨name, isName, differ, rfl⟩ := another
  have found := seated.found marked₁
  have left : fs = m₁.files.without T.node fun e => e.1 == name := by
    rcases removes _ _ _ removed with file | tree
    · exact FileSystem.removeFileLeaves found isName file
    · exact FileSystem.removeTreeLeaves found isName tree
  rw [left]
  exact marked₁.withoutOther top.isName top.straight differ

theorem latestKeeps :
    Ensures (Spares T config place) (Marked T config place note) (latest t config).run
      (fun r m => Marked T config place note m ∧ ∀ log, r = .ok (some log) → Another t config log.path)
      (Marked T config place note) := by
  refine .get fun m m₁ marked others => ⟨others note marked, fun log found => ?_⟩
  have newest : newestIn t config m₁.files = .ok (some log.path) := by
    rw [newestIn, found]
    rfl
  obtain ⟨logs, trail, listed, isLog, -⟩ := newestListed newest
  exact logsAnother top seated (others note marked) listed _ isLog

theorem removeLogKeeps {log : Path} (another : Another t config log) :
    Spared T config place note (removeLog t config log) := by
  have once : Spared T config place note (changeFiles fun fs _ => fs.removeFile t.here log) :=
    removeKeeps top seated another fun _ _ _ => .inl
  have tries := whenAvailableEnsures config.logReadyTimeout sparesStable (fun _ => sparesStable) once
    fun e m (_ : IoError.transient e = true) => id
  refine .mapError (Ensures.bind tries fun r => ?_)
  rcases r with (_ | e) | done
  · exact .done fun _ holds => holds.1
  · exact .done fun _ => id
  · exact .done fun _ => id

theorem removeTreesKeeps : ∀ paths : List Path, (∀ path ∈ paths, Another t config path) →
    Spared T config place note (removeTrees t paths)
  | [], _ => .done fun _ => id
  | path :: rest, another => by
    obtain ⟨own, others⟩ := List.forall_mem_cons.mp another
    have removes : Spared T config place note
        (Job.mapError PackageError.io (changeFiles fun fs _ => fs.removeTree t.here path)) :=
      .mapError (removeKeeps top seated own fun _ _ _ => .inr)
    exact removes.jobBind (fun _ => yieldSpared.jobBind (fun _ => removeTreesKeeps rest others) fun _ _ => id) fun _ _ => id

theorem removeIntermediateKeeps : ∀ names : List String, (∀ name ∈ names, name ∈ config.intermediateDirs) →
    Spared T config place note (removeIntermediate t names)
  | [], _ => .done fun _ => id
  | name :: rest, within => by
    obtain ⟨own, others⟩ := List.forall_mem_cons.mp within
    have finds : Ensures (Spares T config place) (Marked T config place note)
        (Job.check fun m => (t.directory.directoriesNamed name m.files).mapError PackageError.io).run
        (fun r m => Marked T config place note m ∧ ∀ found, r = .ok found → ∀ path ∈ found, Another t config path)
        (Marked T config place note) := by
      refine .get fun m m₁ marked others => ⟨others note marked, fun found same => ?_⟩
      cases listed : t.directory.directoriesNamed name m₁.files with
      | error e => simp [listed, Except.mapError] at same
      | ok paths =>
        simp only [listed, Except.mapError, Except.ok.injEq] at same
        exact same ▸ treesAnother top seated (others note marked) own listed
    refine finds.jobBind (fun found m o m' holds => ?_) fun _ _ => And.left
    have removes : Spared T config place note (removeTrees t found) :=
      removeTreesKeeps top seated found (holds.2 found rfl)
    have rests := removeIntermediateKeeps rest others
    exact removes.jobBind (fun _ => rests.jobBind (fun _ => .done fun _ => id) fun _ _ => id) (fun _ _ => id) holds.1

theorem lookKeeps :
    Ensures (Spares T config place) (Marked T config place note) (look t config).run
      (fun r m => Marked T config place note m ∧ ∀ log v, r = .ok (some log, v) → Another t config log)
      (Marked T config place note) := by
  refine (latestKeeps top seated).jobBind (fun log m o m' holds => ?_) fun e m holds => ⟨holds.1, nofun⟩
  let path := log.map BuildLog.Artifact.path
  have another : ∀ log, path = some log → Another t config log := by
    intro log same
    obtain ⟨artifact, found, rfl⟩ := Option.map_eq_some_iff.mp same
    exact holds.2 artifact (congrArg Except.ok found)
  have judges : Ensures (Spares T config place) (Marked T config place note)
      (do let v ← judge t config path
          pure (path, v) : MachineJob PackageError (Option Path × Verdict)).run
      (fun r m => Marked T config place note m ∧ ∀ log v, r = .ok (some log, v) → Another t config log)
      (Marked T config place note) := by
    refine (judgeKeeps path).jobBind (fun v => .done fun m marked => ⟨marked, fun log v' same => ?_⟩)
      fun e m marked => ⟨marked, nofun⟩
    exact another log (congrArg Prod.fst (Except.ok.inj same))
  exact judges holds.1

theorem checkKeeps :
    Spared T config place note (check t config) := by
  refine (lookKeeps top seated).jobBind (fun seen m o m' holds => ?_) fun _ _ => And.left
  obtain ⟨marked, another⟩ := holds
  obtain ⟨log, v⟩ := seen
  have rest : Spared T config place note (do
      let _ ← removeIntermediate t config.intermediateDirs
      pure none : MachineJob PackageError (Option BuildResult)) :=
    (removeIntermediateKeeps top seated _ fun _ => id).jobBind (fun _ => .done fun _ => id) fun _ _ => id
  suffices concludes : Spared T config place note (conclude t config log v) from concludes marked
  cases reuse : v.isReusable with
  | true =>
    cases v with
    | reusable r => exact .done fun _ => id
    | _ => cases reuse
  | false =>
    rw [concludeMiss reuse]
    cases log with
    | none => exact rest
    | some log => exact (removeLogKeeps top seated (another log v rfl)).jobBind (fun _ => rest) fun _ _ => id

theorem surveyTells :
    Ensures (Spares T config place) (Marked T config place note) (survey t config).run
      (fun r m => Marked T config place note m ∧ ∀ s, r = .ok s → s.lastBuildError = note)
      (Marked T config place note) := by
  have reads : Ensures (Spares T config place) (Marked T config place note)
      (Job.get fun m => t.lastBuildError m.files : MachineJob PackageError (Option String)).run
      (fun r m => Marked T config place note m ∧ r = .ok note) (Marked T config place note) :=
    .lift (.get fun m m' marked others =>
      ⟨others note marked, congrArg Except.ok (seated.reads top (others note marked))⟩)
  have reports (log : Option Path) : Ensures (Spares T config place) (Marked T config place note)
      (do let verdict ← verdictOn t config log
          let lastError ← Job.get fun m => t.lastBuildError m.files
          pure ⟨t.name, log, verdict, lastError⟩ : MachineJob PackageError Status).run
      (fun r m => Marked T config place note m ∧ ∀ s, r = .ok s → s.lastBuildError = note)
      (Marked T config place note) := by
    refine (verdictOnKeeps log).jobBind (fun v => reads.jobBind (fun lastError => .done fun m holds => ?_)
      fun e m holds => ⟨holds.1, nofun⟩) fun e m marked => ⟨marked, nofun⟩
    refine ⟨holds.1, fun s same => ?_⟩
    cases same
    exact Except.ok.inj holds.2
  exact (latestKeeps top seated).jobBind (fun log m o m' holds => reports _ holds.1) fun e m holds => ⟨holds.1, nofun⟩

def sweep (t : Target) (config : Config) : MachineJob PackageError (List Path) := do
  let logs ← Job.check fun m => (t.directory.filesWithExtension config.logExtension m.files).mapError .io
  removeLogs t config logs
  let directories ← removeIntermediate t config.intermediateDirs
  pure (logs ++ directories)

def scour (t : Target) (config : Config) : MachineJob PackageError (List Path) := do
  let swept ← sweep t config
  let sentinel ← removeSentinel t
  pure (swept ++ sentinel)

omit top seated in
theorem cleanUnderLock (t : Target) (config : Config) :
    clean t config = t.directory.withLock "clean" (scour t config) := by
  simp only [clean, scour, sweep, bind_assoc, pure_bind]

theorem removeLogsKeeps : ∀ logs : List Path, (∀ log ∈ logs, Another t config log) →
    Spared T config place note (removeLogs t config logs)
  | [], _ => .done fun _ => id
  | log :: rest, another => by
    obtain ⟨own, others⟩ := List.forall_mem_cons.mp another
    exact (removeLogKeeps top seated own).jobBind (fun _ => removeLogsKeeps rest others) fun _ _ => id

theorem sweepKeeps : Spared T config place note (sweep t config) := by
  have lists : Ensures (Spares T config place) (Marked T config place note)
      (Job.check fun m => (t.directory.filesWithExtension config.logExtension m.files).mapError PackageError.io).run
      (fun r m => Marked T config place note m ∧ ∀ logs, r = .ok logs → ∀ log ∈ logs, Another t config log)
      (Marked T config place note) := by
    refine .get fun m m₁ marked others => ⟨others note marked, fun logs same => ?_⟩
    cases listed : t.directory.filesWithExtension config.logExtension m₁.files with
    | error e => simp [listed, Except.mapError] at same
    | ok found =>
      simp only [listed, Except.mapError, Except.ok.injEq] at same
      exact same ▸ logsAnother top seated (others note marked) listed
  refine lists.jobBind (fun logs m o m' holds => ?_) fun _ _ => And.left
  have removes : Spared T config place note (do
      removeLogs t config logs
      let directories ← removeIntermediate t config.intermediateDirs
      pure (logs ++ directories)) :=
    (removeLogsKeeps top seated logs (holds.2 logs rfl)).jobBind (fun _ =>
      (removeIntermediateKeeps top seated _ fun _ => id).jobBind (fun _ => .done fun _ => id) fun _ _ => id)
      fun _ _ => id
  exact removes holds.1

theorem sentinelCleared (quit : Machine → Prop) :
    Ensures (Spares T config place) (Marked T config place note)
      (changeFiles fun fs _ => fs.removeFile t.here t.sentinel).run
      (fun r m => Marked T config place none m ∧ ∀ e, r = .error e → e = .host .noEntry) quit := by
  rw [seated.sentinelPath]
  refine Task.changeFilesEnsures (fun m m₁ fs marked others removed => ⟨?_, nofun⟩) fun m m₁ e marked others failed => ?_
  · have marked₁ := others note marked
    cases note with
    | none => cases (marked₁.clearNothing top.isName t.here).symm.trans removed
    | some text =>
      obtain ⟨fs', removed', cleared⟩ := marked₁.cleared top.isName top.straight t.here
      cases removed'.symm.trans removed
      exact cleared
  · have marked₁ := others note marked
    cases note with
    | none =>
      cases (marked₁.clearNothing top.isName t.here).symm.trans failed
      exact ⟨marked₁, fun e same => (Except.error.inj same).symm⟩
    | some text =>
      obtain ⟨fs', removed', cleared⟩ := marked₁.cleared top.isName top.straight t.here
      cases removed'.symm.trans failed

theorem removeSentinelClears :
    Ensures (Spares T config place) (Marked T config place note) (removeSentinel t).run
      (fun r m => Marked T config place none m ∧ ∀ e, r ≠ .error e) (Marked T config place none) := by
  have rests (removed : List Path) : Ensures (Spares T config place) (Marked T config place none) (do
      Job.yield
      pure removed : MachineJob PackageError (List Path)).run
      (fun r m => Marked T config place none m ∧ ∀ e, r ≠ .error e) (Marked T config place none) := by
    have yields : Ensures (Spares T config place) (Marked T config place none)
        (Job.yield : MachineJob PackageError Unit).run (fun r m => r = .ok () ∧ Marked T config place none m)
        (Marked T config place none) :=
      .lift (.wait (fun _ _ marked others => ⟨rfl, others none marked⟩) sparesStable)
    refine yields.jobBind (fun _ => .done fun m holds => ⟨holds.2, fun e no => by cases no⟩) fun e m holds => ?_
    cases holds.1
  refine Ensures.jobBind
    (show Ensures _ _ _ (fun r m => Marked T config place none m ∧ ∀ e, r ≠ .error e) (Marked T config place none) from ?_)
    (fun removed m o m' holds => rests removed holds.1) fun e m holds => (holds.2 e rfl).elim
  have once : Ensures (Spares T config place) (Marked T config place note)
      (Job.mapError PackageError.io (changeFiles fun fs _ => fs.removeFile t.here t.sentinel)).run
      (fun r m => Marked T config place none m ∧ ∀ e, r = .error e → e = .io (.host .noEntry))
      (Marked T config place none) := by
    refine .mapError ((sentinelCleared top seated _).weaken (fun r m holds => ⟨holds.1, fun e same => ?_⟩) fun _ => id)
    cases r with
    | ok done => cases same
    | error e' =>
      cases same
      exact congrArg _ (holds.2 e' rfl)
  have removes : Ensures (Spares T config place) (Marked T config place note) (do
      Job.mapError PackageError.io (changeFiles fun fs _ => fs.removeFile t.here t.sentinel)
      pure [t.sentinel] : MachineJob PackageError (List Path)).run
      (fun r m => Marked T config place none m ∧ ∀ e, r = .error e → e = .io (.host .noEntry))
      (Marked T config place none) := by
    refine once.jobBind (fun _ => .done fun m holds => ⟨holds.1, fun e no => by cases no⟩)
      fun e m holds => ⟨holds.1, fun e' same => ?_⟩
    cases same
    exact holds.2 e rfl
  refine removes.tryCatch (fun _ m holds => ⟨holds.1, fun e no => by cases no⟩) fun e m o m' holds => ?_
  obtain ⟨marked, same⟩ := holds
  obtain rfl := same e rfl
  have gone : Ensures (Spares T config place) (Marked T config place none)
      (pure [] : MachineJob PackageError (List Path)).run
      (fun r m => Marked T config place none m ∧ ∀ e, r ≠ .error e) (Marked T config place none) :=
    .done fun m marked => ⟨marked, fun e no => by cases no⟩
  exact gone marked

end Cache
end BuildReuse
