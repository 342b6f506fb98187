import BuildReuse.Cache
import BuildReuse.Proofs.Task.Ends

/-! The look at the newest build log with which a cache check and a build begin.
As long as nobody changes what it looks at, it sees what the files tell, however
long it has to wait for them. -/
namespace BuildReuse

open BuildReuse.Task (Ends Ensures whenAvailableEnsures)

def Sees {α : Type} (inv : Machine → Prop) (timeout : Duration) (answer : Except PackageError α)
    (r : Except PackageError α) (m : Machine) : Prop :=
  inv m ∧ (r = answer ∨ r = .error (.buildLog .noDeadline) ∧ m.deadline? timeout = none)

def BuildLog.resultsRead (log : Path) : Except Fault BuildLog → Except PackageError (List BuildResult)
  | .error fault => .error (.buildLog fault.error)
  | .ok document => (resultsOf log document).mapError .buildLog

namespace Cache

def newestIn (t : Target) (config : Config) (fs : FileSystem) : Except PackageError (Option Path) :=
  ((BuildLog.latest t.directory config.logExtension fs).mapError .buildLog).map
    fun log => log.map BuildLog.Artifact.path

def resultsIn (t : Target) (log : Path) (fs : FileSystem) : Except PackageError (List BuildResult) :=
  BuildLog.resultsRead log (BuildLog.readFile fs t.here log)

def verdictIn (t : Target) (log : Option Path) (fs : FileSystem) : Except PackageError Verdict :=
  match log with
  | none => .ok .noBuildLog
  | some log => (resultsIn t log fs).map (Verdict.ofResults fs t)

def outlook (t : Target) (config : Config) (fs : FileSystem) :
    Except PackageError (Option Path × Verdict) :=
  match newestIn t config fs with
  | .error e => .error e
  | .ok log => (verdictIn t log fs).map fun v => (log, v)

def look (t : Target) (config : Config) : MachineJob PackageError (Option Path × Verdict) := do
  let log := (← latest t config).map BuildLog.Artifact.path
  let v ← judge t config log
  pure (log, v)

structure Alike (t : Target) (config : Config) (fs fs' : FileSystem) : Prop where
  newest : newestIn t config fs' = newestIn t config fs
  reads : ∀ ⦃log⦄, newestIn t config fs = .ok (some log) →
    BuildLog.readFile fs' t.here log = BuildLog.readFile fs t.here log
  selects : ∀ ⦃log results⦄, newestIn t config fs = .ok (some log) →
    resultsIn t log fs = .ok results →
      BuildResult.select fs' t.here t.projectFile results =
        BuildResult.select fs t.here t.projectFile results

namespace Alike

variable {t : Target} {config : Config} {fs fs' : FileSystem}

theorem refl (t : Target) (config : Config) (fs : FileSystem) : Alike t config fs fs :=
  ⟨rfl, fun _ _ => rfl, fun _ _ _ _ => rfl⟩

theorem results (alike : Alike t config fs fs') {log : Path}
    (found : newestIn t config fs = .ok (some log)) : resultsIn t log fs' = resultsIn t log fs := by
  rw [resultsIn, alike.reads found, resultsIn]

theorem trans {fs'' : FileSystem} (alike : Alike t config fs fs') (alike' : Alike t config fs' fs'') :
    Alike t config fs fs'' := by
  constructor
  case newest => exact alike'.newest.trans alike.newest
  case reads =>
    intro log found
    exact (alike'.reads (alike.newest.trans found)).trans (alike.reads found)
  case selects =>
    intro log results found recorded
    have recorded' := (alike.results found).trans recorded
    exact (alike'.selects (alike.newest.trans found) recorded').trans (alike.selects found recorded)

theorem verdict (alike : Alike t config fs fs') {log : Option Path}
    (found : newestIn t config fs = .ok log) : verdictIn t log fs' = verdictIn t log fs := by
  cases log with
  | none => rfl
  | some log =>
    rw [verdictIn, verdictIn, alike.results found]
    cases recorded : resultsIn t log fs with
    | error e => rw [Except.map, Except.map]
    | ok results => rw [Except.map, Except.map, Verdict.ofResults, Verdict.ofResults,
        alike.selects found recorded]

theorem outlook (alike : Alike t config fs fs') :
    Cache.outlook t config fs' = Cache.outlook t config fs := by
  rw [Cache.outlook, Cache.outlook, alike.newest]
  cases found : newestIn t config fs with
  | error e => rfl
  | ok log => simp only [alike.verdict found]

end Alike

section

variable {t : Target} {config : Config} {fs : FileSystem}

theorem outlookSaw {log : Option Path} {v : Verdict} (saw : outlook t config fs = .ok (log, v)) :
    newestIn t config fs = .ok log ∧ verdictIn t log fs = .ok v := by
  unfold outlook at saw
  split at saw
  · cases saw
  · rename_i newest found
    cases verdict : verdictIn t newest fs with
    | error e => simp [verdict, Except.map] at saw
    | ok v' =>
      rw [verdict] at saw
      cases saw
      exact ⟨found, verdict⟩

theorem newestFails {e : PackageError} (fails : newestIn t config fs = .error e) :
    ∃ e', e = .buildLog e' ∧ e'.corrupt = false := by
  unfold newestIn BuildLog.latest at fails
  split at fails
  · cases fails
    exact ⟨_, rfl, rfl⟩
  · cases fails

theorem verdictFails {log : Option Path} {e : PackageError} (fails : verdictIn t log fs = .error e) :
    ∃ e', e = .buildLog e' := by
  cases log with
  | none => cases fails
  | some log =>
    rw [verdictIn, resultsIn] at fails
    cases read : BuildLog.readFile fs t.here log with
    | error fault =>
      rw [read] at fails
      cases fails
      exact ⟨_, rfl⟩
    | ok document =>
      rw [read, BuildLog.resultsRead] at fails
      cases results : BuildLog.resultsOf log document with
      | error e' =>
        rw [results] at fails
        cases fails
        exact ⟨e', rfl⟩
      | ok results' =>
        rw [results] at fails
        cases fails

theorem outlookFails {e : PackageError} (fails : outlook t config fs = .error e) : ∃ e', e = .buildLog e' := by
  unfold outlook at fails
  split at fails
  · rename_i e' failed
    cases fails
    rw [newestIn] at failed
    cases newest : BuildLog.latest t.directory config.logExtension fs with
    | error e' =>
      rw [newest] at failed
      cases failed
      exact ⟨e', rfl⟩
    | ok log =>
      rw [newest] at failed
      cases failed
  · rename_i log _
    cases verdict : verdictIn t log fs with
    | error e' =>
      rw [verdict] at fails
      cases fails
      exact verdictFails verdict
    | ok v =>
      rw [verdict] at fails
      cases fails

theorem verdictPlain {log : Option Path} {text : String} : verdictIn t log fs ≠ .ok (.corrupt text) := by
  have selected (r : Option BuildResult) : Verdict.ofSelected r ≠ .corrupt text := by
    cases r with
    | none => exact nofun
    | some r =>
      rw [Verdict.ofSelected]
      split
      · exact nofun
      · split <;> exact nofun
  cases log with
  | none => exact nofun
  | some log =>
    rw [verdictIn]
    cases resultsIn t log fs with
    | error e => exact nofun
    | ok results =>
      intro same
      exact selected _ (Except.ok.inj same)

end

variable {rely : Machine → Machine → Prop} {inv : Machine → Prop}
  {t : Target} {config : Config} {fs : FileSystem}

theorem loadEnsures {log : Path} {content : Except BuildLog.Fault BuildLog} (timeout : Duration)
    (stable : ∀ m m', inv m → rely m m' → inv m')
    (reads : ∀ m, inv m → BuildLog.readFile m.files t.here log = content) :
    Ensures rely inv (Job.mapError PackageError.buildLog (BuildLog.load t.here log timeout)).run
      (Sees inv timeout (BuildLog.resultsRead log content)) inv := by
  have once : Ensures rely inv (Task.get fun m => BuildLog.readFile m.files t.here log)
      (fun r m => inv m ∧ r = content) inv :=
    .get fun m m' holds others => ⟨stable m m' holds others, reads m' (stable m m' holds others)⟩
  have tries := whenAvailableEnsures timeout stable
    (fun _ m m' holds others => ⟨stable m m' holds.1 others, holds.2⟩) once
    fun e m (_ : BuildLog.Fault.retryable e = true) holds => holds.1
  have renamed : Ensures rely inv
      (Job.mapError BuildLog.errorOf (whenAvailable timeout BuildLog.Fault.retryable
        (Task.get fun m => BuildLog.readFile m.files t.here log))).run
      (fun r m => inv m ∧ match r with
        | .ok document => content = .ok document
        | .error e => (∃ fault, content = .error fault ∧ e = fault.error) ∨
            e = .noDeadline ∧ m.deadline? timeout = none) inv := by
    refine .mapError (tries.weaken (fun r m holds => ?_) fun _ => id)
    rcases r with (_ | fault) | document
    · exact ⟨holds.1, .inr ⟨rfl, holds.2⟩⟩
    · exact ⟨holds.1, .inl ⟨fault, holds.2.symm, rfl⟩⟩
    · exact ⟨holds.1, holds.2.symm⟩
  refine .mapError (renamed.jobBind (fun document => .done fun m holds => ?_) fun e m holds => ?_)
  · obtain ⟨same, read⟩ := holds
    exact ⟨same, .inl (by rw [read]; rfl)⟩
  · obtain ⟨same, ⟨fault, read, rfl⟩ | ⟨rfl, late⟩⟩ := holds
    · exact ⟨same, .inl (by rw [read]; rfl)⟩
    · exact ⟨same, .inr ⟨rfl, late⟩⟩

theorem latestEnsures (stable : ∀ m m', inv m → rely m m' → inv m')
    (alike : ∀ m, inv m → Alike t config fs m.files) :
    Ensures rely inv (latest t config).run
      (fun r m => inv m ∧ r.map (fun log => log.map BuildLog.Artifact.path) = newestIn t config fs) inv :=
  .get fun m m' holds others =>
    ⟨stable m m' holds others, (alike m' (stable m m' holds others)).newest⟩

theorem judgeEnsures {log : Option Path} (found : newestIn t config fs = .ok log)
    (stable : ∀ m m', inv m → rely m m' → inv m') (alike : ∀ m, inv m → Alike t config fs m.files) :
    Ensures rely inv (judge t config log).run
      (Sees inv config.logReadyTimeout (verdictIn t log fs)) inv := by
  cases log with
  | none => exact .done fun m holds => ⟨holds, .inl rfl⟩
  | some log =>
    have loads := loadEnsures config.logReadyTimeout stable fun m holds => (alike m holds).reads found
    refine loads.jobBind (fun results => .lift (.get fun m m' holds others => ?_)) fun e m holds => ?_
    · obtain ⟨same, loaded | ⟨no, -⟩⟩ := holds
      · have same' := stable m m' same others
        have recorded : resultsIn t log fs = .ok results := loaded.symm
        refine ⟨same', .inl ?_⟩
        simp only [verdictIn, recorded, Except.map, Verdict.ofResults,
          (alike m' same').selects found recorded]
      · cases no
    · obtain ⟨same, loaded | ⟨failed, late⟩⟩ := holds
      · have recorded : resultsIn t log fs = .error e := loaded.symm
        exact ⟨same, .inl (by simp only [verdictIn, recorded, Except.map])⟩
      · cases failed
        exact ⟨same, .inr ⟨rfl, late⟩⟩

theorem lookEnsures (stable : ∀ m m', inv m → rely m m' → inv m')
    (alike : ∀ m, inv m → Alike t config fs m.files) :
    Ensures rely inv (look t config).run
      (Sees inv config.logReadyTimeout (outlook t config fs)) inv := by
  refine (latestEnsures stable alike).jobBind (fun log => ?_) fun e m holds => ?_
  · intro m o m' holds
    have found : newestIn t config fs = .ok (log.map BuildLog.Artifact.path) := holds.2.symm
    have judges := judgeEnsures found stable alike
    refine judges.jobBind (fun v => .done fun m holds => ?_) (fun e m holds => ?_) holds.1
    · obtain ⟨same, judged | ⟨no, -⟩⟩ := holds
      · exact ⟨same, .inl (by simp only [outlook, found, ← judged]; rfl)⟩
      · cases no
    · obtain ⟨same, judged | ⟨failed, late⟩⟩ := holds
      · exact ⟨same, .inl (by simp only [outlook, found, ← judged]; rfl)⟩
      · cases failed
        exact ⟨same, .inr ⟨rfl, late⟩⟩
  · obtain ⟨same, found⟩ := holds
    have failed : newestIn t config fs = .error e := found.symm
    exact ⟨same, .inl (by simp only [outlook, failed])⟩

def conclude (t : Target) (config : Config) (log : Option Path) : Verdict →
    MachineJob PackageError (Option BuildResult)
  | .reusable r => pure (some r)
  | _ => do
    match log with
    | some log => removeLog t config log
    | none => pure ()
    let _ ← removeIntermediate t config.intermediateDirs
    pure none

theorem concludeMiss {log : Option Path} {v : Verdict} (miss : v.isReusable = false) :
    conclude t config log v =
      let rest : MachineJob PackageError (Option BuildResult) := do
        let _ ← removeIntermediate t config.intermediateDirs
        pure none
      match log with
      | some log => removeLog t config log >>= fun _ => rest
      | none => rest := by
  cases v with
  | reusable r => cases miss
  | _ => cases log <;> rfl

def check (t : Target) (config : Config) : MachineJob PackageError (Option BuildResult) := do
  let seen ← look t config
  conclude t config seen.1 seen.2

theorem checkUnderLock (t : Target) (config : Config) :
    loadResultOrClean t config = t.directory.withLock "cache-check" (check t config) := by
  simp only [loadResultOrClean, check, look, bind_assoc, pure_bind]
  refine congrArg (t.directory.withLock "cache-check") (bind_congr fun log => bind_congr fun v => ?_)
  cases v <;> rfl

end Cache
end BuildReuse
