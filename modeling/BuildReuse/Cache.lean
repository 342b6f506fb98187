import BuildReuse.BuildLog.Latest
import BuildReuse.BuildLog.Load
import BuildReuse.BuildLog.Select
import BuildReuse.PackageError

/-! What earlier builds have left. The newest build log is judged; a log that
cannot be reused is cleared away, and the state of a target can be reported or
cleaned. Each of these holds the lock of the directory. -/

namespace BuildReuse

inductive Verdict where
  | noBuildLog
  | corrupt (message : String)
  | noMatchingProject
  | buildFailed
  | noCompile
  | reusable (result : BuildResult)
  deriving DecidableEq, Repr

namespace Verdict

def isReusable : Verdict → Bool
  | reusable _ => true
  | _ => false

def describe : Verdict → String
  | noBuildLog => "no build log"
  | corrupt _ => "build log is unreadable"
  | noMatchingProject => "build log has no result for the project"
  | buildFailed => "last build failed"
  | noCompile => "last build did not compile anything"
  | reusable _ => "reusable"

def ofSelected : Option BuildResult → Verdict
  | none => noMatchingProject
  | some r => if r.reusable then reusable r else if !r.succeeded then buildFailed else noCompile

def ofResults (fs : FileSystem) (t : Target) (results : List BuildResult) : Verdict :=
  ofSelected (BuildResult.select fs t.here t.projectFile results)

def toJson : Verdict → Json
  | noBuildLog => .object [("verdict", .text "no_build_log")]
  | corrupt message => .object [("verdict", .text "corrupt"), ("message", .text message)]
  | noMatchingProject => .object [("verdict", .text "no_matching_project")]
  | buildFailed => .object [("verdict", .text "build_failed")]
  | noCompile => .object [("verdict", .text "no_compile")]
  | reusable r => .object (("verdict", .text "reusable") :: r.members)

end Verdict

namespace Cache

def latest (t : Target) (config : Config) : MachineJob PackageError (Option BuildLog.Artifact) :=
  Job.check fun m => (BuildLog.latest t.directory config.logExtension m.files).mapError .buildLog

def judge (t : Target) (config : Config) (log : Option Path) : MachineJob PackageError Verdict := do
  match log with
  | none => pure .noBuildLog
  | some log =>
    let results ← Job.mapError .buildLog (BuildLog.load t.here log config.logReadyTimeout)
    Job.get fun m => .ofResults m.files t results

def removeTrees (t : Target) : List Path → MachineJob PackageError Unit
  | [] => pure ()
  | path :: rest => do
    Job.mapError .io (changeFiles fun fs _ => fs.removeTree t.here path)
    Job.yield
    removeTrees t rest

def removeIntermediate (t : Target) : List String → MachineJob PackageError (List Path)
  | [] => pure []
  | name :: rest => do
    let found ← Job.check fun m => (t.directory.directoriesNamed name m.files).mapError .io
    removeTrees t found
    let others ← removeIntermediate t rest
    pure (found ++ others)

def removeLog (t : Target) (config : Config) (log : Path) : MachineJob PackageError Unit :=
  Job.mapError .ofRemoval (removeWhenAvailable t.directory.caller log config.logReadyTimeout)

/-- The cache check: the reusable result of the newest log. If there is none, that
log and the intermediate output are removed. -/
def loadResultOrClean (t : Target) (config : Config) :
    MachineJob PackageError (Option BuildResult) :=
  t.directory.withLock "cache-check" do
    let log := (← latest t config).map BuildLog.Artifact.path
    match ← judge t config log with
    | .reusable r => pure (some r)
    | _ =>
      match log with
      | some log => removeLog t config log
      | none => pure ()
      let _ ← removeIntermediate t config.intermediateDirs
      pure none

structure Status where
  project : String
  buildLog : Option Path
  verdict : Verdict
  lastBuildError : Option String
  deriving DecidableEq, Repr

def Status.toJson (s : Status) : Json :=
  .object [
    ("project", .text s.project),
    ("build_log", .ofOption (fun p => .text p.text) s.buildLog),
    ("verdict", s.verdict.toJson),
    ("last_build_error", .ofOption .text s.lastBuildError)]

def verdictOn (t : Target) (config : Config) (log : Option Path) :
    MachineJob PackageError Verdict :=
  tryCatch (judge t config log) fun
    | .buildLog e => if e.corrupt then pure (.corrupt e.message) else throw (.buildLog e)
    | e => throw e

def inspect (t : Target) (config : Config) : MachineJob PackageError Status :=
  t.directory.withLock "status" do
    let log := (← latest t config).map BuildLog.Artifact.path
    let verdict ← verdictOn t config log
    let lastError ← Job.get fun m => t.lastBuildError m.files
    pure ⟨t.name, log, verdict, lastError⟩

def removeLogs (t : Target) (config : Config) : List Path → MachineJob PackageError Unit
  | [] => pure ()
  | log :: rest => do
    removeLog t config log
    removeLogs t config rest

def removeSentinel (t : Target) : MachineJob PackageError (List Path) := do
  let removed ← tryCatch
    (do Job.mapError .io (changeFiles fun fs _ => fs.removeFile t.here t.sentinel)
        pure [t.sentinel])
    fun
      | .io e => if e.kind = .notFound then pure [] else throw (.io e)
      | e => throw e
  Job.yield
  pure removed

def clean (t : Target) (config : Config) : MachineJob PackageError (List Path) :=
  t.directory.withLock "clean" do
    let logs ← Job.check fun m =>
      (t.directory.filesWithExtension config.logExtension m.files).mapError .io
    removeLogs t config logs
    let directories ← removeIntermediate t config.intermediateDirs
    let sentinel ← removeSentinel t
    pure (logs ++ directories ++ sentinel)

def reportJson (removed : List Path) : Json :=
  .object [("removed", .list (removed.map fun p => .text p.text))]

end Cache
end BuildReuse
