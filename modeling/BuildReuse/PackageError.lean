import BuildReuse.Build.Tool
import BuildReuse.BuildLog.Basic
import BuildReuse.Retry
import BuildReuse.Target
import BuildReuse.Workspace.Materialize

/-! The failures of a pipeline. -/

namespace BuildReuse

inductive PackageError where
  | configuration (source : ProjectError)
  | lock (source : LockError)
  | buildLog (source : BuildLog.Error)
  | buildFailed (source : BuildError)
  | workspace (project : String) (cause : MaterializeError)
  | io (source : IoError)
  | noDeadline
  deriving DecidableEq, Repr

namespace PackageError

def message : PackageError → String
  | configuration source => s!"configuration error: {source.message}"
  | lock source => source.message
  | buildLog source => source.message
  | buildFailed source => s!"build failed: {source.message}"
  | workspace project cause => s!"failed creating workspace for {project}: {cause.message}"
  | io source => s!"io error: {source.message}"
  | noDeadline => noDeadlineText

def isBuildFailure : PackageError → Bool
  | buildFailed _ => true
  | _ => false

def ofRemoval : RetryError IoError → PackageError
  | .noDeadline => .noDeadline
  | .failed e => .io e

end PackageError

def Directory.withLock {α : Type} (d : Directory) (command : String)
    (body : MachineJob PackageError α) : MachineJob PackageError α := do
  let guard ← Job.mapError .lock (d.acquire command)
  Job.ensuring (Lock.release guard) body

end BuildReuse
