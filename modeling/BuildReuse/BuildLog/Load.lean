import BuildReuse.BuildLog.Basic
import BuildReuse.Retry

/-! Loading the results of a build log. The build tool may still be writing it:
while the log cannot be read, or its text ends too early, loading tries again. -/

namespace BuildReuse.BuildLog

inductive Fault where
  | busy (error : Error)
  | fatal (error : Error)
  deriving DecidableEq, Repr

def Fault.error : Fault → Error
  | busy e | fatal e => e

def Fault.retryable : Fault → Bool
  | busy _ => true
  | fatal _ => false

def readFile (fs : FileSystem) (here log : Path) : Except Fault BuildLog :=
  match fs.readText here log with
  | .error e => .error (if e.kind = .notFound then .fatal (.missing log) else .busy (.read log e))
  | .ok text =>
    match ofText text with
    | .ok document => .ok document
    | .error .truncated => .error (.busy (.parse log .truncated))
    | .error .malformed => .error (.fatal (.parse log .malformed))

def resultsOf (log : Path) (document : BuildLog) : Except Error (List BuildResult) :=
  if document.version = currentVersion then .ok document.results
  else .error (.unsupportedVersion log document.version)

def errorOf : RetryError Fault → Error
  | .noDeadline => .noDeadline
  | .failed fault => fault.error

def load (here log : Path) (timeout : Duration) : MachineJob Error (List BuildResult) := do
  let document ← Job.mapError errorOf
    (whenAvailable timeout Fault.retryable (Task.get fun m => readFile m.files here log))
  ExceptT.mk (pure (resultsOf log document))

end BuildReuse.BuildLog
