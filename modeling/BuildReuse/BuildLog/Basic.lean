import BuildReuse.Json.Basic
import BuildReuse.Json.Record
import BuildReuse.Path
import BuildReuse.IoError
import BuildReuse.Duration.Basic

/-! Build logs: the document in which a build tool records, project by project,
what it did. -/

namespace BuildReuse

structure BuildResult where
  projectFile : Path
  succeeded : Bool
  sources : List Path
  inputs : List Path
  references : List Path
  deriving DecidableEq, Repr

namespace BuildResult

/-- Something was compiled: a build that found all up to date says nothing about
the state of its outputs. -/
def compiled (r : BuildResult) : Bool := !r.inputs.isEmpty && !r.sources.isEmpty

def reusable (r : BuildResult) : Bool := r.succeeded && r.compiled

def pathsJson (ps : List Path) : Json := .list (ps.map fun p => .text p.text)

def members (r : BuildResult) : List (String × Json) := [
  ("project_file_path", .text r.projectFile.text),
  ("succeeded", .bool r.succeeded),
  ("source_files", pathsJson r.sources),
  ("compile_inputs", pathsJson r.inputs),
  ("references", pathsJson r.references)]

def toJson (r : BuildResult) : Json := .object r.members

def readPath : Json.Reader Path := fun text =>
  (Json.readText text).map fun (p, rest) => (⟨p⟩, rest)

structure Draft where
  projectFile : Option Path
  succeeded : Option Bool
  sources : List Path
  inputs : List Path
  references : List Path

def record : Json.Record Draft BuildResult where
  fields := [
    Json.field "project_file_path" readPath fun d v => { d with projectFile := some v },
    Json.field "succeeded" Json.readBool fun d v => { d with succeeded := some v },
    Json.field "source_files" (Json.readList readPath) fun d v => { d with sources := v },
    Json.field "compile_inputs" (Json.readList readPath) fun d v => { d with inputs := v },
    Json.field "references" (Json.readList readPath) fun d v => { d with references := v }]
  draft := ⟨none, none, [], [], []⟩
  finish d := do some ⟨← d.projectFile, ← d.succeeded, d.sources, d.inputs, d.references⟩

end BuildResult

structure BuildLog where
  version : Nat
  results : List BuildResult
  deriving DecidableEq, Repr

namespace BuildLog

def currentVersion : Nat := 1

def ofResults (results : List BuildResult) : BuildLog := ⟨currentVersion, results⟩

def toJson (log : BuildLog) : Json :=
  .object [("version", .number log.version), ("projects", .list (log.results.map BuildResult.toJson))]

structure Draft where
  version : Option Nat
  results : List BuildResult

def record : Json.Record Draft BuildLog where
  fields := [
    Json.field "version" (Json.readNat 0x100000000) fun d v => { d with version := some v },
    Json.field "projects" (Json.readList BuildResult.record.read) fun d v => { d with results := v }]
  draft := ⟨none, []⟩
  finish d := d.version.map fun version => ⟨version, d.results⟩

def ofText (text : String) : Except Json.Failure BuildLog :=
  Json.readDocument record.read text.toList

inductive Error where
  | scan (root : Path) (source : IoError)
  | missing (log : Path)
  | read (log : Path) (source : IoError)
  | parse (log : Path) (failure : Json.Failure)
  | unsupportedVersion (log : Path) (version : Nat)
  | noDeadline
  deriving DecidableEq, Repr

def Error.corrupt : Error → Bool
  | parse .. | unsupportedVersion .. => true
  | _ => false

def Error.message : Error → String
  | scan root source => s!"failed to scan {root.text} for build logs: {source.message}"
  | missing log => s!"build log {log.text} not found"
  | read log source => s!"failed to read build log {log.text}: {source.message}"
  | parse log failure => s!"failed to parse build log {log.text}: {failure.message}"
  | unsupportedVersion log version =>
    s!"unsupported build log version {version} in {log.text}"
  | noDeadline => noDeadlineText

end BuildLog
end BuildReuse
