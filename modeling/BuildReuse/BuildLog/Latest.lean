import BuildReuse.BuildLog.Basic
import BuildReuse.Directory

/-! The newest build log of a directory. Of logs with one time, the one with the
last name counts. -/

namespace BuildReuse.BuildLog

structure Artifact where
  path : Path
  modified : Int
  deriving DecidableEq, Repr

def Artifact.newer (a b : Artifact) : Bool :=
  a.modified < b.modified || (a.modified == b.modified && decide (a.path.text ≤ b.path.text))

def newest : List Artifact → Option Artifact
  | [] => none
  | a :: rest =>
    match newest rest with
    | none => some a
    | some b => some (if a.newer b then b else a)

def artifact? (fs : FileSystem) (here path : Path) : Option Artifact := do
  let trail ← (fs.find here path).toOption
  let node ← fs.nodes[trail.node]?
  some ⟨path, node.modified⟩

def latest (d : Directory) (extension : String) (fs : FileSystem) : Except Error (Option Artifact) :=
  match d.filesWithExtension extension fs with
  | .error e => .error (.scan d.root e)
  | .ok paths => .ok (newest (paths.filterMap (artifact? fs d.caller.here)))

end BuildReuse.BuildLog
