import BuildReuse.BuildLog.Basic
import BuildReuse.Workspace.Solution

/-! From a build result to a workspace. A factory makes the workspace; it leaves
the references out, so these are added to the project of the result afterwards.
A workspace that refuses them is still handed out, with a warning. -/

namespace BuildReuse

abbrev WorkspaceFactory := BuildResult → Option Workspace

def WorkspaceFactory.standard : WorkspaceFactory := fun r =>
  if r.projectFile.text.isEmpty || r.sources.isEmpty then none
  else some (.ofSolution (.ofProjects
    [⟨1, r.projectFile.nameOrEmpty, r.projectFile, r.sources.map .ofPath, []⟩]))

inductive MaterializeError where
  | notConvertible
  | noProjects
  deriving DecidableEq, Repr

def MaterializeError.message : MaterializeError → String
  | notConvertible => "the build result could not be converted"
  | noProjects => "the workspace contains no projects"

structure MaterializedWorkspace where
  workspace : Workspace
  warnings : List String
  deriving DecidableEq, Repr

def MaterializedWorkspace.solution (m : MaterializedWorkspace) : Solution := m.workspace.current

/-- The project that the references belong to: the one with the file of the
result, or else the first. -/
def targetProject? (s : Solution) (r : BuildResult) : Option Project :=
  (s.projectByFile? r.projectFile).or s.projects.head?

def materialize (factory : WorkspaceFactory) (r : BuildResult) :
    Except MaterializeError MaterializedWorkspace :=
  match factory r with
  | none => .error .notConvertible
  | some w =>
    match targetProject? w.current r with
    | none => .error .noProjects
    | some target =>
      match w.current.withReferences target.id (r.references.map .mk) >>= w.commit with
      | .ok w => .ok ⟨w, []⟩
      | .error e => .ok ⟨w, [s!"metadata references were not applied: {e.message}"]⟩

end BuildReuse
