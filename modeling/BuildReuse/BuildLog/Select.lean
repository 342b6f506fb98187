import BuildReuse.BuildLog.Basic
import BuildReuse.FileSystem.Resolve

/-! Which result of a log belongs to a project file: the first one that names the
file, be it by the same components or by another path to the same place. -/

namespace BuildReuse.BuildResult

/-- A path that leads nowhere matches only by its components. -/
def matchesFile (fs : FileSystem) (here projectFile : Path) (r : BuildResult) : Bool :=
  r.projectFile.same projectFile ||
    match fs.canonicalize here r.projectFile, fs.canonicalize here projectFile with
    | .ok recorded, .ok wanted => recorded.same wanted
    | _, _ => false

def select (fs : FileSystem) (here projectFile : Path) (results : List BuildResult) :
    Option BuildResult :=
  results.find? (matchesFile fs here projectFile)

theorem selectNone {fs here projectFile results} :
    select fs here projectFile results = none ↔
      ∀ r ∈ results, matchesFile fs here projectFile r = false := by
  simp [select, List.find?_eq_none]

end BuildReuse.BuildResult
