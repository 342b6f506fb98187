import BuildReuse.Build.Run
import BuildReuse.Stage.Basic

/-! Packages: a target with the three stages of its pipeline, the cache check, the
build, and the workspace. -/

namespace BuildReuse

inductive StageValue where
  | checked (cached : Option BuildResult)
  | built (result : BuildResult)
  | opened (workspace : MaterializedWorkspace)
  deriving DecidableEq, Repr

structure Package where
  target : Target
  specs : List (Stage.Spec Machine StageValue PackageError)

namespace Package

abbrev Forest := Stage.Forest Machine StageValue PackageError

def cacheCheck : Nat := 0
def buildStage : Nat := 1
def workspaceStage : Nat := 2

def checkSpec (t : Target) (config : Config) : Stage.Spec Machine StageValue PackageError where
  source := none
  body _ := (StageValue.checked <$> Cache.loadResultOrClean t config).run

def buildSpec (t : Target) (tool : BuildTool) (config : Config) :
    Stage.Spec Machine StageValue PackageError where
  source := some cacheCheck
  body
    | some (.checked cached) => (StageValue.built <$> Build.build t tool config cached).run
    | _ => (StageValue.built <$> Build.build t tool config none).run

def openWorkspace (t : Target) (factory : WorkspaceFactory) (r : BuildResult) :
    Except PackageError MaterializedWorkspace :=
  (materialize factory r).mapError (.workspace t.name)

def workspaceSpec (t : Target) (factory : WorkspaceFactory) :
    Stage.Spec Machine StageValue PackageError where
  source := some buildStage
  body
    | some (.built r) => .done ((openWorkspace t factory r).map .opened)
    | _ => .done (.error (.workspace t.name .notConvertible))

def ofTarget (t : Target) (tool : BuildTool) (factory : WorkspaceFactory) (config : Config) :
    Package :=
  ⟨t, [checkSpec t config, buildSpec t tool config, workspaceSpec t factory]⟩

def openAt (caller : Caller) (registry : Nat) (root : Path) (name : Option String)
    (tool : BuildTool) (factory : WorkspaceFactory) (config : Config) (fs : FileSystem) :
    Except PackageError Package := do
  let directory ← (Directory.openAt caller registry config root fs).mapError .io
  let target ← (Target.find directory name config fs).mapError .configuration
  .ok (ofTarget target tool factory config)

def fresh (p : Package) : Forest := .ofSpecs p.specs

def buildWasReused (f : Forest) : Option Bool :=
  match f.peek cacheCheck with
  | some (_, .checked cached) => some cached.isSome
  | _ => none

end Package
end BuildReuse
