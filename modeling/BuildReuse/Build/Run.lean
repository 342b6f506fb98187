import BuildReuse.Cache

/-! Building. The build tool runs and is held to account by its exit code, the
sentinel, and the log that it leaves; all of it under the lock of the directory. -/

namespace BuildReuse

abbrev BuildTool := ToolRequest → MachineJob BuildError ToolOutput

namespace BuildTool

def noted (number : Nat) (tool : BuildTool) : BuildTool := fun request => do
  Job.lift (Task.modify fun m =>
    { m with rehearsals := m.rehearsals.modify number fun r => r.ask request })
  tool request

def yields : Nat → MachineJob BuildError Unit
  | 0 => pure ()
  | n + 1 => do
    Job.yield
    yields n

def perform (caller : Caller) (act : Act) : MachineJob BuildError ToolOutput := do
  yields act.turns
  if act.missing then throw (.spawn "scripted" (.bare .notFound))
  Job.lift (Task.modify fun m =>
    act.placements.foldl (fun m p => (m.place caller.here p).toOption.getD m) m)
  pure act.output

def rehearsed (caller : Caller) (number : Nat) : BuildTool := fun request => do
  let act ← Job.get fun m => ((m.rehearsals[number]?).map Rehearsal.next).getD {}
  noted number (fun _ => perform caller act) request

end BuildTool

namespace Build

def request (t : Target) (config : Config) (fs : FileSystem) : ToolRequest where
  root := t.root
  projectFile := if fs.present t.here t.projectFile then some t.projectFile else none
  logFileName := config.logFileName

def writeSentinel (t : Target) (diagnostics : String) : MachineJob BuildError Unit := do
  Job.mapError (.sentinel t.sentinel)
    (changeFiles fun fs now => fs.writeFile t.here t.sentinel (bytesOf diagnostics) now)
  Job.yield

def clearSentinel (t : Target) : MachineJob BuildError Unit := do
  Job.mapError (.sentinel t.sentinel) <| tryCatch
    (changeFiles fun fs _ => fs.removeFile t.here t.sentinel)
    fun e => if e.kind = .notFound then pure () else throw e
  Job.yield

/-- One run of the tool. A run that fails leaves its diagnostics in the sentinel, a
run that succeeds removes it; a tool that cannot be started leaves it alone. -/
def runTool (t : Target) (tool : BuildTool) (config : Config) : MachineJob BuildError Unit := do
  let request ← Job.get fun m => request t config m.files
  let output ← tool request
  if output.success then clearSentinel t
  else
    writeSentinel t output.diagnostics
    throw (.toolFailed t.name output.exitCode t.sentinel output.diagnostics)

def collect (t : Target) (config : Config) : MachineJob PackageError BuildResult := do
  match ← Cache.latest t config with
  | none => throw (.buildFailed (.noBuildLog t.name))
  | some log =>
    let results ← Job.mapError .buildLog (BuildLog.load t.here log.path config.logReadyTimeout)
    if results.isEmpty then throw (.buildFailed (.emptyBuildLog log.path))
    match ← Job.get fun m => BuildResult.select m.files t.here t.projectFile results with
    | none => throw (.buildFailed (.noMatchingResult t.name))
    | some r => if r.succeeded then pure r else throw (.buildFailed (.unsuccessful t.name))

/-- A cached result is passed on. Otherwise the newest log is judged again, as
somebody may have built in the meantime, and only then the tool runs. -/
def build (t : Target) (tool : BuildTool) (config : Config) :
    Option BuildResult → MachineJob PackageError BuildResult
  | some r => pure r
  | none => t.directory.withLock "build" do
    let log := (← Cache.latest t config).map BuildLog.Artifact.path
    match ← Cache.judge t config log with
    | .reusable r => pure r
    | _ =>
      Job.mapError .buildFailed (runTool t tool config)
      collect t config

end Build
end BuildReuse
