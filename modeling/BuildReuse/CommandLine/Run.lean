import BuildReuse.CommandLine.Arguments
import BuildReuse.CommandLine.Report
import BuildReuse.Host.Run
import BuildReuse.Session

/-! Running the command on a machine. The build tool may be a script that runs the command again,
as a process of its own. -/

namespace BuildReuse.CommandLine

structure Program where
  caller : Caller
  registry : Nat
  environment : Environment
  deriving DecidableEq, Repr

structure Outcome where
  status : Nat
  report : Report
  deriving DecidableEq, Repr

abbrev Causes := List String

def versionText : String := "kiln 0.1.0"

def stuck : Causes := ["the command cannot go on"]

def Program.coloured (p : Program) : Bool := colourForced p.environment

def loadConfig (p : Program) (i : Invocation) (m : Machine) : Except Causes Config :=
  (Config.load m.files p.caller.here i.config (.ofVariables p.environment)).mapError fun e =>
    "Failed to load configuration" :: causesOfConfig e

def openTarget (p : Program) (i : Invocation) (config : Config) (m : Machine) :
    Except Causes Target := do
  let directory ← (Directory.openAt p.caller p.registry config i.directory m.files).mapError fun e =>
    [s!"Failed to open project directory {i.directory.text}", e.message]
  (Target.find directory i.project config m.files).mapError causesOfProject

def perform {α : Type} (context : String) (job : MachineJob PackageError α) (m : Machine) :
    Except Causes α × Machine :=
  match job.run.drive none m with
  | (some (.ok a), m) => (.ok a, m)
  | (some (.error e), m) => (.error (context :: causes e), m)
  | (none, m) => (.error stuck, m)

def statusText (coloured : Bool) (s : Cache.Status) : Report :=
  let headline :=
    if s.verdict.isReusable then success coloured s!"{s.project}: previous build is reusable"
    else info coloured s!"{s.project}: rebuild needed ({s.verdict.describe})"
  let log := match s.buildLog with
    | some log => log.text
    | none => "none"
  let lastError := match s.lastBuildError with
    | none => Report.empty
    | some text =>
      printLine "" ++ warning coloured "Last build failed:" ++
        .concat ((Text.lines text.toList).map fun l => printLine ("    " ++ String.ofList l))
  headline ++ stat coloured "Build log" log ++ stat coloured "Verdict" s.verdict.describe ++ lastError

def runStatus (p : Program) (i : Invocation) (m : Machine) : Except Causes Report × Machine :=
  match loadConfig p i m with
  | .error e => (.error e, m)
  | .ok config =>
    match openTarget p i config m with
    | .error e => (.error e, m)
    | .ok t =>
      let (s, m) := perform s!"Failed to inspect build cache of {t.name}" (Cache.inspect t config) m
      (s.map fun s =>
        if i.format = .json then document s.toJson else statusText p.coloured s, m)

def cleanText (coloured verbose : Bool) (t : Target) (removed : List Path) : Report :=
  if removed.isEmpty then info coloured "Nothing to clean"
  else
    success coloured s!"Removed {removed.length} item(s) from {t.name}" ++
      (if verbose then .concat (removed.map fun path => printLine ("  - " ++ path.text)) else .empty)

def runClean (p : Program) (i : Invocation) (m : Machine) : Except Causes Report × Machine :=
  match loadConfig p i m with
  | .error e => (.error e, m)
  | .ok config =>
    match openTarget p i config m with
    | .error e => (.error e, m)
    | .ok t =>
      let (removed, m) := perform s!"Failed to clean {t.name}" (Cache.clean t config) m
      (removed.map fun removed =>
        if i.format = .json then document (Cache.reportJson removed)
        else cleanText p.coloured i.verbose t removed, m)

structure Summary where
  project : String
  root : Path
  reused : Bool
  documents : Nat
  references : Nat
  warnings : List String
  elapsed : Duration
  deriving DecidableEq, Repr

namespace Summary

def of (package : Package) (forest : Package.Forest) (w : MaterializedWorkspace) (elapsed : Nat) :
    Summary where
  project := package.target.name
  root := package.target.root
  reused := (Package.buildWasReused forest).getD false
  documents := w.solution.projects.foldr (fun p n => p.documents.length + n) 0
  references := w.solution.projects.foldr (fun p n => p.references.length + n) 0
  warnings := w.warnings
  elapsed := (Duration.ofParts? 0 elapsed).getD .zero

def toJson (s : Summary) : Json :=
  .object [
    ("project", .text s.project),
    ("root", .text s.root.text),
    ("build_reused", .bool s.reused),
    ("documents", .number s.documents),
    ("references", .number s.references),
    ("warnings", .ofTexts s.warnings)]

def text (coloured : Bool) (s : Summary) : Report :=
  success coloured s!"Workspace ready for {s.project}" ++ stat coloured "Root" s.root.text ++
    stat coloured "Build" (if s.reused then "reused" else "rebuilt") ++
    stat coloured "Documents" (toString s.documents) ++
    stat coloured "References" (toString s.references) ++
    stat coloured "Time" (String.ofList s.elapsed.brief) ++
    .concat (s.warnings.map (warning coloured))

end Summary

def runPackage (package : Package) (m : Machine) : Except Causes Summary × Machine :=
  let (number, s) := Session.add package ⟨m, #[], #[]⟩
  let context := s!"Failed to create workspace for {package.target.name}"
  let (outcomes, after) := s.serve none [.of number Package.workspaceStage]
  match outcomes, after.packages[number]? with
  | [some (.ok (_, .opened w))], some p =>
    (.ok (.of package p.forest w (after.machine.clock - m.clock)), after.machine)
  | [some (.error e)], _ => (.error (context :: causes e), after.machine)
  | _, _ => (.error stuck, after.machine)

def runWorkspace (itself : Host.Program) (p : Program) (i : Invocation) (m : Machine) : Except Causes Report × Machine :=
  match loadConfig p i m with
  | .error e => (.error e, m)
  | .ok config =>
    let tool := Host.toolOf itself p.caller p.environment config.buildCommand
    match Package.openAt p.caller p.registry i.directory i.project tool .standard config m.files with
    | .error e =>
      (.error (s!"Failed to open project in {i.directory.text}" :: causes e), m)
    | .ok package =>
      let (summary, m) := runPackage package m
      (summary.map fun s =>
        if i.format = .json then document s.toJson else s.text p.coloured, m)

def runInvocation (itself : Host.Program) (p : Program) (i : Invocation) (m : Machine) :
    Except Causes Report × Machine :=
  match i.command with
  | .workspace => runWorkspace itself p i m
  | .status => runStatus p i m
  | .clean => runClean p i m

def usageText : String :=
  "Usage: kiln [OPTIONS] <COMMAND> [DIR] [--project <PROJECT>]\n" ++
  "Commands: workspace, status, clean\n" ++
  "Options: --verbose, --config <CONFIG>, --output <text|json>, --help, --version"

def runBy (itself : Host.Program) (p : Program) (args : List String) (m : Machine) : Outcome × Machine :=
  match Invocation.ofArguments args with
  | .error .usage => (⟨2, complainLine usageText⟩, m)
  | .error .help => (⟨0, printLine usageText⟩, m)
  | .error .version => (⟨0, printLine versionText⟩, m)
  | .ok i =>
    match runInvocation itself p i m with
    | (.ok report, m) => (⟨0, report⟩, m)
    | (.error texts, m) => (⟨1, failure p.coloured (chain texts)⟩, m)

def again : Nat → Nat → Host.Program
  | 0, _ => fun _ sh => sh.ending 127
  | more + 1, registry => fun args sh =>
    let environment : Environment := ⟨sh.bindings.map fun v => (v.1, Host.heldBytes v.2.toList)⟩
    let p : Program := ⟨⟨sh.here, sh.pid⟩, registry, environment⟩
    let (outcome, m) := runBy (again more (registry + 1)) p args sh.machine
    let sh := { sh with machine := m }.write (bytesOf outcome.report.out)
    (sh.emit sh.stderr (bytesOf outcome.report.err)).ending outcome.status

def run (p : Program) (args : List String) (m : Machine) : Outcome × Machine :=
  runBy (again Host.Shell.depth (p.registry + 1)) p args m

end BuildReuse.CommandLine
