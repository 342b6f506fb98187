import BuildReuse.Config
import BuildReuse.Text.Blank
import BuildReuse.Text.Lines
import BuildReuse.Text.Substitute

/-! What passes between the pipeline and a build tool: a request, the arguments
made from it, and the output of the run. -/

namespace BuildReuse

structure ToolRequest where
  root : Path
  projectFile : Option Path
  logFileName : String
  deriving DecidableEq, Repr

structure ToolOutput where
  exitCode : Option Int
  stdout : String
  stderr : String
  deriving DecidableEq, Repr

namespace ToolOutput

def success (o : ToolOutput) : Bool := o.exitCode == some 0

def report (o : ToolOutput) : List Char :=
  if Text.blank o.stderr.toList then o.stdout.toList else o.stderr.toList

def diagnostics (o : ToolOutput) : String :=
  String.ofList (Text.joinLines (Text.lines o.report))

end ToolOutput

namespace ToolCommand

/-- An argument with the marks replaced, the project first. An argument that
mentions the project is left out where there is no project file. -/
def expandArg (request : ToolRequest) (arg : String) : Option String :=
  let withProject :=
    if Text.occurs projectMark.toList arg.toList then
      request.projectFile.map fun p =>
        Text.substitute projectMark.toList p.text.toList arg.toList
    else some arg.toList
  withProject.map fun cs =>
    String.ofList (Text.substitute logMark.toList request.logFileName.toList cs)

def expand (c : ToolCommand) (request : ToolRequest) : List String :=
  c.args.filterMap (expandArg request)

end ToolCommand

inductive BuildError where
  | spawn (program : String) (source : IoError)
  | toolFailed (project : String) (code : Option Int) (sentinel : Path) (diagnostics : String)
  | noBuildLog (project : String)
  | emptyBuildLog (log : Path)
  | noMatchingResult (project : String)
  | unsuccessful (project : String)
  | sentinel (path : Path) (source : IoError)
  deriving DecidableEq, Repr

def codeText : Option Int → String
  | some code => s!"Some({code})"
  | none => "None"

def BuildError.message : BuildError → String
  | spawn program source => s!"failed to launch build tool {program}: {source.message}"
  | toolFailed project code log _ =>
    s!"{project} failed to build (exit code {codeText code}), see {log.text}"
  | noBuildLog project => s!"{project} failed to build: no build log was written"
  | emptyBuildLog log => s!"the build log {log.text} seems to contain no projects"
  | noMatchingResult project => s!"{project} failed to build: the build log has no result for it"
  | unsuccessful project => s!"{project} failed to build: the build log reports failure"
  | sentinel path source => s!"failed to update build error log {path.text}: {source.message}"

end BuildReuse
