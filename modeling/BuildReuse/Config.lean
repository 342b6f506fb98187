import BuildReuse.Duration.Printer
import BuildReuse.Duration.Reader
import BuildReuse.IoError
import BuildReuse.Json.Basic
import BuildReuse.Json.Record
import BuildReuse.Path
import BuildReuse.Text.Utf8

/-! The configuration: names of the files that belong to a build, the command of
the build tool, and how long to wait. Every field has a default. A document may
give any of them, and three variables of the environment come last. A variable may
hold any bytes, and one whose bytes are no text is passed over. -/

namespace BuildReuse

structure Environment where
  settings : List (String × Bytes)
  deriving DecidableEq, Repr

namespace Environment

def ofTexts (texts : List (String × String)) : Environment := ⟨texts.map fun v => (v.1, bytesOf v.2)⟩

instance : Coe (List (String × String)) Environment := ⟨ofTexts⟩

def value? (environment : Environment) (name : String) : Option Bytes := environment.settings.lookup name

def text? (environment : Environment) (name : String) : Option String := (environment.value? name).bind textOf?

end Environment

structure ToolCommand where
  program : String
  args : List String
  deriving DecidableEq, Repr

namespace ToolCommand

def projectMark : String := "\x7bproject\x7d"

def logMark : String := "\x7blog\x7d"

def default : ToolCommand := ⟨"kiln-build", [projectMark, "--log", logMark]⟩

def ofLine? (line : String) : Option ToolCommand :=
  match (Text.words line.toList).map String.ofList with
  | [] => none
  | program :: args => some ⟨program, args⟩

def toJson (c : ToolCommand) : Json :=
  .object [("program", .text c.program), ("args", .ofTexts c.args)]

structure Draft where
  program : Option String
  args : List String

def record : Json.Record Draft ToolCommand where
  fields := [
    Json.field "program" Json.readText fun d program => { d with program := some program },
    Json.field "args" (Json.readList Json.readText) fun d args => { d with args := args }]
  draft := ⟨none, []⟩
  finish d := d.program.map fun program => ⟨program, d.args⟩

end ToolCommand

structure Config where
  projectExtension : String
  logExtension : String
  logFileName : String
  sentinelFileName : String
  lockFileName : String
  intermediateDirs : List String
  buildCommand : ToolCommand
  lockTimeout : Duration
  logReadyTimeout : Duration
  deriving DecidableEq, Repr

namespace Config

def default : Config where
  projectExtension := "kproj"
  logExtension := "buildlog"
  logFileName := "kiln_full_build.buildlog"
  sentinelFileName := ".kiln-builderror"
  lockFileName := ".kiln-lock"
  intermediateDirs := ["obj"]
  buildCommand := .default
  lockTimeout := .ofMillis 300000
  logReadyTimeout := .ofMillis 10000

def toJson (c : Config) : Json :=
  .object [
    ("project_extension", .text c.projectExtension),
    ("build_log_extension", .text c.logExtension),
    ("build_log_file_name", .text c.logFileName),
    ("sentinel_file_name", .text c.sentinelFileName),
    ("lock_file_name", .text c.lockFileName),
    ("intermediate_dirs", .ofTexts c.intermediateDirs),
    ("build_command", c.buildCommand.toJson),
    ("lock_timeout", .text c.lockTimeout.text),
    ("log_ready_timeout", .text c.logReadyTimeout.text)]

def readDuration : Json.Reader Duration := fun text => do
  let (raw, rest) ← Json.readText text
  match Duration.read raw.toList with
  | .ok d => .ok (d, rest)
  | .error _ => .error .malformed

def record : Json.Record Config Config where
  fields := [
    Json.field "project_extension" Json.readText fun c v => { c with projectExtension := v },
    Json.field "build_log_extension" Json.readText fun c v => { c with logExtension := v },
    Json.field "build_log_file_name" Json.readText fun c v => { c with logFileName := v },
    Json.field "sentinel_file_name" Json.readText fun c v => { c with sentinelFileName := v },
    Json.field "lock_file_name" Json.readText fun c v => { c with lockFileName := v },
    Json.field "intermediate_dirs" (Json.readList Json.readText)
      fun c v => { c with intermediateDirs := v },
    Json.field "build_command" ToolCommand.record.read fun c v => { c with buildCommand := v },
    Json.field "lock_timeout" readDuration fun c v => { c with lockTimeout := v },
    Json.field "log_ready_timeout" readDuration fun c v => { c with logReadyTimeout := v }]
  draft := .default
  finish := some

def ofText (text : String) : Except Json.Failure Config :=
  Json.readDocument record.read text.toList

inductive Error where
  | read (path : Path) (source : IoError)
  | parse (path : Path) (failure : Json.Failure)
  | invalidVariable (name : String) (message : String)
  deriving DecidableEq, Repr

structure Overrides where
  buildCommand : Option String := none
  projectExtension : Option String := none
  lockTimeout : Option String := none
  deriving DecidableEq, Repr

def commandVariable : String := "KILN_BUILD_COMMAND"
def extensionVariable : String := "KILN_PROJECT_EXTENSION"
def timeoutVariable : String := "KILN_LOCK_TIMEOUT"

def Overrides.ofVariables (environment : Environment) : Overrides where
  buildCommand := environment.text? commandVariable
  projectExtension := environment.text? extensionVariable
  lockTimeout := environment.text? timeoutVariable

def withCommand (c : Config) : Option String → Except Error Config
  | none => .ok c
  | some line =>
    match ToolCommand.ofLine? line with
    | some command => .ok { c with buildCommand := command }
    | none => .error (.invalidVariable commandVariable "command is empty")

def withExtension (c : Config) : Option String → Config
  | none => c
  | some extension =>
    { c with projectExtension := String.ofList (extension.toList.dropWhile (· == '.')) }

def withTimeout (c : Config) : Option String → Except Error Config
  | none => .ok c
  | some text =>
    match Duration.read text.toList with
    | .ok d => .ok { c with lockTimeout := d }
    | .error fault => .error (.invalidVariable timeoutVariable fault.message)

def override (c : Config) (o : Overrides) : Except Error Config := do
  let c ← c.withCommand o.buildCommand
  (c.withExtension o.projectExtension).withTimeout o.lockTimeout

end Config
end BuildReuse
