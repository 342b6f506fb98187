import BuildReuse.Path

/-! The arguments of the command: one of three commands with a directory and a
project name, and options that may stand before the command as well as behind
it. An option that is given on both sides counts as given behind. -/

namespace BuildReuse.CommandLine

inductive Command where
  | workspace
  | status
  | clean
  deriving DecidableEq, Repr

def Command.ofName? : String → Option Command
  | "workspace" => some .workspace
  | "status" => some .status
  | "clean" => some .clean
  | _ => none

inductive Format where
  | text
  | json
  deriving DecidableEq, Repr

def Format.ofName? : String → Option Format
  | "text" => some .text
  | "json" => some .json
  | _ => none

structure Invocation where
  command : Command
  directory : Path
  project : Option String
  config : Option Path
  format : Format
  verbose : Bool
  deriving DecidableEq, Repr

inductive Halt where
  | usage
  | version
  | help
  deriving DecidableEq, Repr

inductive Switch where
  | verbose | config | output | project
  deriving DecidableEq, Repr

namespace Switch

def ofLetter? : Char → Option Switch
  | 'v' => some verbose
  | 'o' => some output
  | 'p' => some project
  | _ => none

def ofWord? : String → Option Switch
  | "verbose" => some verbose
  | "config" => some config
  | "output" => some output
  | "project" => some project
  | _ => none

def known (behind : Bool) (o : Switch) : Bool := behind || o != project

end Switch

structure Given where
  verbose : Bool := false
  config : Option Path := none
  format : Option Format := none
  project : Option String := none
  directory : Option Path := none
  deriving DecidableEq, Repr

namespace Given

def setVerbose (g : Given) : Except Halt Given :=
  if g.verbose then .error .usage else .ok { g with verbose := true }

def setValue (g : Given) (o : Switch) (value : String) : Except Halt Given :=
  match o with
  | .verbose => .error .usage
  | .config =>
    if g.config.isSome || value.isEmpty then .error .usage else .ok { g with config := some ⟨value⟩ }
  | .output =>
    match Format.ofName? value with
    | some format => if g.format.isSome then .error .usage else .ok { g with format := some format }
    | none => .error .usage
  | .project =>
    if g.project.isSome then .error .usage else .ok { g with project := some value }

def setDirectory (g : Given) (value : String) : Except Halt Given :=
  if g.directory.isSome || value.isEmpty then .error .usage
  else .ok { g with directory := some ⟨value⟩ }

end Given

def looksLikeOption (arg : String) : Bool :=
  match arg.toList with
  | '-' :: _ :: _ => true
  | _ => false

abbrev Step := Except Halt (Given × Option Switch)

/-- The letters behind a dash. The rest behind the letter of an option with a value
is that value, perhaps behind an equals sign. -/
def readLetters (behind : Bool) (g : Given) : List Char → Step
  | [] => .ok (g, none)
  | 'h' :: _ => .error .help
  | 'V' :: rest => if behind then .error .usage else if rest.head? == some '=' then .error .usage else .error .version
  | c :: rest =>
    match (Switch.ofLetter? c).filter (Switch.known behind) with
    | none => .error .usage
    | some .verbose => do readLetters behind (← g.setVerbose) rest
    | some o =>
      match rest with
      | [] => .ok (g, some o)
      | '=' :: value => (g.setValue o (String.ofList value)).map (·, none)
      | value => (g.setValue o (String.ofList value)).map (·, none)

def readWord (behind : Bool) (g : Given) (text : List Char) : Step :=
  let (word, rest) := text.span (· != '=')
  let value := match rest with
    | '=' :: value => some (String.ofList value)
    | _ => none
  match String.ofList word, value with
  | "help", none => .error .help
  | "version", none => if behind then .error .usage else .error .version
  | word, value =>
    match (Switch.ofWord? word).filter (Switch.known behind), value with
    | none, _ => .error .usage
    | some .verbose, none => (g.setVerbose).map (·, none)
    | some o, some value => (g.setValue o value).map (·, none)
    | some o, none => .ok (g, some o)

def readOptions (behind : Bool) (g : Given) (arg : String) : Step :=
  match arg.toList with
  | '-' :: '-' :: word => readWord behind g word
  | '-' :: letters => readLetters behind g letters
  | _ => .error .usage

def readBehind (g : Given) (wanting : Option Switch) : List String → Except Halt Given
  | [] => if wanting.isSome then .error .usage else .ok g
  | arg :: rest =>
    if arg = "--" then
      if wanting.isSome then .error .usage
      else rest.foldlM Given.setDirectory g
    else if looksLikeOption arg then
      if wanting.isSome then .error .usage
      else do
        let (g, wanting) ← readOptions true g arg
        readBehind g wanting rest
    else
      match wanting with
      | some o => do readBehind (← g.setValue o arg) none rest
      | none => do readBehind (← g.setDirectory arg) none rest

def readBefore (g : Given) (wanting : Option Switch) :
    List String → Except Halt (Given × Command × Given)
  | [] => .error .usage
  | arg :: rest =>
    if arg = "--" then .error .usage
    else if looksLikeOption arg then
      if wanting.isSome then .error .usage
      else do
        let (g, wanting) ← readOptions false g arg
        readBefore g wanting rest
    else
      match wanting with
      | some o => do readBefore (← g.setValue o arg) none rest
      | none =>
        match Command.ofName? arg with
        | some command => do .ok (g, command, ← readBehind {} none rest)
        | none => if arg = "help" then .error .help else .error .usage

def Invocation.of (before : Given) (command : Command) (behind : Given) : Invocation where
  command := command
  directory := behind.directory.getD ⟨"."⟩
  project := behind.project
  config := behind.config.or before.config
  format := (behind.format.or before.format).getD .text
  verbose := behind.verbose || before.verbose

def Invocation.ofArguments (args : List String) : Except Halt Invocation :=
  (readBefore {} none args).map fun (before, command, behind) => .of before command behind

end BuildReuse.CommandLine
