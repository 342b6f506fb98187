import BuildReuse.Build.Run
import BuildReuse.Host.Programs

/-! Running scripts and programs, and the build tool that starts a program of the
machine. A program runs to its end at once. -/

namespace BuildReuse.Host

def programDirectory : Path := ⟨"/usr/bin"⟩
def shellName : String := "sh"

inductive Image where
  | itself
  | program (name : String)
  | script (text : List Char)

inductive ImageFault where
  | unreachable (fault : HostFault)
  | noProgram (text : List Char)

def isProgramName (name : String) : Bool :=
  name == shellName || Program.all.any fun p => p.1 == name

def imageAt (m : Machine) (here path : Path) : Except ImageFault Image :=
  match m.files.find here path with
  | .error (.host fault) => .error (.unreachable fault)
  | .error _ => .error (.unreachable .invalidArgument)
  | .ok t =>
    match m.files.nodes[t.node]? with
    | some ⟨.file bytes, mode, _⟩ =>
      if mode &&& 0o111 == 0 then .error (.unreachable .accessDenied)
      else
        let name := t.path.nameOrEmpty
        if t.path == programDirectory.join name && isProgramName name then .ok (.program name)
        else
          let text := held bytes
          match text with
          | '#' :: '!' :: rest =>
            let interpreter := String.ofList (Text.trim (rest.takeWhile (· != '\n')))
            if m.files.present here ⟨interpreter⟩ then .ok (.script text)
            else .error (.unreachable .noEntry)
          | text => .error (.noProgram text)
    | _ => .error (.unreachable .accessDenied)

def image (m : Machine) (here : Path) (name : String) : Except ImageFault Image :=
  if name.toList.contains '/' then imageAt m here ⟨name⟩
  else if name.isEmpty then .error (.unreachable .noEntry)
  else imageAt m here (programDirectory.join name)

namespace Shell

def image (sh : Shell) (name : String) : Except ImageFault Image :=
  if name = s!"/proc/{sh.origin}/exe" then .ok .itself else Host.image sh.machine sh.here name

def inChild (f : Shell → Shell) (sh : Shell) : Shell :=
  let child := f sh
  { sh with
    machine := child.machine
    input := child.input
    out := child.out
    err := child.err
    status := match child.ended with
      | some (.exit code) => code
      | _ => child.status
    ended := match child.ended with
      | some (.signal n) => some (.signal n)
      | _ => none }

def inProcess (name : String) (args : List String) (bindings : List (String × String))
    (f : Shell → Shell) (sh : Shell) : Shell :=
  let inherited := sh.bindings.filter fun v => sh.exported.contains v.1 && (bindings.lookup v.1).isNone
  let given := bindings ++ inherited
  let after := inChild f
    { sh with
      pid := sh.pid + 1
      name := name
      args := args
      bindings := given
      exported := given.map Prod.fst
      status := 0 }
  { after with
    pid := sh.pid
    name := sh.name
    args := sh.args
    bindings := sh.bindings
    exported := sh.exported
    ended := none
    status := match after.ended with
      | some (.signal n) => 128 + n
      | _ => after.status }

def capture (f : Shell → Shell) (sh : Shell) : Bytes × Shell :=
  let child := inChild f { sh with out := [], stdout := .out }
  (child.out, { child with out := sh.out, stdout := sh.stdout })

def exitCode (sh : Shell) (args : List String) : Nat :=
  match args.head?.bind String.toInt? with
  | some n => (n % 256).toNat
  | none => sh.status

def exit (args : List String) (sh : Shell) : Shell :=
  match args with
  | arg :: _ =>
    if arg.toInt?.isSome then { sh with ended := some (.exit (sh.exitCode args)) }
    else { sh.complain 2 1 s!"exit: Illegal number: {arg}" with ended := some (.exit 2) }
  | [] => { sh with ended := some (.exit sh.status) }

def readLine (args : List String) (sh : Shell) : Shell :=
  let (line, rest) := sh.input.span (· != 10)
  let name := ((args.filter fun a => a != "-r").head?).getD "REPLY"
  let text := Token.skipBlanks (Token.skipBlanks (held line)).reverse
  let value := String.ofList text.reverse
  { sh.setVariable name value with input := rest.drop 1 }.ending (if rest.isEmpty then 1 else 0)

def unset (args : List String) (sh : Shell) : Shell :=
  { sh with bindings := sh.bindings.filter fun v => !args.contains v.1 }.ending 0

def cd (args : List String) (sh : Shell) : Shell :=
  let target := args.headD "/"
  match sh.machine.files.find sh.here ⟨target⟩ with
  | .ok t =>
    if sh.machine.files.isDirectory t.node then { sh with here := t.path }.ending 0
    else sh.complain 2 1 s!"cd: can't cd to {target}"
  | .error _ => sh.complain 2 1 s!"cd: can't cd to {target}"

def exporting (name : String) (sh : Shell) : Shell := { sh with exported := name :: sh.exported }

def signalNumber (text : List Char) : Nat :=
  let name := String.ofList (if ['S', 'I', 'G'].isPrefixOf text then text.drop 3 else text)
  match name with
  | "HUP" => 1
  | "INT" => 2
  | "QUIT" => 3
  | "ABRT" => 6
  | "KILL" => 9
  | "SEGV" => 11
  | "PIPE" => 13
  | "ALRM" => 14
  | name => name.toNat?.getD 15

def kill (args : List String) (sh : Shell) : Shell :=
  let (signal, targets) := match args with
    | "-s" :: name :: rest => (signalNumber name.toList, rest)
    | first :: rest =>
      match first.toList with
      | '-' :: name => (signalNumber name, rest)
      | _ => (15, first :: rest)
    | [] => (15, [])
  if signal ≠ 0 && targets.contains (toString sh.pid) then { sh with ended := some (.signal signal) }
  else sh.ending (if targets.contains (toString sh.pid) then 0 else 1)

def builtin? (name : String) (args : List String) : Option (Shell → Shell) :=
  match name with
  | ":" => some (ending 0)
  | "exit" => some (exit args)
  | "read" => some (readLine args)
  | "unset" => some (unset args)
  | "wait" => some (ending 0)
  | "cd" => some (cd args)
  | "kill" => some (kill args)
  | "shift" => some fun sh => { sh with args := sh.args.drop 1 }.ending 0
  | "set" => some (ending 0)
  | "export" => some fun sh => (args.foldl (fun sh a =>
      match a.toList.span (· != '=') with
      | (name, '=' :: value) =>
        (sh.setVariable (String.ofList name) (String.ofList value)).exporting (String.ofList name)
      | (name, _) => sh.exporting (String.ofList name)) sh).ending 0
  | _ => none

abbrev Runner := List Char → Shell → Shell

def runFile (run : Runner) (called file : String) (args : List String) (sh : Shell) : Shell :=
  match sh.machine.files.readBytes sh.here ⟨file⟩ with
  | .ok bytes => run (held bytes) { sh with name := file, args := args }
  | .error e =>
    { sh with name := called }.complain 2 0
      ("cannot open " ++ file ++ ": " ++ openFault "No such file" e)

def shellProgram (run : Runner) (called : String) : List String → Shell → Shell
  | "-c" :: script :: name :: args, sh => run script.toList { sh with name := name, args := args }
  | ["-c", script], sh => run script.toList { sh with name := called, args := [] }
  | ["-c"], sh => { sh with name := called }.complain 2 0 "-c requires an argument"
  | "-e" :: rest, sh | "-x" :: rest, sh | "-u" :: rest, sh => shellProgram run called rest sh
  | file :: args, sh => runFile run called file args sh
  | [], sh => run (held sh.input) { sh with name := called, args := [], input := [] }

def runImage (itself : Program) (run : Runner) (called : String) (args : List String) (i : Image)
    (sh : Shell) : Shell :=
  match i with
  | .itself => itself args sh
  | .script text => run text { sh with name := called, args := args }
  | .program name =>
    if name = shellName then shellProgram run called args sh
    else match Program.all.lookup name with
      | some program => program args sh
      | none => sh.ending 127

def callProgram (itself : Program) (run : Runner) (line : Nat) (bindings : List (String × String))
    (name : String) (args : List String) (sh : Shell) : Shell :=
  match sh.image name with
  | .ok i => inProcess name args bindings (runImage itself run name args i) sh
  | .error (.noProgram text) => inProcess name args bindings (run text) sh
  | .error (.unreachable .noEntry) => sh.complain 127 line s!"{name}: not found"
  | .error (.unreachable fault) => sh.complain 126 line s!"{name}: {fault.text}"

def call (itself : Program) (run : Runner) (line : Nat) (bindings : List (String × String))
    (name : String) (args : List String) (sh : Shell) : Shell :=
  match name, args with
  | "exec", name :: args =>
    let sh := callProgram itself run line bindings name args sh
    { sh with ended := some (.exit sh.status) }
  | name, args =>
    match builtin? name args with
    | some f => f sh
    | none => callProgram itself run line bindings name args sh

def hasCommand (w : Word) : Bool :=
  w.any fun
    | .command .. => true
    | _ => false

def run (itself : Program) : Nat → Command → Shell → Shell
  | 0, _, sh => sh
  | more + 1, c, sh =>
    if sh.ended.isSome then sh
    else match c with
      | .none => sh
      | .sequence a b => run itself more b (run itself more a sh)
      | .both a b =>
        let sh := run itself more a sh
        if sh.status = 0 then run itself more b sh else sh
      | .either a b =>
        let sh := run itself more a sh
        if sh.status = 0 then sh else run itself more b sh
      | .negation a =>
        let sh := run itself more a sh
        sh.ending (if sh.status = 0 then 1 else 0)
      | .subshell a => inChild (run itself more a) sh
      | .pipe a b =>
        let (bytes, after) := capture (run itself more a) sh
        { inChild (fun sh => run itself more b { sh with input := bytes }) after with input := after.input }
      | .branch condition yes no =>
        let sh := run itself more condition sh
        if sh.status = 0 then run itself more yes sh else run itself more no (sh.ending 0)
      | .loop wanted condition body => loop more wanted condition body 0 sh
      | .each name words body =>
        let (values, sh) := allFields (substitution more) words sh
        values.foldl (fun sh value => run itself more body (sh.setVariable name value)) (sh.ending 0)
      | .simple line assignments words redirections =>
        let (parts, sh) := allFields (substitution more) words sh
        let before := sh
        match redirectAll (substitution more) redirections sh with
        | (.error e, sh) => (restore before redirections sh).complain 2 line e
        | (.ok _, sh) =>
          let given := assign (substitution more) assignments sh
          match parts with
          | [] =>
            restore before redirections
              (given.ending (if assignments.any fun a => hasCommand a.2 then given.status else 0))
          | ["exec"] => given.ending 0
          | name :: args =>
            let own := given.bindings.filter fun v => (assignments.lookup v.1).isSome
            restore before redirections
              (call itself (script more) line own name args { given with bindings := sh.bindings })
where
  loop : Nat → Bool → Command → Command → Nat → Shell → Shell
    | 0, _, _, _, _, sh => sh
    | more + 1, wanted, condition, body, last, sh =>
      let sh := run itself more condition sh
      if sh.ended.isSome then sh
      else if (sh.status == 0) == wanted then
        let sh := run itself more body sh
        loop more wanted condition body sh.status sh
      else sh.ending last
  substitution : Nat → List Char → Shell → List Char × Shell
    | 0, _, sh => ([], sh)
    | more + 1, text, sh =>
      let (bytes, sh) := capture (script more text) sh
      (held bytes, sh)
  script : Nat → List Char → Shell → Shell
    | 0, _, sh => sh
    | more + 1, text, sh =>
      match Command.ofText? text with
      | some c => run itself more c sh
      | none => { sh with ended := some (.exit 2) }.complain 2 1 "Syntax error"

def depth : Nat := 100000

end Shell

def nulInArgument : IoError := .described .invalidInput "nul byte found in provided data"

def execute (itself : Program) (caller : Caller) (environment : Environment) (program : String)
    (args : List String) (m : Machine) : Except IoError ToolOutput × Machine :=
  if (program :: args).any fun a => a.toList.contains '\x00' then (.error nulInArgument, m)
  else match m.files.find ⟨"/"⟩ caller.here with
    | .error e => (.error e, m)
    | .ok t =>
      if !m.files.isDirectory t.node then (.error (.host .notDirectory), m)
      else match image m t.path program with
        | .error (.unreachable fault) => (.error (.host fault), m)
        | .error (.noProgram _) => (.error (.host .badExecutable), m)
        | .ok i =>
          let bindings := environment.settings.map fun v => (v.1, String.ofList (held v.2))
          let sh := Shell.runImage itself (Shell.run.script itself Shell.depth) program args i
            (.start m ⟨t.path, caller.pid⟩ program args bindings)
          let code := match sh.ended with
            | some (.signal _) => none
            | some (.exit code) => some (code : Int)
            | none => some (sh.status : Int)
          let text (bytes : Bytes) := String.ofList (Utf8.decodeLenient bytes)
          (.ok ⟨code, text sh.out, text sh.err⟩, sh.machine)

/-- The tool of a program that hands its environment on, and that a script can start again. -/
def toolOf (itself : Program) (caller : Caller) (environment : Environment) (command : ToolCommand) :
    BuildTool := fun request => do
  let output ← Job.mapError (.spawn command.program)
    (Job.attempt (execute itself ⟨request.root, caller.pid⟩ environment command.program
      (command.expand request)))
  Job.yield
  pure output

def commandTool (caller : Caller) (command : ToolCommand) : BuildTool :=
  toolOf (fun _ sh => sh.ending 127) caller ⟨[]⟩ command

end BuildReuse.Host
