import BuildReuse.Host.Arithmetic
import BuildReuse.Host.Held
import BuildReuse.Machine

/-! The state of a shell: where it stands, its arguments and variables, what it
has written, and where its two streams lead. Words are expanded here, except
that the output of a command within a word is given by the caller. A process has
the number behind that of the process that has started it; `origin` is the number
of the process that has started the first one. -/

namespace BuildReuse.Host

inductive Sink where
  | out
  | err
  | file (node : Nat)
  | nowhere
  deriving DecidableEq, Repr

inductive Ending where
  | exit (code : Nat)
  | signal (number : Nat)
  deriving DecidableEq, Repr

structure Shell where
  machine : Machine
  here : Path
  origin : Nat
  pid : Nat
  name : String
  args : List String
  bindings : List (String × String)
  exported : List String
  status : Nat
  input : Bytes
  out : Bytes
  err : Bytes
  stdout : Sink
  stderr : Sink
  ended : Option Ending

namespace Shell

def start (machine : Machine) (caller : Caller) (name : String) (args : List String)
    (bindings : List (String × String)) : Shell :=
  ⟨machine, caller.here, caller.pid, caller.pid + 1, name, args, bindings, bindings.map Prod.fst,
    0, [], [], [], .out, .err, none⟩

def emit (sink : Sink) (bytes : Bytes) (sh : Shell) : Shell :=
  match sink with
  | .out => { sh with out := sh.out ++ bytes }
  | .err => { sh with err := sh.err ++ bytes }
  | .nowhere => sh
  | .file n =>
    let m := sh.machine
    let old := (m.files.readNode n).toOption.getD []
    { sh with machine := { m with
      files := m.files.writeNode n (old ++ bytes) m.now
      clock := m.clock + Machine.tick } }

def write (bytes : Bytes) (sh : Shell) : Shell := sh.emit sh.stdout bytes

def say (text : String) (sh : Shell) : Shell := sh.write (heldBytes text.toList)

def ending (status : Nat) (sh : Shell) : Shell := { sh with status := status }

def failing (status : Nat) (text : String) (sh : Shell) : Shell :=
  (sh.emit sh.stderr (heldBytes (text ++ "\n").toList)).ending status

def complain (status line : Nat) (text : String) (sh : Shell) : Shell :=
  sh.failing status s!"{sh.name}: {line}: {text}"

def setVariable (name value : String) (sh : Shell) : Shell :=
  { sh with bindings := (name, value) :: sh.bindings.filter fun v => v.1 != name }

def value? (sh : Shell) (name : String) : Option String :=
  match name with
  | "@" | "*" => some (" ".intercalate sh.args)
  | "#" => some (toString sh.args.length)
  | "?" => some (toString sh.status)
  | "$" => some (toString sh.pid)
  | "PPID" => some (toString (sh.pid - 1))
  | "0" => some sh.name
  | "PWD" => some sh.here.text
  | name =>
    match name.toNat? with
    | some n => sh.args[n - 1]?
    | none => sh.bindings.lookup name

def braced (sh : Shell) (inner : String) : String :=
  let (name, rest) := inner.toList.span fun c => c != ':' && c != '-'
  let value := sh.value? (String.ofList name)
  match rest with
  | ':' :: '-' :: other => (value.filter fun v => !v.isEmpty).getD (String.ofList other)
  | '-' :: other => value.getD (String.ofList other)
  | _ => value.getD ""

def numberOf (sh : Shell) (name : String) : Int := ((sh.value? name).bind String.toInt?).getD 0

inductive Fragment where
  | fixed (text : List Char)
  | loose (text : List Char)
  | border
  deriving DecidableEq, Repr

def fragment (quoted : Bool) (text : List Char) : Fragment := if quoted then .fixed text else .loose text

def withoutFinalFeeds (text : List Char) : List Char :=
  (text.reverse.dropWhile (· == '\n')).reverse

abbrev Substitution := List Char → Shell → List Char × Shell

def expandPart (output : Substitution) (part : Part) (sh : Shell) : List Fragment × Shell :=
  match part with
  | .literal _ text => ([.fixed text], sh)
  | .variable true "@" => ((sh.args.map fun a => .fixed a.toList).intersperse .border, sh)
  | .variable quoted name => ([fragment quoted (sh.braced name).toList], sh)
  | .arithmetic quoted e =>
    ([fragment quoted (toString (Arithmetic.evaluate sh.numberOf e)).toList], sh)
  | .command quoted script =>
    let (text, sh) := output script sh
    ([fragment quoted (withoutFinalFeeds text)], sh)

def expandParts (output : Substitution) : Word → Shell → List Fragment × Shell
  | [], sh => ([], sh)
  | part :: rest, sh =>
    let (f, sh) := expandPart output part sh
    let (fs, sh) := expandParts output rest sh
    (f ++ fs, sh)

def splitLoose (current : Option (List Char)) : List Char → List (List Char) × Option (List Char)
  | [] => ([], current)
  | c :: rest =>
    if c == ' ' || c == '\t' || c == '\n' then
      let (fields, last) := splitLoose none rest
      (current.toList ++ fields, last)
    else splitLoose (some (current.getD [] ++ [c])) rest

def fieldsOf (current : Option (List Char)) : List Fragment → List (List Char)
  | [] => current.toList
  | .fixed t :: rest => fieldsOf (some (current.getD [] ++ t)) rest
  | .border :: rest => current.getD [] :: fieldsOf (some []) rest
  | .loose t :: rest =>
    let (fields, last) := splitLoose current t
    fields ++ fieldsOf last rest

def isArguments (w : Word) : Bool :=
  w.contains (.variable true "@") &&
    w.all fun p => p == .variable true "@" || p == .literal true []

def fields (output : Substitution) (w : Word) (sh : Shell) : List String × Shell :=
  if sh.args.isEmpty && isArguments w then ([], sh)
  else
    let (fragments, sh) := expandParts output w sh
    ((fieldsOf none fragments).map String.ofList, sh)

def allFields (output : Substitution) : List Word → Shell → List String × Shell
  | [], sh => ([], sh)
  | w :: rest, sh =>
    let (f, sh) := fields output w sh
    let (fs, sh) := allFields output rest sh
    (f ++ fs, sh)

def text (output : Substitution) (w : Word) (sh : Shell) : String × Shell :=
  let (fragments, sh) := expandParts output w sh
  (String.ofList (fragments.flatMap fun
    | .fixed t | .loose t => t
    | .border => [' ']), sh)

def assign (output : Substitution) : List (String × Word) → Shell → Shell
  | [], sh => sh
  | (name, w) :: rest, sh =>
    let (value, sh) := text output w sh
    assign output rest (sh.setVariable name value)

def nullDevice : String := "/dev/null"

def openFault (missing : String) (e : IoError) : String :=
  match e with
  | .host .noEntry => missing
  | .host fault => fault.text
  | e => e.message

def openSink (append : Bool) (target : String) (sh : Shell) : Except String (Sink × Shell) :=
  if target = nullDevice then .ok (.nowhere, sh)
  else
    let m := sh.machine
    match m.files.openFile sh.here ⟨target⟩ m.now with
    | .error e => .error ("cannot create " ++ target ++ ": " ++ openFault "Directory nonexistent" e)
    | .ok (files, n) =>
      let files := if append then files else files.writeNode n [] m.now
      .ok (.file n, { sh with machine := { m with files := files, clock := m.clock + Machine.tick } })

def readSource (source : String) (sh : Shell) : Except String Bytes :=
  if source = nullDevice then .ok []
  else match sh.machine.files.readBytes sh.here ⟨source⟩ with
    | .ok bytes => .ok bytes
    | .error (.host .isDirectory) => .ok []
    | .error e => .error ("cannot open " ++ source ++ ": " ++ openFault "No such file" e)

def setSink (stream : Nat) (sink : Sink) (sh : Shell) : Shell :=
  if stream = 1 then { sh with stdout := sink }
  else if stream = 2 then { sh with stderr := sink }
  else sh

def redirect (output : Substitution) (r : Redirection) (sh : Shell) : Except String Unit × Shell :=
  match r with
  | .document w =>
    let (t, sh) := text output w sh
    (.ok (), { sh with input := heldBytes t.toList })
  | .input w =>
    let (source, sh) := text output w sh
    match sh.readSource source with
    | .ok bytes => (.ok (), { sh with input := bytes })
    | .error e => (.error e, sh)
  | .output stream append w =>
    let (target, sh) := text output w sh
    match sh.openSink append target with
    | .ok (sink, sh) => (.ok (), sh.setSink stream sink)
    | .error e => (.error e, sh)
  | .duplicate stream w =>
    let (of, sh) := text output w sh
    match of with
    | "1" => (.ok (), sh.setSink stream sh.stdout)
    | "2" => (.ok (), sh.setSink stream sh.stderr)
    | "-" => (.ok (), sh.setSink stream .nowhere)
    | other => (.error s!"{other}: Bad file descriptor", sh)

def redirectAll (output : Substitution) : List Redirection → Shell → Except String Unit × Shell
  | [], sh => (.ok (), sh)
  | r :: rest, sh =>
    match redirect output r sh with
    | (.ok _, sh) => redirectAll output rest sh
    | failed => failed

def Redirection.isInput : Redirection → Bool
  | .input _ | .document _ => true
  | _ => false

def restore (before : Shell) (redirections : List Redirection) (sh : Shell) : Shell :=
  { sh with
    stdout := before.stdout
    stderr := before.stderr
    input := if redirections.any Redirection.isInput then before.input else sh.input }

end Shell
end BuildReuse.Host
