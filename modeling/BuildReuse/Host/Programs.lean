import BuildReuse.Host.Shell

/-! The small programs that scripts are made of. Each takes its arguments and the
shell that calls it, writes to the streams of that shell and leaves a status. -/

namespace BuildReuse.Host

abbrev Program := List String → Shell → Shell

namespace Program

def faultText : IoError → String
  | .host fault => fault.text
  | e => e.message

def options : List String → List Char × List String
  | "--" :: rest => ([], rest)
  | arg :: rest =>
    match arg.toList with
    | '-' :: c :: cs =>
      let (letters, operands) := options rest
      (c :: cs ++ letters, operands)
    | _ => ([], arg :: rest)
  | [] => ([], [])

def isOctal (c : Char) : Bool := '0' ≤ c && c ≤ '7'

def octalValue (digits : List Char) : UInt8 :=
  UInt8.ofNat (digits.foldl (fun n d => n * 8 + (d.toNat - '0'.toNat)) 0)

def letterEscape? : Char → Option UInt8
  | 'a' => some 7
  | 'b' => some 8
  | 'f' => some 12
  | 'n' => some 10
  | 'r' => some 13
  | 't' => some 9
  | 'v' => some 11
  | '\\' => some 92
  | _ => none

def unescape (zero : Bool) : Nat → List Char → Bytes × Bool
  | 0, _ => ([], false)
  | _, [] => ([], false)
  | bound + 1, '\\' :: c :: rest =>
    match letterEscape? c with
    | some byte =>
      let (bytes, stopped) := unescape zero bound rest
      (byte :: bytes, stopped)
    | none =>
      if c == 'c' && zero then ([], true)
      else
        let behind := if zero then rest else c :: rest
        if (if zero then c == '0' else isOctal c) then
          let digits := (behind.take 3).takeWhile isOctal
          let (bytes, stopped) := unescape zero bound (behind.drop digits.length)
          (octalValue digits :: bytes, stopped)
        else
          let (bytes, stopped) := unescape zero bound (c :: rest)
          (92 :: bytes, stopped)
  | bound + 1, c :: rest =>
    let (bytes, stopped) := unescape zero bound rest
    (heldChar c ++ bytes, stopped)

def unescaped (zero : Bool) (text : String) : Bytes × Bool :=
  unescape zero (text.length + 1) text.toList

def echo : Program := fun args sh =>
  let (quiet, args) := match args with
    | "-n" :: rest => (true, rest)
    | args => (false, args)
  let (bytes, stopped) := unescaped true (" ".intercalate args)
  (sh.write (if quiet || stopped then bytes else bytes ++ [10])).ending 0

def formatOnce : Nat → List Char → List String → Bytes × List String × Bool
  | 0, _, args => ([], args, false)
  | _, [], args => ([], args, false)
  | bound + 1, '%' :: '%' :: rest, args =>
    let (bytes, args, asked) := formatOnce bound rest args
    (37 :: bytes, args, asked)
  | bound + 1, '%' :: c :: rest, args =>
    let arg := args.headD ""
    let shown := match c with
      | 's' => heldBytes arg.toList
      | 'b' => (unescaped true arg).1
      | 'c' => heldBytes (arg.toList.take 1)
      | _ => bytesOf (toString (arg.toInt?.getD 0))
    let (bytes, args, _) := formatOnce bound rest args.tail
    (shown ++ bytes, args, true)
  | bound + 1, '\\' :: rest, args =>
    let escape := match rest with
      | [] => ['\\']
      | c :: cs => '\\' :: (if isOctal c then (c :: cs).take 3 |>.takeWhile isOctal else [c])
    let (bytes, args, asked) := formatOnce bound (rest.drop (escape.length - 1)) args
    ((unescape false 5 escape).1 ++ bytes, args, asked)
  | bound + 1, c :: rest, args =>
    let (bytes, args, asked) := formatOnce bound rest args
    (heldChar c ++ bytes, args, asked)

def format (text : List Char) : Nat → List String → Bytes
  | 0, _ => []
  | more + 1, args =>
    match formatOnce (text.length + 1) text args with
    | (bytes, [], _) => bytes
    | (bytes, _, false) => bytes
    | (bytes, args, true) => bytes ++ format text more args

def printf : Program := fun args sh =>
  match args with
  | [] => sh.failing 2 "printf: usage: printf format [arg ...]"
  | text :: args => (sh.write (format text.toList (args.length + 1) args)).ending 0

def cat : Program := fun args sh =>
  match (options args).2 with
  | [] => ({ sh with input := [] }.write sh.input).ending 0
  | files => files.foldl one (sh.ending 0)
where
  one (sh : Shell) (file : String) : Shell :=
    if file = "-" then { sh with input := [] }.write sh.input
    else if file = Shell.nullDevice then sh
    else match sh.machine.files.readBytes sh.here ⟨file⟩ with
      | .ok bytes => sh.write bytes
      | .error e => sh.failing 1 s!"cat: {file}: {faultText e}"

def changing (f : FileSystem → Int → Except IoError FileSystem) (complaint : String) (sh : Shell) :
    Shell :=
  match sh.machine.withFiles f with
  | .ok m => { sh with machine := m }
  | .error e => sh.failing 1 s!"{complaint}: {faultText e}"

def placeFor (sh : Shell) (source target : String) : Path :=
  match sh.machine.files.find sh.here ⟨target⟩ with
  | .ok t =>
    if sh.machine.files.isDirectory t.node then
      (Path.mk target).join ((Path.mk source).fileName?.getD source)
    else ⟨target⟩
  | .error _ => ⟨target⟩

def cp : Program := fun args sh =>
  match (options args).2 with
  | [source, target] =>
    match sh.machine.files.find sh.here ⟨source⟩ with
    | .error e => sh.failing 1 s!"cp: cannot stat '{source}': {faultText e}"
    | .ok t =>
      if sh.machine.files.isDirectory t.node then
        sh.failing 1 s!"cp: -r not specified; omitting directory '{source}'"
      else
        let bytes := (sh.machine.files.readNode t.node).toOption.getD []
        let target := placeFor sh source target
        changing (fun fs now => fs.writeFile sh.here target bytes now)
          s!"cp: cannot create regular file '{target.text}'" (sh.ending 0)
  | [] => sh.failing 1 "cp: missing file operand"
  | _ => sh.failing 1 "cp: missing destination file operand"

def move (fs : FileSystem) (here source target : Path) : Except IoError FileSystem := do
  match ← fs.findKeepingLink here source, ← fs.locate here true target with
  | (name, n) :: directory, .absent place newName =>
    .ok ((fs.leave (Trail.node directory) name).enter place.node newName n)
  | (name, n) :: directory, .present ((old, m) :: place) =>
    if fs.isDirectory m && !fs.isDirectory n then .error (.host .isDirectory)
    else if n = m then .ok fs
    else .ok ((fs.leave (Trail.node directory) name).enter (Trail.node place) old n)
  | _, _ => .error (.host .busy)

def mv : Program := fun args sh =>
  match (options args).2 with
  | [source, target] =>
    match sh.machine.files.findKeepingLink sh.here ⟨source⟩ with
    | .error e => sh.failing 1 s!"mv: cannot stat '{source}': {faultText e}"
    | .ok _ =>
      let target := placeFor sh source target
      changing (fun fs _ => move fs sh.here ⟨source⟩ target)
        s!"mv: cannot move '{source}' to '{target.text}'" (sh.ending 0)
  | _ => sh.failing 1 "mv: missing file operand"

def rm : Program := fun args sh =>
  let (letters, files) := options args
  let force := letters.contains 'f'
  let whole := letters.contains 'r' || letters.contains 'R'
  files.foldl (fun sh file =>
    match sh.machine.files.findKeepingLink sh.here ⟨file⟩ with
    | .error e =>
      if force && e.kind == .notFound then sh
      else sh.failing 1 s!"rm: cannot remove '{file}': {faultText e}"
    | .ok t =>
      if whole && sh.machine.files.isDirectory t.node then
        changing (fun fs _ => fs.removeTree sh.here ⟨file⟩) s!"rm: cannot remove '{file}'" sh
      else changing (fun fs _ => fs.removeFile sh.here ⟨file⟩) s!"rm: cannot remove '{file}'" sh)
    (sh.ending 0)

def mkdir : Program := fun args sh =>
  let (letters, directories) := options args
  directories.foldl (fun sh directory =>
    changing (fun fs now =>
        if letters.contains 'p' then fs.makeDirectories sh.here ⟨directory⟩ now
        else fs.makeDirectory sh.here ⟨directory⟩ now)
      s!"mkdir: cannot create directory '{directory}'" sh) (sh.ending 0)

def removeEmpty (fs : FileSystem) (here path : Path) : Except IoError FileSystem := do
  let t ← fs.findKeepingLink here path
  if !fs.isDirectory t.node then .error (.host .notDirectory)
  else if (fs.entries t.node).isEmpty then fs.removeTree here path
  else .error (.host .notEmpty)

def rmdir : Program := fun args sh =>
  (options args).2.foldl (fun sh directory =>
    changing (fun fs _ => removeEmpty fs sh.here ⟨directory⟩)
      s!"rmdir: failed to remove '{directory}'" sh) (sh.ending 0)

def mkfifo : Program := fun args sh =>
  (options args).2.foldl (fun sh pipe =>
    changing (fun fs now => fs.makePipe sh.here ⟨pipe⟩ now)
      s!"mkfifo: cannot create fifo '{pipe}'" sh) (sh.ending 0)

def ln : Program := fun args sh =>
  let (letters, operands) := options args
  match operands with
  | [target, link] =>
    let place := placeFor sh target link
    if letters.contains 's' then
      let clear (fs : FileSystem) : FileSystem :=
        if letters.contains 'f' then (fs.removeFile sh.here place).toOption.getD fs else fs
      changing (fun fs now => (clear fs).makeLink sh.here place target now)
        s!"ln: failed to create symbolic link '{place.text}'" (sh.ending 0)
    else sh.failing 1 s!"ln: failed to access '{target}': Operation not supported"
  | _ => sh.failing 1 "ln: missing file operand"

def touch : Program := fun args sh =>
  (options args).2.foldl (fun sh file =>
    changing (fun fs now =>
        match fs.find sh.here ⟨file⟩ with
        | .ok t => .ok (fs.update t.node fun node => { node with modified := now })
        | .error _ => fs.writeFile sh.here ⟨file⟩ [] now)
      s!"touch: cannot touch '{file}'" sh) (sh.ending 0)

def chmod : Program := fun args sh =>
  match args with
  | mode :: files =>
    let newMode (old : Nat) : Nat :=
      if mode.toList.getLast? == some 'x' then old ||| 0o111
      else mode.toList.foldl (fun n d => n * 8 + (d.toNat - '0'.toNat)) 0
    files.foldl (fun sh file =>
      changing (fun fs _ => do
          let t ← fs.find sh.here ⟨file⟩
          .ok (fs.update t.node fun node => { node with mode := newMode node.mode }))
        s!"chmod: cannot access '{file}'" sh) (sh.ending 0)
  | [] => sh.failing 1 "chmod: missing operand"

def dropFinalSlashes (text : List Char) : List Char :=
  (text.reverse.dropWhile (· == '/')).reverse

def directoryPart (path : String) : String :=
  match dropFinalSlashes path.toList with
  | [] => if path.isEmpty then "." else "/"
  | text =>
    let front := (text.reverse.dropWhile (· != '/')).reverse
    if front.isEmpty then "."
    else match dropFinalSlashes front with
      | [] => "/"
      | front => String.ofList front

def dirname : Program := fun args sh =>
  ((options args).2.foldl (fun sh path => sh.say (directoryPart path ++ "\n")) sh).ending 0

def lastName (path ending : String) : String :=
  match dropFinalSlashes path.toList with
  | [] => if path.isEmpty then "" else "/"
  | text =>
    let name := (text.reverse.takeWhile (· != '/')).reverse
    if ending.toList.isSuffixOf name && ending.toList != name then
      String.ofList (name.take (name.length - ending.length))
    else String.ofList name

def basename : Program := fun args sh =>
  match (options args).2 with
  | [] => sh.failing 1 "basename: missing operand"
  | path :: rest => (sh.say (lastName path (rest.headD "") ++ "\n")).ending 0

def nanosOf (text : String) : Nat :=
  let (whole, rest) := text.toList.span Char.isDigit
  let fraction := ((rest.drop 1).takeWhile Char.isDigit ++ List.replicate 9 '0').take 9
  ((whole ++ fraction).foldl (fun n d => n * 10 + (d.toNat - '0'.toNat)) 0)

def sleep : Program := fun args sh =>
  let m := sh.machine
  { sh with machine := m.advance (m.clock + nanosOf (args.headD "0")) }.ending 0

def seq : Program := fun args sh =>
  let (first, last) := match args.map fun a => a.toInt?.getD 0 with
    | [last] => (1, last)
    | first :: last :: _ => (first, last)
    | [] => (1, 0)
  (sh.say (String.join ((List.range (last + 1 - first).toNat).map fun n =>
    toString (first + Int.ofNat n) ++ "\n"))).ending 0

def leadingLines : Nat → Bytes → Bytes
  | 0, _ => []
  | _, [] => []
  | n + 1, 10 :: rest => 10 :: leadingLines n rest
  | n + 1, b :: rest => b :: leadingLines (n + 1) rest

def zeroDevice : String := "/dev/zero"

def head : Program := fun args sh =>
  let cut (bytes : Bool) (count : String) (files : List String) : Shell :=
    let count := count.toNat?.getD 10
    let take (text : Bytes) : Bytes := if bytes then text.take count else leadingLines count text
    match files with
    | [] => ({ sh with input := [] }.write (take sh.input)).ending 0
    | file :: _ =>
      if bytes && file = zeroDevice then (sh.write (List.replicate count 0)).ending 0
      else if file = Shell.nullDevice then sh.ending 0
      else match sh.machine.files.readBytes sh.here ⟨file⟩ with
        | .ok text => (sh.write (take text)).ending 0
        | .error e => sh.failing 1 s!"head: cannot open '{file}' for reading: {faultText e}"
  match args with
  | "-c" :: count :: files => cut true count files
  | "-n" :: count :: files => cut false count files
  | files => cut false "10" files

def ls : Program := fun args sh =>
  let (letters, operands) := options args
  let path := operands.headD "."
  match sh.machine.files.find sh.here ⟨path⟩ with
  | .error e => sh.failing 2 s!"ls: cannot access '{path}': {faultText e}"
  | .ok t =>
    let names :=
      if sh.machine.files.isDirectory t.node then
        let shown := ((sh.machine.files.entries t.node).map Prod.fst).filter fun name =>
          letters.contains 'A' || name.toList.head? != some '.'
        shown.mergeSort fun a b => a ≤ b
      else [path]
    (sh.say (String.join (names.map (· ++ "\n")))).ending 0

def holds (sh : Shell) : List String → Bool
  | "!" :: rest => !holds sh rest
  | [a, op, b] => compare a op b
  | [op, a] => single op a
  | [a] => !a.isEmpty
  | _ => false
where
  number (text : String) : Int := text.toInt?.getD 0
  compare (a op b : String) : Bool :=
    match op with
    | "=" | "==" => a == b
    | "!=" => a != b
    | "-eq" => number a == number b
    | "-ne" => number a != number b
    | "-lt" => number a < number b
    | "-le" => number a ≤ number b
    | "-gt" => number a > number b
    | "-ge" => number a ≥ number b
    | _ => false
  single (op a : String) : Bool :=
    let fs := sh.machine.files
    let behind := (fs.find sh.here ⟨a⟩).toOption
    match op with
    | "-n" => !a.isEmpty
    | "-z" => a.isEmpty
    | "-e" | "-r" | "-w" => behind.isSome
    | "-f" => behind.any fun t => fs.isFile t.node
    | "-d" => behind.any fun t => fs.isDirectory t.node
    | "-s" => behind.any fun t => ((fs.readNode t.node).toOption.getD [0]).length > 0
    | "-x" => behind.any fun t => (fs.nodes[t.node]?).any fun n => n.mode &&& 0o111 != 0
    | "-p" => behind.any fun t => fs.content? t.node == some .pipe
    | "-L" | "-h" =>
      match fs.findKeepingLink sh.here ⟨a⟩ with
      | .ok t => match fs.content? t.node with
        | some (.link _) => true
        | _ => false
      | .error _ => false
    | _ => false

def test : Program := fun args sh => sh.ending (if holds sh args then 0 else 1)

def pwd : Program := fun _ sh => (sh.say (sh.here.text ++ "\n")).ending 0

def all : List (String × Program) := [
  ("echo", echo), ("printf", printf), ("cat", cat), ("cp", cp), ("mv", mv), ("rm", rm),
  ("mkdir", mkdir), ("rmdir", rmdir), ("mkfifo", mkfifo), ("ln", ln), ("touch", touch),
  ("chmod", chmod), ("dirname", dirname), ("basename", basename), ("sleep", sleep),
  ("seq", seq), ("head", head), ("ls", ls),
  ("test", test), ("[", fun args => test args.dropLast), ("pwd", pwd),
  ("true", fun _ sh => sh.ending 0), ("false", fun _ sh => sh.ending 1)]

end Program
end BuildReuse.Host
