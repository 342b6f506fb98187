import BuildReuse.Config.Load
import BuildReuse.PackageError

/-! What the command writes: lines of either stream, with signs in front and with
colours if they are forced. A failure is told as a chain of texts. -/

namespace BuildReuse.CommandLine

structure Report where
  out : String
  err : String
  deriving DecidableEq, Repr

namespace Report

def empty : Report := ⟨"", ""⟩

instance : Append Report := ⟨fun a b => ⟨a.out ++ b.out, a.err ++ b.err⟩⟩

def concat (reports : List Report) : Report := reports.foldl (· ++ ·) empty

end Report

structure Style where
  on : Nat
  off : Nat
  deriving DecidableEq, Repr

namespace Style

def green : Style := ⟨32, 39⟩
def red : Style := ⟨31, 39⟩
def yellow : Style := ⟨33, 39⟩
def blue : Style := ⟨34, 39⟩
def dimmed : Style := ⟨2, 0⟩

def paint (s : Style) (coloured : Bool) (text : String) : String :=
  if coloured then s!"\x1b[{s.on}m{text}\x1b[{s.off}m" else text

end Style

def colourVariable : String := "FORCE_COLOR"

def colourForced (environment : Environment) : Bool :=
  match environment.text? colourVariable with
  | none => false
  | some "false" => false
  | some value =>
    let digits := match value.toList with
      | '+' :: rest => rest
      | cs => cs
    digits.isEmpty || digits.any (· != '0')

def printLine (text : String) : Report := ⟨text ++ "\n", ""⟩
def complainLine (text : String) : Report := ⟨"", text ++ "\n"⟩

def success (coloured : Bool) (message : String) : Report :=
  printLine (Style.green.paint coloured "✓" ++ " " ++ message)

def info (coloured : Bool) (message : String) : Report :=
  printLine (Style.blue.paint coloured "•" ++ " " ++ message)

def failure (coloured : Bool) (message : String) : Report :=
  complainLine (Style.red.paint coloured "✗" ++ " " ++ Style.red.paint coloured message)

def warning (coloured : Bool) (message : String) : Report :=
  complainLine (Style.yellow.paint coloured "⚠" ++ " " ++ Style.yellow.paint coloured message)

def stat (coloured : Bool) (label value : String) : Report :=
  printLine ("  " ++ Style.dimmed.paint coloured label ++ ": " ++ value)

def document (j : Json) : Report := printLine (j.render .lines)

def causesOfConfig : Config.Error → List String
  | .read path source => [(Config.Error.read path source).message, source.message]
  | e => [e.message]

def causesOfProject : ProjectError → List String
  | .readDirectory root source => [(ProjectError.readDirectory root source).message, source.message]
  | e => [e.message]

def causesOfLock : LockError → List String
  | .openFile source => [(LockError.openFile source).message, source.message]
  | .writeMetadata source => [(LockError.writeMetadata source).message, source.message]
  | e => [e.message]

def causesOfBuildLog : BuildLog.Error → List String
  | .scan root source => [(BuildLog.Error.scan root source).message, source.message]
  | .read log source => [(BuildLog.Error.read log source).message, source.message]
  | e => [e.message]

def causes : PackageError → List String
  | .lock e => causesOfLock e
  | .buildLog e => causesOfBuildLog e
  | e => [e.message]

def chain (texts : List String) : String := ": ".intercalate texts

end BuildReuse.CommandLine
