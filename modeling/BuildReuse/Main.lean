import BuildReuse.CommandLine.Run
import BuildReuse.Host.Boot

/-! The command as a program. It runs on a machine that is started for it; the
files of the machine are read from standard input. -/

namespace BuildReuse.Main

def home : Path := ⟨"/home/work"⟩
def epoch : Nat := 1700000000 * 1000000000
def caller : Caller := ⟨home, 2⟩

def variableNames : List String :=
  [Config.commandVariable, Config.extensionVariable, Config.timeoutVariable,
    CommandLine.colourVariable]

def environment : List String → IO (List (String × String))
  | [] => pure []
  | name :: names => do
    let rest ← environment names
    match ← IO.getEnv name with
    | some value => pure ((name, value) :: rest)
    | none => pure rest

partial def readAll (input : IO.FS.Stream) (text : String) : IO String := do
  let line ← input.getLine
  if line.isEmpty then pure text else readAll input (text ++ line)

def machineOf (text : String) : Except String Machine := do
  let placements ← (Host.placementsOf text).mapError Json.Failure.message
  (Host.populate home (Host.boot epoch 0 home) placements).mapError IoError.message

end BuildReuse.Main

def main (args : List String) : IO UInt32 := do
  let text ← BuildReuse.Main.readAll (← IO.getStdin) ""
  match BuildReuse.Main.machineOf text with
  | .error e =>
    IO.eprintln ("the files on standard input cannot be used: " ++ e)
    pure 1
  | .ok m =>
    let environment ← BuildReuse.Main.environment BuildReuse.Main.variableNames
    let (outcome, _) := BuildReuse.CommandLine.run ⟨BuildReuse.Main.caller, 0, environment⟩ args m
    IO.print outcome.report.out
    IO.eprint outcome.report.err
    pure (UInt32.ofNat outcome.status)
