import BuildReuse.Build.Rehearsal
import BuildReuse.FileSystem.Files
import BuildReuse.Lock.Table
import BuildReuse.Task

/-! The machine on which the pipelines run: its files and locks, a clock, the
rehearsed tools, and deeds of others that are due later. Times of the clock are
nanoseconds since the machine was started. -/

namespace BuildReuse

inductive Deed where
  | write (path : Path) (bytes : Bytes)
  | close (handle : Nat)
  deriving DecidableEq, Repr

structure Machine where
  files : FileSystem
  locks : LockTable
  clock : Nat
  epoch : Nat
  rehearsals : List Rehearsal
  agenda : List (Nat × Deed)
  deriving Repr

structure Caller where
  here : Path
  pid : Nat
  deriving DecidableEq, Repr

namespace Machine

def now (m : Machine) : Int := m.epoch + m.clock

def tick : Nat := 1000

def withFiles (m : Machine) (f : FileSystem → Int → Except IoError FileSystem) :
    Except IoError Machine :=
  (f m.files m.now).map fun files => { m with files := files, clock := m.clock + tick }

def place (m : Machine) (here : Path) (p : Placement) : Except IoError Machine := do
  let m ← m.withFiles fun fs now => fs.writeFile here p.path p.bytes now
  let trail ← m.files.find here p.path
  .ok { m with files := m.files.update trail.node fun node =>
    { node with modified := p.modified.getD node.modified, mode := p.mode.getD node.mode } }

def perform (m : Machine) : Deed → Machine
  | .write path bytes =>
    (m.withFiles fun fs now => fs.writeFile ⟨"/"⟩ path bytes now).toOption.getD m
  | .close handle => { m with locks := m.locks.close handle }

def schedule (m : Machine) (time : Nat) (deed : Deed) : Machine :=
  let (before, after) := m.agenda.span fun e => e.1 ≤ time
  { m with agenda := before ++ (time, deed) :: after }

def doDue (time : Nat) : List (Nat × Deed) → Machine → Machine
  | [], m => { m with agenda := [], clock := max m.clock time }
  | (due, deed) :: rest, m =>
    if due ≤ time then doDue time rest ({ m with clock := max m.clock due }.perform deed)
    else { m with agenda := (due, deed) :: rest, clock := max m.clock time }

def advance (time : Nat) (m : Machine) : Machine := doDue time m.agenda m

/-- The end of a time-out that begins now. A clock counts fewer than 2^63
seconds. -/
def deadline? (m : Machine) (timeout : Duration) : Option Nat :=
  let time := m.clock + timeout.totalNanos
  if time / 1000000000 < 0x8000000000000000 then some time else none

end Machine

class Timed (σ : Type) where
  clock : σ → Nat
  deadline? : σ → Duration → Option Nat
  next? : σ → Option Nat
  advance : Nat → σ → σ

instance : Timed Machine where
  clock := Machine.clock
  deadline? := Machine.deadline?
  next? m := m.agenda.head?.map Prod.fst
  advance := Machine.advance

namespace Task

variable {σ α : Type} [Timed σ]

def sleep (nanos : Nat) : Task σ Unit :=
  look fun s =>
    waitFor (fun t => Timed.clock s + nanos ≤ Timed.clock t) (some (Timed.clock s + nanos))

end Task

abbrev MachineJob := Job Machine

def changeFiles (f : FileSystem → Int → Except IoError FileSystem) : MachineJob IoError Unit :=
  Job.change fun m => m.withFiles f

end BuildReuse
