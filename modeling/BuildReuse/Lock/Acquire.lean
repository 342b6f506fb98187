import BuildReuse.Lock.Metadata
import BuildReuse.Machine

/-! Exclusive access to a directory. A lock is taken in two layers, first the
mutex of the directory inside the program and then the lock file between
programs, and given back in the opposite order. -/

namespace BuildReuse

structure Guard where
  ticket : Nat
  handle : Nat
  lockPath : Path
  deriving DecidableEq, Repr

namespace Lock

def interval : Nat := 25000000

def enqueue (registry : Nat) (directory : Path) (m : Machine) : Nat × Machine :=
  let (ticket, locks) := m.locks.enqueue registry directory
  (ticket, { m with locks := locks })

def leave (ticket : Nat) (m : Machine) : Machine := { m with locks := m.locks.leave ticket }

def openFile (caller : Caller) (lockPath : Path) (m : Machine) : Except LockError Nat × Machine :=
  match m.files.openFile caller.here lockPath m.now with
  | .error e => (.error (.openFile e), m)
  | .ok (files, node) =>
    let (handle, locks) := m.locks.openNode node
    (.ok handle, { m with files := files, locks := locks, clock := m.clock + Machine.tick })

def close (handle : Nat) (m : Machine) : Machine := { m with locks := m.locks.close handle }

def tryLock (handle : Nat) (m : Machine) : Bool × Machine :=
  let (taken, locks) := m.locks.tryLock handle
  (taken, { m with locks := locks })

def contention (caller : Caller) (lockPath : Path) (m : Machine) : LockError :=
  match m.files.readText caller.here lockPath with
  | .error _ => .contentionUnknown lockPath
  | .ok text =>
    match LockMetadata.ofText text with
    | .ok d => .contention d.command d.pid d.startedAt lockPath
    | .error _ => .contentionUnknown lockPath

def writeMetadata (caller : Caller) (handle : Nat) (command : String) (directory : Path)
    (m : Machine) : Except LockError Unit × Machine :=
  match m.locks.handle? handle with
  | none => (.error (.writeMetadata (.host .invalidArgument)), m)
  | some h =>
    if m.files.isFile h.node then
      let metadata : LockMetadata :=
        ⟨1, caller.pid, (m.now / 1000000000).toNat, command, directory⟩
      (.ok (), { m with
        files := m.files.writeNode h.node (bytesOf metadata.text) m.now
        clock := m.clock + Machine.tick })
    else (.error (.writeMetadata (.host .invalidArgument)), m)

def takeBy (caller : Caller) (lockPath : Path) (handle deadline : Nat) :
    Nat → MachineJob LockError Unit
  | 0 => Job.check fun m => .error (contention caller lockPath m)
  | more + 1 => do
    if ← Job.update (tryLock handle) then pure ()
    else if (← Job.get Machine.clock) ≥ deadline then
      Job.check fun m => .error (contention caller lockPath m)
    else
      Job.lift (Task.sleep interval)
      takeBy caller lockPath handle deadline more

/-- From the mutex on: opens the lock file, locks it and writes the metadata. -/
def takeFile (caller : Caller) (directory : Path) (fileName command : String) (timeout : Duration)
    (ticket : Nat) : MachineJob LockError Guard := do
  let lockPath := directory.join fileName
  let handle ← Job.attempt (openFile caller lockPath)
  Job.orUndo (close handle) do
    match ← Job.get fun m => m.deadline? timeout with
    | none => throw LockError.noDeadline
    | some deadline =>
      takeBy caller lockPath handle deadline (timeout.totalNanos / interval + 2)
      Job.attempt (writeMetadata caller handle command directory)
      pure ⟨ticket, handle, lockPath⟩

def lockDirectory (caller : Caller) (directory : Path) (m : Machine) : Path :=
  (m.files.canonicalize caller.here directory).toOption.getD directory

def acquire (caller : Caller) (registry : Nat) (directory : Path) (fileName command : String)
    (timeout : Duration) : MachineJob LockError Guard := do
  let directory ← Job.get (lockDirectory caller directory)
  let ticket ← Job.update (enqueue registry directory)
  Job.orUndo (leave ticket) do
    Job.waitFor (fun m => m.locks.granted ticket) none
    takeFile caller directory fileName command timeout ticket

def release (g : Guard) (m : Machine) : Machine := leave g.ticket (close g.handle m)

def readMetadata (g : Guard) (m : Machine) : Except IoError LockMetadata := do
  match m.locks.handle? g.handle with
  | none => .error (.host .invalidArgument)
  | some h =>
    let text ← FileSystem.textOf (← m.files.readNode h.node)
    match LockMetadata.ofText text with
    | .ok d => .ok d
    | .error failure => .error (.described .other failure.message)

end Lock
end BuildReuse
