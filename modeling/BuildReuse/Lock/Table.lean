import BuildReuse.Path

/-! Who holds and who waits for what. Inside a program, a registry gives each
directory a mutex, which serves its waiters in the order of their arrival; the
first waiter of a mutex holds it. Between programs, a node of the file system is
locked by at most one open handle. -/

namespace BuildReuse

structure Waiter where
  ticket : Nat
  mutex : Nat
  deriving DecidableEq, Repr

structure MutexEntry where
  registry : Nat
  directory : Path
  mutex : Nat
  deriving DecidableEq, Repr

structure Handle where
  number : Nat
  node : Nat
  deriving DecidableEq, Repr

structure LockTable where
  entries : List MutexEntry
  queue : List Waiter
  handles : List Handle
  locked : List Handle
  fresh : Nat
  deriving DecidableEq, Repr

namespace LockTable

def empty : LockTable := ⟨[], [], [], [], 0⟩

def inUse (t : LockTable) (mutex : Nat) : Bool := t.queue.any fun w => w.mutex == mutex

/-- The mutex of a directory. The registry forgets the directories that nobody
uses, other than this one. -/
def mutexFor (t : LockTable) (registry : Nat) (directory : Path) : Nat × LockTable :=
  let kept := t.entries.filter fun e =>
    e.registry != registry || e.directory.same directory || t.inUse e.mutex
  match kept.find? fun e => e.registry == registry && e.directory.same directory with
  | some e => (e.mutex, { t with entries := kept })
  | none =>
    (t.fresh, { t with entries := kept ++ [⟨registry, directory, t.fresh⟩], fresh := t.fresh + 1 })

def enqueue (t : LockTable) (registry : Nat) (directory : Path) : Nat × LockTable :=
  let (mutex, t) := t.mutexFor registry directory
  (t.fresh, { t with queue := t.queue ++ [⟨t.fresh, mutex⟩], fresh := t.fresh + 1 })

def waiter? (t : LockTable) (ticket : Nat) : Option Waiter :=
  t.queue.find? fun w => w.ticket == ticket

def holder? (t : LockTable) (mutex : Nat) : Option Waiter :=
  t.queue.find? fun w => w.mutex == mutex

def granted (t : LockTable) (ticket : Nat) : Bool :=
  match t.waiter? ticket with
  | some w => t.holder? w.mutex == some w
  | none => false

def leave (t : LockTable) (ticket : Nat) : LockTable :=
  { t with queue := t.queue.filter fun w => w.ticket != ticket }

def openNode (t : LockTable) (node : Nat) : Nat × LockTable :=
  (t.fresh, { t with handles := t.handles ++ [⟨t.fresh, node⟩], fresh := t.fresh + 1 })

def handle? (t : LockTable) (number : Nat) : Option Handle :=
  t.handles.find? fun h => h.number == number

def tryLock (t : LockTable) (number : Nat) : Bool × LockTable :=
  match t.handle? number with
  | none => (false, t)
  | some h =>
    match t.locked.find? fun l => l.node == h.node with
    | some l => (l.number == number, t)
    | none => (true, { t with locked := t.locked ++ [h] })

def close (t : LockTable) (number : Nat) : LockTable :=
  { t with
    handles := t.handles.filter fun h => h.number != number
    locked := t.locked.filter fun h => h.number != number }

end LockTable
end BuildReuse
