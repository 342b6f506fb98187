import BuildReuse.Package
import BuildReuse.Registry
import BuildReuse.Turns

/-! A session: a machine with the packages that were opened on it, how far their
stages have come, and the registries that keep packages from one request to the
next. Packages and registries go by number. -/

namespace BuildReuse

structure OpenPackage where
  package : Package
  forest : Package.Forest

structure Session where
  machine : Machine
  packages : Array OpenPackage
  registries : Array (Registry Nat)

instance : Timed Session where
  clock s := Timed.clock s.machine
  deadline? s := Timed.deadline? s.machine
  next? s := Timed.next? s.machine
  advance time s := { s with machine := Timed.advance time s.machine }

structure Request where
  package : Nat
  waiter : Stage.Waiter
  deriving DecidableEq, Repr

namespace Request

def of (package stage : Nat) : Request := ⟨package, ⟨stage, none⟩⟩

def poll (r : Request) (s : Session) :
    (Stage.Outcome StageValue PackageError ⊕ Request) × Session :=
  match s.packages[r.package]? with
  | none => (.inr r, s)
  | some p =>
    match p.forest.poll p.package.specs r.waiter s.machine with
    | (slot, machine, forest) =>
      (match slot with
        | .inl outcome => .inl outcome
        | .inr waiter => .inr { r with waiter := waiter },
      { s with
        machine := machine
        packages := s.packages.modify r.package fun p => { p with forest := forest } })

def turns : Turns Session Request (Stage.Outcome StageValue PackageError) where
  poll := poll
  movable s r := (s.packages[r.package]?).any fun p =>
    p.forest.movable p.package.specs s.machine r.waiter
  alarm? s r := (s.packages[r.package]?).bind fun p => p.forest.alarm? p.package.specs r.waiter

end Request

namespace Session

def perform {α : Type} (limit : Option Nat) (t : Task Machine α) (s : Session) :
    Option α × Session :=
  let (a, machine) := t.drive limit s.machine
  (a, { s with machine := machine })

def serve (limit : Option Nat) (requests : List Request) (s : Session) :
    List (Option (Stage.Outcome StageValue PackageError)) × Session :=
  let (slots, s) := Request.turns.drive limit Turns.manyRounds (requests.map .inr) s
  (slots.map fun | .inl outcome => some outcome | .inr _ => none, s)

def add (p : Package) (s : Session) : Nat × Session :=
  (s.packages.size, { s with packages := s.packages.push ⟨p, p.fresh⟩ })

def root? (package : Nat) (s : Session) : Option Path :=
  (s.packages[package]?).map fun p => p.package.target.root

def get (here : Path) (registry : Nat) (root : Path) (s : Session) : Option Nat × Session :=
  match s.machine.files.canonicalize here root, s.registries[registry]? with
  | .ok key, some r =>
    let (found, r) := r.lookup key
    (found, { s with registries := s.registries.set! registry r })
  | _, _ => (none, s)

def keep (registry package : Nat) (s : Session) : Nat × Session :=
  match s.root? package, s.registries[registry]? with
  | some key, some r =>
    let (kept, r) := r.insert key package
    (kept, { s with registries := s.registries.set! registry r })
  | _, _ => (package, s)

def getOrInsert {ε : Type} (here : Path) (registry : Nat) (root : Path)
    (create : Session → Except ε Nat × Session) (s : Session) : Except ε Nat × Session :=
  match s.get here registry root with
  | (some package, s) => (.ok package, s)
  | (none, s) =>
    match create s with
    | (.error e, s) => (.error e, s)
    | (.ok package, s) =>
      let (kept, s) := s.keep registry package
      (.ok kept, s)

def invalidate (here : Path) (registry : Nat) (root : Path) (s : Session) : Bool × Session :=
  match s.machine.files.canonicalize here root, s.registries[registry]? with
  | .ok key, some r =>
    let (dropped, r) := r.invalidate key
    (dropped, { s with registries := s.registries.set! registry r })
  | _, _ => (false, s)

def retire (referred : List Nat) (s : Session) : Session :=
  let kept := referred ++ s.registries.toList.flatMap fun r => r.entries.map Prod.snd
  (List.range s.packages.size).foldl (fun s i =>
    match s.packages[i]? with
    | some p =>
      if kept.contains i then s
      else
        { s with
          machine := p.forest.abandon s.machine
          packages := s.packages.set! i { p with forest := p.package.fresh } }
    | none => s) s

end Session
end BuildReuse
