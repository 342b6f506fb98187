import BuildReuse.Path

/-! A bounded registry of things that belong to a directory, the one used last at
the end. A new entry beyond the capacity drives out the one used longest ago. -/

namespace BuildReuse

structure Registry (α : Type) where
  capacity : Nat
  entries : List (Path × α)
  deriving Repr

namespace Registry

variable {α : Type}

def ofCapacity (capacity : Nat) : Registry α := ⟨max capacity 1, []⟩

def find? (r : Registry α) (key : Path) : Option (Path × α) :=
  r.entries.find? fun e => e.1.same key

def without (r : Registry α) (key : Path) : List (Path × α) :=
  r.entries.filter fun e => !e.1.same key

def lookup (r : Registry α) (key : Path) : Option α × Registry α :=
  match r.find? key with
  | some e => (some e.2, { r with entries := r.without key ++ [e] })
  | none => (none, r)

/-- Puts a thing under a key, unless one is there already: then that one is kept
and given back. -/
def insert (r : Registry α) (key : Path) (a : α) : α × Registry α :=
  match r.lookup key with
  | (some held, r) => (held, r)
  | (none, r) =>
    let entries := r.entries ++ [(key, a)]
    (a, { r with entries := entries.drop (entries.length - r.capacity) })

def invalidate (r : Registry α) (key : Path) : Bool × Registry α :=
  ((r.find? key).isSome, { r with entries := r.without key })

def describe (r : Registry α) : String :=
  "PackageRegistry \x7b capacity: " ++ toString r.capacity ++ ", len: "
    ++ toString r.entries.length ++ " \x7d"

end Registry
end BuildReuse
