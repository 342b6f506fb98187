import BuildReuse.FileSystem.Basic

/-! Resolution of paths. A path is walked piece by piece; a link puts the pieces
of its target in front of those still to come, at most forty times. -/

namespace BuildReuse.FileSystem

def linkLimit : Nat := 40
def nameLimit : Nat := 255
def pathLimit : Nat := 4096

inductive Spot where
  | present (trail : Trail)
  | absent (directory : Trail) (name : String)
  deriving DecidableEq, Repr

def stepsOf (p : Path) : List String := if p.endsInSlash then p.pieces ++ ["."] else p.pieces

/-- Walks as long as no link has to be followed, and leaves links to `onLink`,
which is given the directory of the link, its target and the steps behind it.
A link that ends the path is kept if `keepLink`. -/
def walkVia (fs : FileSystem) (keepLink : Bool)
    (onLink : Trail → String → List String → Except HostFault Spot) :
    Trail → List String → Except HostFault Spot
  | trail, [] => .ok (.present trail)
  | trail, step :: rest =>
    match fs.content? trail.node with
    | some (.directory es) =>
      if step = "." then walkVia fs keepLink onLink trail rest
      else if step = ".." then walkVia fs keepLink onLink trail.tail rest
      else if step.utf8ByteSize > nameLimit then .error .nameTooLong
      else match es.lookup step with
        | none => if rest.isEmpty then .ok (.absent trail step) else .error .noEntry
        | some n =>
          match fs.content? n with
          | some (.link target) =>
            if keepLink && rest.isEmpty then .ok (.present ((step, n) :: trail))
            else onLink trail target rest
          | _ => walkVia fs keepLink onLink ((step, n) :: trail) rest
    | _ => .error .notDirectory

def walk (fs : FileSystem) (keepLink : Bool) : Nat → Trail → List String → Except HostFault Spot
  | 0 => walkVia fs keepLink fun _ _ _ => .error .linkLoop
  | links + 1 => walkVia fs keepLink fun trail target rest =>
      walk fs keepLink links (if (Path.mk target).isAbsolute then [] else trail)
        (stepsOf ⟨target⟩ ++ rest)

def locate (fs : FileSystem) (here : Path) (keepLink : Bool) (path : Path) : Except IoError Spot :=
  if path.text.toList.contains '\x00' then .error .nulInName
  else if path.text.isEmpty then .error (.host .noEntry)
  else if path.text.utf8ByteSize ≥ pathLimit then .error (.host .nameTooLong)
  else (fs.walk keepLink linkLimit [] (stepsOf (here.join path.text))).mapError .host

def find (fs : FileSystem) (here path : Path) : Except IoError Trail := do
  match ← fs.locate here false path with
  | .present trail => .ok trail
  | .absent .. => .error (.host .noEntry)

def findKeepingLink (fs : FileSystem) (here path : Path) : Except IoError Trail := do
  match ← fs.locate here true path with
  | .present trail => .ok trail
  | .absent .. => .error (.host .noEntry)

def canonicalize (fs : FileSystem) (here path : Path) : Except IoError Path :=
  (fs.find here path).map Trail.path

def present (fs : FileSystem) (here path : Path) : Bool := (fs.find here path).isOk

end BuildReuse.FileSystem
