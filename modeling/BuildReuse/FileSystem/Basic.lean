import BuildReuse.Path
import BuildReuse.IoError
import BuildReuse.Text.Utf8

/-! A file system: numbered nodes, of which number 0 is the root directory.
Directories name nodes; a node outlives its name, so that an open file can be
read and locked after it was removed. -/

namespace BuildReuse

inductive Content where
  | file (bytes : Bytes)
  | directory (entries : List (String × Nat))
  | link (target : String)
  | pipe
  deriving DecidableEq, Repr

structure Node where
  content : Content
  mode : Nat
  modified : Int
  deriving DecidableEq, Repr

structure FileSystem where
  nodes : Array Node
  deriving DecidableEq, Repr

abbrev Trail := List (String × Nat)

namespace Trail

def node : Trail → Nat
  | [] => 0
  | (_, n) :: _ => n

def path (t : Trail) : Path := .ofNames (t.reverse.map Prod.fst)

end Trail

namespace FileSystem

def empty : FileSystem := ⟨#[⟨.directory [], 0o755, 0⟩]⟩

def content? (fs : FileSystem) (n : Nat) : Option Content := fs.nodes[n]?.map Node.content

def isFile (fs : FileSystem) (n : Nat) : Bool :=
  match fs.content? n with
  | some (.file _) => true
  | _ => false

def isDirectory (fs : FileSystem) (n : Nat) : Bool :=
  match fs.content? n with
  | some (.directory _) => true
  | _ => false

def entries (fs : FileSystem) (n : Nat) : List (String × Nat) :=
  match fs.content? n with
  | some (.directory es) => es
  | _ => []

def update (fs : FileSystem) (n : Nat) (f : Node → Node) : FileSystem :=
  ⟨fs.nodes.modify n f⟩

def add (fs : FileSystem) (node : Node) : FileSystem := ⟨fs.nodes.push node⟩

def enter (fs : FileSystem) (directory : Nat) (name : String) (n : Nat) : FileSystem :=
  fs.update directory fun d =>
    { d with content := match d.content with
      | .directory es => .directory (es.filter (fun e => e.1 != name) ++ [(name, n)])
      | other => other }

def leave (fs : FileSystem) (directory : Nat) (name : String) : FileSystem :=
  fs.update directory fun d =>
    { d with content := match d.content with
      | .directory es => .directory (es.filter (fun e => e.1 != name))
      | other => other }

def create (fs : FileSystem) (directory : Nat) (name : String) (node : Node) : FileSystem :=
  (fs.add node).enter directory name fs.nodes.size

end FileSystem
end BuildReuse
