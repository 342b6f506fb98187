import BuildReuse.Json.Basic
import BuildReuse.Path

/-! The code model. A solution is a snapshot of projects; a workspace holds the
current one and takes a changed snapshot only if it was made from the current
version. Versions start at zero and rise by one with each change that is taken. They
are natural numbers here; the last number of 64 bits is out of reach. -/

namespace BuildReuse

structure Document where
  name : String
  path : Path
  deriving DecidableEq, Repr

def Document.ofPath (p : Path) : Document := ⟨p.fileName?.getD p.text, p⟩

structure Reference where
  path : Path
  deriving DecidableEq, Repr

structure Project where
  id : Nat
  name : String
  file : Path
  documents : List Document
  references : List Reference
  deriving DecidableEq, Repr

structure Solution where
  version : Nat
  projects : List Project
  deriving DecidableEq, Repr

inductive WorkspaceError where
  | unknownProject (id : Nat)
  | staleSolution (base current : Nat)
  | readOnly
  deriving DecidableEq, Repr

def projectMark (id : Nat) : String := s!"#{id}"

def WorkspaceError.message : WorkspaceError → String
  | unknownProject id => s!"project {projectMark id} is not part of the solution"
  | staleSolution base current =>
    s!"solution is based on version {base} but the workspace is at version {current}"
  | readOnly => "workspace is read-only"

def Document.same (d e : Document) : Bool := d.name == e.name && d.path.same e.path

def Project.same (p q : Project) : Bool :=
  p.id == q.id && p.name == q.name && p.file.same q.file &&
  p.documents.length == q.documents.length &&
  (p.documents.zip q.documents).all (fun (d, e) => d.same e) &&
  p.references.length == q.references.length &&
  (p.references.zip q.references).all fun (r, s) => r.path.same s.path

namespace Solution

def ofProjects (projects : List Project) : Solution := ⟨0, projects⟩

def project? (s : Solution) (id : Nat) : Option Project := s.projects.find? fun p => p.id == id

def projectByFile? (s : Solution) (file : Path) : Option Project :=
  s.projects.find? fun p => p.file.same file

def same (s t : Solution) : Bool :=
  s.version == t.version && s.projects.length == t.projects.length &&
  (s.projects.zip t.projects).all fun (p, q) => p.same q

def setReferences (id : Nat) (references : List Reference) : List Project → List Project
  | [] => []
  | p :: rest =>
    if p.id = id then { p with references := references } :: rest
    else p :: setReferences id references rest

def withReferences (s : Solution) (id : Nat) (references : List Reference) :
    Except WorkspaceError Solution :=
  match s.project? id with
  | none => .error (.unknownProject id)
  | some _ => .ok { s with projects := setReferences id references s.projects }

end Solution

structure Workspace where
  current : Solution
  readOnly : Bool
  deriving DecidableEq, Repr

namespace Workspace

def ofSolution (s : Solution) : Workspace := ⟨s, false⟩
def frozen (s : Solution) : Workspace := ⟨s, true⟩

/-- Makes `s` current under the next version, unless the workspace is read-only or
has moved on since `s` was taken. -/
def commit (w : Workspace) (s : Solution) : Except WorkspaceError Workspace :=
  if w.readOnly then .error .readOnly
  else if s.version ≠ w.current.version then .error (.staleSolution s.version w.current.version)
  else .ok { w with current := { s with version := w.current.version + 1 } }

end Workspace

def Document.toJson (d : Document) : Json := .object [("name", .text d.name), ("path", .text d.path.text)]

def Reference.toJson (r : Reference) : Json := .object [("path", .text r.path.text)]

def Project.toJson (p : Project) : Json :=
  .object [
    ("id", .number p.id),
    ("name", .text p.name),
    ("project_file_path", .text p.file.text),
    ("documents", .list (p.documents.map Document.toJson)),
    ("metadata_references", .list (p.references.map Reference.toJson))]

def Solution.toJson (s : Solution) : Json :=
  .object [("version", .number s.version), ("projects", .list (s.projects.map Project.toJson))]

end BuildReuse
