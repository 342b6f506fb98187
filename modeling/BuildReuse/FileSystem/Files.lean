import BuildReuse.FileSystem.Resolve

/-! Reading and changing files, directories and links by path. A failed
operation changes nothing. -/

namespace BuildReuse.FileSystem

def readNode (fs : FileSystem) (n : Nat) : Except IoError Bytes :=
  match fs.content? n with
  | some (.file bytes) => .ok bytes
  | some (.directory _) => .error (.host .isDirectory)
  | some .pipe => .ok []
  | _ => .error (.host .noEntry)

def readBytes (fs : FileSystem) (here path : Path) : Except IoError Bytes := do
  fs.readNode (← fs.find here path).node

def textOf (bytes : Bytes) : Except IoError String :=
  match Utf8.decode? bytes with
  | some cs => .ok (String.ofList cs)
  | none => .error .notText

def readText (fs : FileSystem) (here path : Path) : Except IoError String := do
  textOf (← fs.readBytes here path)

def writeNode (fs : FileSystem) (n : Nat) (bytes : Bytes) (now : Int) : FileSystem :=
  fs.update n fun node => match node.content with
    | .file _ => { node with content := .file bytes, modified := now }
    | _ => node

/-- The node of the file at `path`, which is made empty if nothing is there. A
directory cannot be opened this way, and a final slash asks for one. -/
def openFile (fs : FileSystem) (here path : Path) (now : Int) : Except IoError (FileSystem × Nat) := do
  if path.endsInSlash then
    let _ ← fs.locate here true path.withoutFinalSlash
    .error (.host .isDirectory)
  else match ← fs.locate here false path with
    | .present trail =>
      if fs.isDirectory trail.node then .error (.host .isDirectory) else .ok (fs, trail.node)
    | .absent directory name =>
      .ok (fs.create directory.node name ⟨.file [], 0o644, now⟩, fs.nodes.size)

def writeFile (fs : FileSystem) (here path : Path) (bytes : Bytes) (now : Int) :
    Except IoError FileSystem := do
  let (fs, n) ← fs.openFile here path now
  .ok (fs.writeNode n bytes now)

def removeFile (fs : FileSystem) (here path : Path) : Except IoError FileSystem := do
  if path.pieces.isEmpty && !path.text.isEmpty then .error (.host .isDirectory)
  else match ← fs.locate here true path.withoutFinalSlash with
    | .absent .. => .error (.host .noEntry)
    | .present [] => .error (.host .isDirectory)
    | .present ((name, n) :: directory) =>
      if fs.isDirectory n then .error (.host .isDirectory)
      else if path.endsInSlash then .error (.host .notDirectory)
      else .ok (fs.leave (Trail.node directory) name)

def removeTree (fs : FileSystem) (here path : Path) : Except IoError FileSystem := do
  match ← fs.findKeepingLink here path with
  | [] => .error (.host .busy)
  | (name, n) :: directory =>
    match fs.content? n with
    | some (.directory _) | some (.link _) => .ok (fs.leave (Trail.node directory) name)
    | _ => .error (.host .notDirectory)

def createAt (fs : FileSystem) (here path : Path) (node : Node) : Except IoError FileSystem := do
  match ← fs.locate here true path.withoutFinalSlash with
  | .present _ => .error (.host .exists)
  | .absent directory name => .ok (fs.create directory.node name node)

def makeDirectory (fs : FileSystem) (here path : Path) (now : Int) : Except IoError FileSystem :=
  fs.createAt here path ⟨.directory [], 0o755, now⟩

def makeDirectoriesAbove (fs : FileSystem) (here : Path) (absolute : Bool) (now : Int) :
    List String → Except IoError FileSystem
  | [] => .ok fs
  | piece :: above =>
    let text := "/".intercalate (piece :: above).reverse
    let path : Path := ⟨if absolute then "/" ++ text else text⟩
    match fs.makeDirectory here path now with
    | .ok fs => .ok fs
    | .error e =>
      if e.kind == .notFound then do
        (← makeDirectoriesAbove fs here absolute now above).makeDirectory here path now
      else if (fs.find here path).toOption.any fun t => fs.isDirectory t.node then .ok fs
      else .error e

def makeDirectories (fs : FileSystem) (here path : Path) (now : Int) : Except IoError FileSystem :=
  fs.makeDirectoriesAbove here path.isAbsolute now path.pieces.reverse

def makeLink (fs : FileSystem) (here path : Path) (target : String) (now : Int) :
    Except IoError FileSystem :=
  if target.isEmpty then .error (.host .noEntry)
  else fs.createAt here path ⟨.link target, 0o777, now⟩

def makePipe (fs : FileSystem) (here path : Path) (now : Int) : Except IoError FileSystem :=
  fs.createAt here path ⟨.pipe, 0o644, now⟩

def insertName (name : String) : List String → List String
  | [] => [name]
  | other :: rest => if name ≤ other then name :: other :: rest else other :: insertName name rest

def sortNames (names : List String) : List String := names.foldr insertName []

def regularFiles (fs : FileSystem) (here path : Path) : Except IoError (List String) := do
  let directory ← fs.find here path
  if fs.isDirectory directory.node then
    let files := (fs.entries directory.node).filter fun e => fs.isFile e.2
    .ok (sortNames (files.map Prod.fst))
  else .error (.host .notDirectory)

def directoriesNamed (fs : FileSystem) (here path : Path) (name : String) :
    Except IoError (List String) := do
  let directory ← fs.find here path
  if fs.isDirectory directory.node then
    let found := (fs.entries directory.node).filter fun e => fs.isDirectory e.2 && e.1 == name
    .ok (found.map Prod.fst)
  else .error (.host .notDirectory)

def below (fs : FileSystem) : Nat → String → Nat → List String
  | 0, _, _ => []
  | depth + 1, above, directory =>
    (fs.entries directory).flatMap fun (name, n) =>
      match fs.content? n with
      | some (.directory _) => (above ++ name ++ "/") :: below fs depth (above ++ name ++ "/") n
      | some (.link _) => [above ++ name ++ "@"]
      | _ => [above ++ name]

def listing (fs : FileSystem) (here path : Path) : List String :=
  match fs.find here path with
  | .error _ => []
  | .ok t => sortNames (fs.below fs.nodes.size "" t.node)

end BuildReuse.FileSystem
