import BuildReuse.Host.Run

/-! A machine that was just started: its programs, the usual directories, and an
empty directory for the work at hand. -/

namespace BuildReuse.Host

def programBytes : Bytes := [0x7f, 0x45, 0x4c, 0x46]

def install (now : Int) (fs : FileSystem) (name : String) : Except IoError FileSystem := do
  let path := programDirectory.join name
  let fs ← fs.writeFile ⟨"/"⟩ path programBytes now
  let t ← fs.find ⟨"/"⟩ path
  .ok (fs.update t.node fun node => { node with mode := 0o755 })

def bootFiles (work : Path) (now : Int) : Except IoError FileSystem := do
  let root : Path := ⟨"/"⟩
  let fs ← FileSystem.empty.makeDirectories root programDirectory now
  let fs ← (shellName :: Program.all.map Prod.fst).foldlM (install now) fs
  let fs ← fs.makeLink root ⟨"/bin"⟩ "usr/bin" now
  let fs ← fs.makeDirectory root ⟨"/dev"⟩ now
  let fs ← fs.writeFile root ⟨Shell.nullDevice⟩ [] now
  let fs ← fs.makeDirectory root ⟨"/tmp"⟩ now
  fs.makeDirectories root work now

def boot (epoch clock : Nat) (work : Path) : Machine where
  files := (bootFiles work (epoch + clock)).toOption.getD .empty
  locks := .empty
  clock := clock
  epoch := epoch
  rehearsals := []
  agenda := []

structure FileDraft where
  path : Option String
  text : String
  mode : Option Nat

def placementRecord : Json.Record FileDraft Placement where
  fields := [
    Json.field "path" Json.readText fun d v => { d with path := some v },
    Json.field "text" Json.readText fun d v => { d with text := v },
    Json.field "mode" (Json.readNat 0o10000) fun d v => { d with mode := some v }]
  draft := ⟨none, "", none⟩
  finish d := d.path.map fun path => ⟨⟨path⟩, bytesOf d.text, none, d.mode⟩

def placementsOf (text : String) : Except Json.Failure (List Placement) :=
  if Text.blank text.toList then .ok []
  else Json.readDocument (Json.readList placementRecord.read) text.toList

def populate (here : Path) (m : Machine) (placements : List Placement) : Except IoError Machine :=
  placements.foldlM (fun m p => do
    let directory : Path := ⟨Program.directoryPart p.path.text⟩
    let m ← m.withFiles fun fs now => fs.makeDirectories here directory now
    m.place here p) m

end BuildReuse.Host
