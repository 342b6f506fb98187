import BuildReuse.Directory
import BuildReuse.Text.Quoted

/-! The one project that a pipeline builds, and how it is found in its
directory. -/

namespace BuildReuse

structure Target where
  directory : Directory
  projectFile : Path
  name : String
  sentinel : Path
  deriving DecidableEq, Repr

inductive ProjectError where
  | noProjectFile (root : Path) (extension : String)
  | ambiguousProjectFile (root : Path) (extension : String) (candidates : List Path)
  | readDirectory (root : Path) (source : IoError)
  deriving DecidableEq, Repr

def ProjectError.message : ProjectError → String
  | noProjectFile root extension => s!"no .{extension} project file found in {root.text}"
  | ambiguousProjectFile root extension candidates =>
    s!"multiple .{extension} project files found in {root.text}: "
      ++ Text.quoteList (candidates.map Path.text)
  | readDirectory root source => s!"failed to read project directory {root.text}: {source.message}"

namespace Target

def singleProjectFile (d : Directory) (extension : String) (fs : FileSystem) :
    Except ProjectError Path :=
  match d.filesWithExtension extension fs with
  | .error e => .error (.readDirectory d.root e)
  | .ok [] => .error (.noProjectFile d.root extension)
  | .ok [file] => .ok file
  | .ok files => .error (.ambiguousProjectFile d.root extension files)

def givenName? (name : Option String) : Option String :=
  (name.map fun n => String.ofList (Text.trim n.toList)).filter fun n => !n.isEmpty

/-- The project file: the one named, whether it is there or not, or else the only
one in the directory. -/
def projectFileIn (d : Directory) (name : Option String) (config : Config) (fs : FileSystem) :
    Except ProjectError Path :=
  match givenName? name with
  | some name => .ok (d.file name)
  | none => singleProjectFile d config.projectExtension fs

def find (d : Directory) (name : Option String) (config : Config) (fs : FileSystem) :
    Except ProjectError Target := do
  let projectFile ← projectFileIn d name config fs
  let title := (projectFile.fileName?.or d.root.fileName?).getD ""
  .ok ⟨d, projectFile, title, d.file config.sentinelFileName⟩

def root (t : Target) : Path := t.directory.root

def here (t : Target) : Path := t.directory.caller.here

def lastBuildError (t : Target) (fs : FileSystem) : Option String :=
  (fs.readText t.here t.sentinel).toOption

end Target
end BuildReuse
