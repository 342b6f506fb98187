import BuildReuse.Config
import BuildReuse.Lock.Acquire

/-! The directory of a project: its canonical path, the files and directories
that lie directly in it, and its lock. -/

namespace BuildReuse

structure Directory where
  root : Path
  caller : Caller
  registry : Nat
  lockFileName : String
  lockTimeout : Duration
  deriving DecidableEq, Repr

namespace Directory

def openAt (caller : Caller) (registry : Nat) (config : Config) (path : Path) (fs : FileSystem) :
    Except IoError Directory := do
  let trail ← fs.find caller.here path
  if fs.isDirectory trail.node then
    .ok ⟨trail.path, caller, registry, config.lockFileName, config.lockTimeout⟩
  else .error (.described .notADirectory s!"{trail.path.text} is not a directory")

def file (d : Directory) (name : String) : Path := d.root.join name

def files (d : Directory) (fs : FileSystem) : Except IoError (List Path) :=
  (fs.regularFiles d.caller.here d.root).map fun names => names.map d.file

def filesWithExtension (d : Directory) (extension : String) (fs : FileSystem) :
    Except IoError (List Path) :=
  (d.files fs).map fun paths => paths.filter (Path.hasExtension extension)

def directoriesNamed (d : Directory) (name : String) (fs : FileSystem) :
    Except IoError (List Path) :=
  (fs.directoriesNamed d.caller.here d.root name).map fun names => names.map d.file

def acquire (d : Directory) (command : String) : MachineJob LockError Guard :=
  Lock.acquire d.caller d.registry d.root d.lockFileName command d.lockTimeout

end Directory
end BuildReuse
