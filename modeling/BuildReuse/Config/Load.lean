import BuildReuse.Config
import BuildReuse.FileSystem.Files

/-! Loading the configuration: the document, if one is named, and the variables
of the environment on top of it. -/

namespace BuildReuse.Config

def Error.message : Error → String
  | read path source => s!"failed to read config {path.text}: {source.message}"
  | parse path failure => s!"failed to parse config {path.text}: {failure.message}"
  | invalidVariable name message => s!"invalid value for {name}: {message}"

def ofFile (fs : FileSystem) (here path : Path) : Except Error Config :=
  match fs.readText here path with
  | .error e => .error (.read path e)
  | .ok text => (ofText text).mapError (.parse path)

def load (fs : FileSystem) (here : Path) (path : Option Path) (overrides : Overrides) :
    Except Error Config := do
  let config ← match path with
    | some path => ofFile fs here path
    | none => .ok default
  config.override overrides

end BuildReuse.Config
