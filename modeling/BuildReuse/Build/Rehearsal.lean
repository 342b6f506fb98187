import BuildReuse.Build.Tool
import BuildReuse.Text.Utf8

/-! Rehearsed build tools. A rehearsed tool has one act for each call; the last
act is repeated, and a tool without acts does nothing. It remembers what it was
asked. -/

namespace BuildReuse

structure Placement where
  path : Path
  bytes : Bytes
  modified : Option Int
  mode : Option Nat
  deriving DecidableEq, Repr

structure Act where
  turns : Nat := 0
  missing : Bool := false
  placements : List Placement := []
  output : ToolOutput := ⟨none, "", ""⟩
  deriving DecidableEq, Repr

structure Rehearsal where
  acts : List Act
  requests : List ToolRequest
  deriving DecidableEq, Repr

namespace Rehearsal

def ofActs (acts : List Act) : Rehearsal := ⟨acts, []⟩

def next (r : Rehearsal) : Act := (r.acts[r.requests.length]?.or r.acts.getLast?).getD {}

def ask (r : Rehearsal) (request : ToolRequest) : Rehearsal :=
  { r with requests := r.requests ++ [request] }

end Rehearsal
end BuildReuse
