import BuildReuse.Duration.Basic
import BuildReuse.IoError
import BuildReuse.Json.Basic
import BuildReuse.Json.Record
import BuildReuse.Path

/-! What the holder of a lock writes into the lock file, and why a lock may not
be had. -/

namespace BuildReuse

structure LockMetadata where
  version : Nat
  pid : Nat
  startedAt : Nat
  command : String
  directory : Path
  deriving DecidableEq, Repr

namespace LockMetadata

def toJson (m : LockMetadata) : Json :=
  .object [
    ("version", .number m.version),
    ("pid", .number m.pid),
    ("started_at_unix", .number m.startedAt),
    ("command", .text m.command),
    ("directory", .text m.directory.text)]

def text (m : LockMetadata) : String := m.toJson.render .lines

structure Draft where
  version : Option Nat
  pid : Option Nat
  startedAt : Option Nat
  command : Option String
  directory : Option String

def record : Json.Record Draft LockMetadata where
  fields := [
    Json.field "version" (Json.readNat 0x100000000) fun d v => { d with version := some v },
    Json.field "pid" (Json.readNat 0x100000000) fun d v => { d with pid := some v },
    Json.field "started_at_unix" (Json.readNat 0x10000000000000000) fun d v => { d with startedAt := some v },
    Json.field "command" Json.readText fun d v => { d with command := some v },
    Json.field "directory" Json.readText fun d v => { d with directory := some v }]
  draft := ⟨none, none, none, none, none⟩
  finish d := do
    some ⟨← d.version, ← d.pid, ← d.startedAt, ← d.command, ⟨← d.directory⟩⟩

def ofText (text : String) : Except Json.Failure LockMetadata :=
  Json.readDocument record.read text.toList

end LockMetadata

inductive LockError where
  | contention (command : String) (pid startedAt : Nat) (lockPath : Path)
  | contentionUnknown (lockPath : Path)
  | openFile (source : IoError)
  | writeMetadata (source : IoError)
  | noDeadline
  deriving DecidableEq, Repr

def LockError.advice (lockPath : Path) : String :=
  "If you're sure no kiln process is running, remove the lock file:\n  " ++ lockPath.text

def LockError.message : LockError → String
  | contention command pid startedAt lockPath =>
    s!"Directory is locked by another process: {command} (PID {pid}, started Unix timestamp {startedAt})\n"
      ++ advice lockPath
  | contentionUnknown lockPath =>
    "Directory is locked (could not read lock metadata)\n" ++ advice lockPath
  | openFile source => s!"Failed to open lock file: {source.message}"
  | writeMetadata source => s!"Failed to write lock metadata: {source.message}"
  | noDeadline => noDeadlineText

end BuildReuse
