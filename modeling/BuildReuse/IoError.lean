/-! Failures of the host: those it numbers, those that are a bare kind, and
those with a text of their own. Decisions look only at the kind, messages only
at the text. -/

namespace BuildReuse

inductive IoKind where
  | notFound | permissionDenied | alreadyExists | notADirectory | isADirectory
  | directoryNotEmpty | invalidInput | invalidData | invalidFilename
  | filesystemLoop | wouldBlock | resourceBusy | timedOut | interrupted
  | unexpectedEof | unsupported | writeZero | brokenPipe | outOfMemory
  | storageFull | readOnlyFilesystem | executableFileBusy | uncategorized | other
  deriving DecidableEq, Repr

inductive HostFault where
  | noEntry | noDevice | badExecutable | accessDenied | busy | exists
  | notDirectory | isDirectory | invalidArgument | nameTooLong | notEmpty | linkLoop
  deriving DecidableEq, Repr

namespace HostFault

def number : HostFault → Nat
  | noEntry => 2
  | noDevice => 6
  | badExecutable => 8
  | accessDenied => 13
  | busy => 16
  | «exists» => 17
  | notDirectory => 20
  | isDirectory => 21
  | invalidArgument => 22
  | nameTooLong => 36
  | notEmpty => 39
  | linkLoop => 40

def text : HostFault → String
  | noEntry => "No such file or directory"
  | noDevice => "No such device or address"
  | badExecutable => "Exec format error"
  | accessDenied => "Permission denied"
  | busy => "Device or resource busy"
  | «exists» => "File exists"
  | notDirectory => "Not a directory"
  | isDirectory => "Is a directory"
  | invalidArgument => "Invalid argument"
  | nameTooLong => "File name too long"
  | notEmpty => "Directory not empty"
  | linkLoop => "Too many levels of symbolic links"

def kind : HostFault → IoKind
  | noEntry => .notFound
  | noDevice => .uncategorized
  | badExecutable => .uncategorized
  | accessDenied => .permissionDenied
  | busy => .resourceBusy
  | «exists» => .alreadyExists
  | notDirectory => .notADirectory
  | isDirectory => .isADirectory
  | invalidArgument => .invalidInput
  | nameTooLong => .invalidFilename
  | notEmpty => .directoryNotEmpty
  | linkLoop => .filesystemLoop

end HostFault

def IoKind.text : IoKind → String
  | notFound => "entity not found"
  | permissionDenied => "permission denied"
  | alreadyExists => "entity already exists"
  | notADirectory => "not a directory"
  | isADirectory => "is a directory"
  | directoryNotEmpty => "directory not empty"
  | invalidInput => "invalid input parameter"
  | invalidData => "invalid data"
  | invalidFilename => "invalid filename"
  | filesystemLoop => "filesystem loop or indirection limit (e.g. symlink loop)"
  | wouldBlock => "operation would block"
  | resourceBusy => "resource busy"
  | timedOut => "timed out"
  | interrupted => "operation interrupted"
  | unexpectedEof => "unexpected end of file"
  | unsupported => "unsupported"
  | writeZero => "write zero"
  | brokenPipe => "broken pipe"
  | outOfMemory => "out of memory"
  | storageFull => "no storage space"
  | readOnlyFilesystem => "read-only filesystem or storage medium"
  | executableFileBusy => "executable file busy"
  | uncategorized => "uncategorized error"
  | other => "other error"

inductive IoError where
  | host (fault : HostFault)
  | bare (kind : IoKind)
  | described (kind : IoKind) (text : String)
  deriving DecidableEq, Repr

namespace IoError

def kind : IoError → IoKind
  | host fault => fault.kind
  | bare kind => kind
  | described kind _ => kind

def message : IoError → String
  | host fault => s!"{fault.text} (os error {fault.number})"
  | bare kind => kind.text
  | described _ text => text

def notText : IoError := .described .invalidData "stream did not contain valid UTF-8"

def nulInName : IoError := .described .invalidInput "file name contained an unexpected NUL byte"

def transient (e : IoError) : Bool := e.kind != .notFound

end IoError
end BuildReuse
