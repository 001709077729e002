import RunOnce.Flag
import RunOnce.Text.Quoted

/-!
# Causes of failure

**Refused accesses** (`AccessError`) are reported to the caller: the initializer of a global
depends on itself, or the global is bound to another context.

**Region failures** (`RegionError`) arise while a shared region is set up. Those that come from
the operating system carry its cause (`OsError`).

**Violations** (`Violation`) are states from which the program cannot go on; it writes one line
and aborts.
-/

namespace RunOnce

open Text

/-- Why an access to a lazily initialized global is refused. -/
inductive AccessError
  | reentrant (id : FlagId)
  | foreignContext (id : FlagId)
deriving DecidableEq, Repr

namespace AccessError

/-- The wording of a refused access. -/
def message : AccessError → String
  | .reentrant id =>
    "recursive initialization of lazy global " ++ id.label ++ ": its initializer depends on itself"
  | .foreignContext id =>
    "lazy global " ++ id.label
      ++ " is bound to another once-context and cannot be initialized through this one"

/-- The name of the kind of refusal. -/
def kind : AccessError → String
  | .reentrant _ => "Reentrant"
  | .foreignContext _ => "ForeignContext"

/-- The refusal for inspection. -/
def shape : AccessError → Shape
  | e@(.reentrant id) => .tuple e.kind [id.shape]
  | e@(.foreignContext id) => .tuple e.kind [id.shape]

end AccessError

/-- Causes that the operating system gives, and those of its callers. -/
inductive OsError
  | fileExists
  | invalidArgument
  | symbolicLink
  | outOfMemory
  | nameTooLong
  | isDirectory
  | interiorNul
  | other (text : String)
deriving DecidableEq, Repr

namespace OsError

/-- The wording of a cause. -/
def message : OsError → String
  | .fileExists => "File exists (os error 17)"
  | .invalidArgument => "Invalid argument (os error 22)"
  | .symbolicLink => "Too many levels of symbolic links (os error 40)"
  | .outOfMemory => "Cannot allocate memory (os error 12)"
  | .nameTooLong => "File name too long (os error 36)"
  | .isDirectory => "Is a directory (os error 21)"
  | .interiorNul => "file name contained an unexpected NUL byte"
  | .other text => text

/-- A numbered cause for inspection. -/
def numbered (code kind text : String) : Shape :=
  .labelled "Os" [("code", .word code), ("kind", .word kind), ("message", .word (quote text))]

/-- The cause for inspection. -/
def shape : OsError → Shape
  | .fileExists => numbered "17" "AlreadyExists" "File exists"
  | .invalidArgument => numbered "22" "InvalidInput" "Invalid argument"
  | .symbolicLink => numbered "40" "FilesystemLoop" "Too many levels of symbolic links"
  | .outOfMemory => numbered "12" "OutOfMemory" "Cannot allocate memory"
  | .nameTooLong => numbered "36" "InvalidFilename" "File name too long"
  | .isDirectory => numbered "21" "IsADirectory" "Is a directory"
  | e@.interiorNul =>
    .labelled "Error" [("kind", .word "InvalidInput"), ("message", .word (quote e.message))]
  | .other text =>
    .labelled "Custom" [("kind", .word "Other"), ("error", .word (quote text))]

end OsError

/-- Why a shared region could not be set up. -/
inductive RegionError
  | invalidName (text : String)
  | createFailed (cause : OsError)
  | openFailed (cause : OsError)
  | mapFailed (cause : OsError)
  | lockFailed (cause : OsError)
  | tooSmall (size required : Nat)
  | unsupported
deriving DecidableEq, Repr

namespace RegionError

/-- What the operating system gave as the cause, if it did. -/
def cause? : RegionError → Option OsError
  | .createFailed e | .openFailed e | .mapFailed e | .lockFailed e => some e
  | .invalidName _ | .tooSmall _ _ | .unsupported => none

/-- The wording of a region failure. -/
def message : RegionError → String
  | .invalidName text => "Invalid region name: " ++ text
  | .createFailed e => "Shared region creation failed: " ++ e.message
  | .openFailed e => "Shared region open failed: " ++ e.message
  | .mapFailed e => "Memory mapping failed: " ++ e.message
  | .lockFailed e => "Shared region lock failed: " ++ e.message
  | .tooSmall size required =>
    "Region too small: " ++ toString size ++ " bytes, need at least " ++ toString required
  | .unsupported => "Shared memory is not supported on this platform"

/-- The name of the kind of failure. -/
def kind : RegionError → String
  | .invalidName _ => "InvalidName"
  | .createFailed _ => "Create"
  | .openFailed _ => "Open"
  | .mapFailed _ => "Mmap"
  | .lockFailed _ => "Lock"
  | .tooSmall _ _ => "TooSmall"
  | .unsupported => "Unsupported"

/-- The failure with the text about a name changed. -/
def mapName (f : String → String) : RegionError → RegionError
  | .invalidName text => .invalidName (f text)
  | e => e

/-- The failure for inspection. -/
def shape : RegionError → Shape
  | e@(.invalidName text) => .tuple e.kind [.word (quote text)]
  | e@(.createFailed c) => .tuple e.kind [c.shape]
  | e@(.openFailed c) => .tuple e.kind [c.shape]
  | e@(.mapFailed c) => .tuple e.kind [c.shape]
  | e@(.lockFailed c) => .tuple e.kind [c.shape]
  | e@(.tooSmall size required) =>
    .labelled e.kind
      [("size", .word (toString size)), ("required", .word (toString required))]
  | .unsupported => .word "Unsupported"

end RegionError

/-- A state from which the program cannot go on. -/
inductive Violation
  | missingOperation
  | slotEnded (id : FlagId) (state : UInt32)
  | outsideTable (id : FlagId) (slots : UInt32)
  | unsetFlag (id : FlagId)
deriving DecidableEq, Repr

namespace Violation

/-- The wording of a violation. -/
def reason : Violation → String
  | .missingOperation => "in-flight operation missing from registry"
  | .slotEnded id state =>
    "shared slot " ++ id.label ++ " ended in state " ++ toString state.toNat
  | .outsideTable id slots =>
    "flag " ++ id.label ++ " outside shared slot table of " ++ toString slots.toNat ++ " slots"
  | .unsetFlag id => "flag " ++ id.label ++ " still unset after initialization"

/-- The line written before the program aborts. -/
def farewell : String := "FATAL: lazy global initialization did not complete; aborting"

end Violation

end RunOnce
