import RunOnce.Capabilities
import RunOnce.Failure
import RunOnce.Initiator

/-!
# Log records

**The record** (`Record`) names what happened and holds the values that the message shows. Its
`level` and its `text` are read off it, so a log is a list of facts and not of strings.
-/

namespace RunOnce

/-- How serious a record is. -/
inductive Level
  | error
  | warn
  | info
  | debug
deriving DecidableEq, Repr

/-- The name of a level in lower case. -/
def Level.label : Level → String
  | .error => "error"
  | .warn => "warn"
  | .info => "info"
  | .debug => "debug"

/-- Something worth a line in the log. -/
inductive Record
  /-- A call met its own initialization; `shared` when it met a claimed slot. -/
  | reentrant (id : FlagId) (shared : Bool)
  /-- A call joined the waiters of an initialization, now so many. -/
  | waits (who : Initiator) (id : FlagId) (queued : Nat)
  /-- A call started an initialization. -/
  | initializes (who : Initiator) (id : FlagId)
  /-- An initialization is over and its waiters are resumed. -/
  | resumes (id : FlagId) (waiters : Nat)
  /-- A call claimed a shared slot. -/
  | claims (who : Initiator) (id : FlagId)
  /-- A call found a shared slot taken, in the given state. -/
  | polls (who : Initiator) (id : FlagId) (state : UInt32)
  /-- A global was accessed through a context that it is not bound to. -/
  | foreign (id : FlagId)
  /-- An initializer returned a value to a global that has one. -/
  | secondValue (id : FlagId)
  /-- A context was built. -/
  | contextReady (capabilities : Capabilities) (shared : Bool)
  /-- A setting was ignored: variable, quoted value, reason. -/
  | ignoredSetting (variableName value reason : String)
  /-- A setting that must be positive was zero. -/
  | ignoredZero (variableName : String)
  /-- A region whose creator is gone was removed. -/
  | staleRemoved (name : String)
  /-- So many regions of a tag were removed before one was created. -/
  | staleTotal (count : Nat) (tag : String)
  | regionCreated (name : String) (size : Nat)
  | regionOpened (name : String) (size : Nat)
  | regionUnlinked (name : String)
  /-- A live region could not be opened. -/
  | regionUnusable (name : String) (cause : RegionError)
  /-- No region of a tag could be opened. -/
  | openFailed (tag : String) (cause : RegionError)
  /-- The regions of a tag could not be cleaned up. -/
  | cleanupSkipped (tag : String) (cause : RegionError)
  /-- The program is about to abort. -/
  | violated (violation : Violation)
deriving DecidableEq, Repr

namespace Record

/-- How serious the record is. -/
def level : Record → Level
  | .violated _ => .error
  | .foreign _ | .secondValue _ | .ignoredSetting _ _ _ | .ignoredZero _ | .regionUnusable _ _
  | .openFailed _ _ | .cleanupSkipped _ _ => .warn
  | .regionCreated _ _ | .regionOpened _ _ => .info
  | .reentrant _ _ | .waits _ _ _ | .initializes _ _ | .resumes _ _ | .claims _ _ | .polls _ _ _
  | .contextReady _ _ | .staleRemoved _ | .staleTotal _ _ | .regionUnlinked _ => .debug

/-- The identity that the record shows. -/
def initiator? : Record → Option Initiator
  | .waits who _ _ | .initializes who _ | .claims who _ | .polls who _ _ => some who
  | _ => none

/-- The record with the names of regions changed. -/
def mapNames (f : String → String) : Record → Record
  | .staleRemoved name => .staleRemoved (f name)
  | .regionCreated name size => .regionCreated (f name) size
  | .regionOpened name size => .regionOpened (f name) size
  | .regionUnlinked name => .regionUnlinked (f name)
  | .regionUnusable name cause => .regionUnusable (f name) (cause.mapName f)
  | .openFailed tag cause => .openFailed tag (cause.mapName f)
  | .cleanupSkipped tag cause => .cleanupSkipped tag (cause.mapName f)
  | r => r

/-- The message after the common opening, under a numbering of tokens. -/
def body (number : Nat → Nat) : Record → String
  | .reentrant id shared =>
    "reentrant initialization of " ++ id.label ++ if shared then " (shared)" else ""
  | .waits who id queued =>
    who.label number ++ " waits on " ++ id.label ++ " (" ++ toString queued ++ " queued)"
  | .initializes who id => who.label number ++ " initializes " ++ id.label
  | .resumes id waiters =>
    id.label ++ " done, resuming " ++ toString waiters ++ " waiter(s)"
  | .claims who id => who.label number ++ " claimed shared slot " ++ id.label
  | .polls who id state =>
    who.label number ++ " polls shared slot " ++ id.label ++ " (state "
      ++ toString state.toNat ++ ")"
  | .foreign id => "lazy global " ++ id.label ++ " accessed through a foreign context"
  | .secondValue id =>
    "lazy global " ++ id.label ++ " already has a value; dropping a second one"
  | .contextReady capabilities shared =>
    "context ready: " ++ capabilities.shape.inline ++ ", shared="
      ++ if shared then "true" else "false"
  | .ignoredSetting variableName value reason =>
    "ignoring " ++ variableName ++ "=" ++ value ++ ": " ++ reason
  | .ignoredZero variableName => "ignoring " ++ variableName ++ "=0"
  | .staleRemoved name => "cleaned up stale region " ++ name
  | .staleTotal count tag =>
    "removed " ++ toString count ++ " stale region(s) for tag " ++ tag
  | .regionCreated name size =>
    "created shared region " ++ name ++ " (" ++ toString size ++ " bytes)"
  | .regionOpened name size =>
    "opened shared region " ++ name ++ " (" ++ toString size ++ " bytes)"
  | .regionUnlinked name => "unlinked shared region " ++ name
  | .regionUnusable name cause =>
    "cannot open shared region " ++ name ++ ": " ++ cause.message
  | .openFailed tag cause => "cannot open shared region for " ++ tag ++ ": " ++ cause.message
  | .cleanupSkipped tag cause =>
    "skipping stale region cleanup for " ++ tag ++ ": " ++ cause.message
  | .violated violation => "invariant violated: " ++ violation.reason

/-- The message. -/
def text (number : Nat → Nat) (r : Record) : String := "[once] " ++ r.body number

end Record

end RunOnce
