import RunOnce.Scenario.Script

/-!
# What a scenario shows

**Events** (`Event`) name who acts: the main thread, a thread, or the task that is being polled.

**Snapshots** (`Snapshot`) show flags, globals, targets, threads and tasks under their names, each
kind in order of its names.
-/

namespace RunOnce.Scenario

open Region Protocol

/-- How far a thread has come. -/
inductive ThreadStatus
  | running
  | atGate (gate : String)
  | waiting
  | polling
  | finished
  | panicked
deriving DecidableEq

/-- How far a task has come. -/
inductive TaskStatus
  | new
  | pending
  | done
  | panicked
  | dropped
deriving DecidableEq

/-- What a snapshot shows of a registry. -/
structure RegistryView where
  inFlight : Nat
  pending : List (FlagId × Nat)

/-- What a snapshot shows of a target. A slot is missing if it is outside its table. -/
structure TargetView where
  registry : Option RegistryView
  slots : Option (List (FlagId × Option UInt32))

/-- The state of a scenario between two steps. -/
structure Snapshot where
  done : List String
  cells : List (String × Bool × Option Value)
  targets : List (String × TargetView)
  threads : List (String × ThreadStatus)
  tasks : List (String × TaskStatus)

/-- What an event shows of a region. -/
structure RegionView where
  name : String
  size : Nat
  isOwner : Bool

/-- What an event shows of a new target. -/
structure TargetReport where
  /-- The capabilities of a context, whether it is shared, and whether it has a table. -/
  context : Option (Capabilities × Bool × Bool)
  region : Option RegionView

/-- Which entry point a call went through. -/
inductive EntryPoint
  | exec
  | access
deriving DecidableEq

/-- How a call ended for its caller. -/
inductive Verdict
  | ok (value : Option Value)
  | refused (error : AccessError)
  | panicked (message : String)

/-- How a poll ended. -/
inductive PollResult
  | pending
  | ready
  | panicked (message : String)
  | gone

/-- What happened. -/
inductive Happening
  | log (record : Record)
  | enter (name : String)
  | leave (name : String)
  | cancel (name : String)
  | called (entry : EntryPoint) (name : String) (verdict : Verdict)
  | discarded (value : Value)
  | target (name : String) (result : Except RegionError TargetReport)
  | region (name : String) (result : Except RegionError (Option RegionView))
  | cleanup (count : Nat)
  | listed (objects : List (String × Nat))
  | peek (word : UInt32)
  | slot (state : Option UInt32)
  | pending (waiters : Nat) (inFlight : Option Nat)
  | got (name : String) (id : FlagId) (isDone : Bool) (value : Option Value)
  | inspected (inline indented : String)
  | ensured (name : String)
  | mark (text : Value)
  | state (snapshot : Snapshot)
  | wake (task : String)
  | polled (task : String) (result : PollResult)
  | ran (polls : Nat)
  | noTask (task : String)
  | gathered (mode : GatherMode)
  | ended (panic : Option String)
  | uncaught (message : String)
  | entered
  | execResult (text : String)

/-- Something that an actor did. -/
structure Event where
  actor : String
  what : Happening

end RunOnce.Scenario
