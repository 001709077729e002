import RunOnce.LazyCell
import RunOnce.Target
import RunOnce.Wakeup

/-!
# The state in which calls meet

**A call** (`Call`) wants a flag set, and perhaps the value of a global. It is blocking and belongs
to a thread, or asynchronous. Its phase says which atomic step comes next.

**The state** (`State`) holds flags, globals, targets and calls, each under a key, and the image of
the shared objects. Two flags are different when their keys are, whatever their handles.

**Identity.** A call made inside an asynchronous initializer, at any depth, takes over its token;
outside of one, a blocking call is known by its thread, and an asynchronous call draws a token that
nobody else has (`State.identify`).
-/

namespace RunOnce.Protocol

open Region

/-- How a call waits. -/
inductive Flavour
  | blocking
  | async
deriving DecidableEq, Repr

/-- How an initializer ends. -/
inductive Ending
  | returned
  | unwound
  | dropped
deriving DecidableEq, Repr

/-- How a call ends. -/
inductive Outcome (α : Type)
  /-- The flag is set; with a global, its value. -/
  | ok (value : Option α)
  | failed (error : AccessError)
  /-- The flag of the global is set, but it has no value. -/
  | missing (id : FlagId)
  | unwound
  | dropped
deriving DecidableEq, Repr

/-- Which step of a call comes next. -/
inductive Phase (α : Type)
  /-- Looks whether the global has a value. -/
  | probing
  /-- Ties the global to the context. -/
  | binding
  /-- Looks at the flag without a lock. -/
  | arriving
  /-- Found the flag clear and takes the lock. -/
  | contending
  /-- Runs the initializer. -/
  | running
  /-- Waits for another call. -/
  | queued (signal : Signal)
  /-- Looks at the slot that another participant has. -/
  | polling
  /-- Has a value and claims the right to write it. -/
  | storing (value : α)
  /-- Makes the value readable. -/
  | publishing (value : α)
  /-- Retires its own operation; through a slot table, its slot is done next. -/
  | completing (ending : Ending)
  /-- Sets its flag, with the lock of its slot table taken. -/
  | marking (ending : Ending)
  /-- Gives up its claim and the lock of its slot table. -/
  | releasing (ending : Ending)
  /-- Hands control back to those who waited, one a step. -/
  | resuming (waiters : List Nat) (ending : Ending)
  /-- Makes sure that the flag is set. -/
  | concluding
  | ended (outcome : Outcome α)
deriving DecidableEq, Repr

/-- One call. -/
structure Call (α : Type) where
  flavour : Flavour
  /-- The thread on which the call runs. -/
  thread : String
  /-- The innermost call whose initializer made this one. -/
  enclosing : Option Nat := none
  target : Nat
  flag : Nat
  /-- The global whose value is wanted. -/
  cell : Option Nat := none
  initiator : Option Initiator := none
  phase : Phase α
deriving DecidableEq, Repr

/-- Everything that calls share. -/
structure State (α : Type) where
  flags : Store Nat Flag := {}
  cells : Store Nat (LazyCell α) := {}
  targets : Store Nat Target := {}
  calls : Store Nat (Call α) := {}
  image : Image
  nextKey : Nat := 0
  nextToken : Nat := 1
  /-- Why the program aborted, if it did. -/
  violation : Option Violation := none

/-- What a step lets others know. -/
inductive Notice (α : Type)
  | log (record : Record)
  /-- A waiting call was handed control. -/
  | resumed (call : Nat)
  /-- A value was discarded. -/
  | discarded (value : α)

namespace State

variable {α : Type}

/-- The flag that a call wants set. -/
def flagOf (s : State α) (call : Call α) : Flag := (s.flags.get? call.flag).getD default

/-- The executor that a call goes through. -/
def executorOf (s : State α) (call : Call α) : Option Executor :=
  (s.targets.get? call.target).map (·.executor)

/-- The state of the slot that a call goes for. -/
def slotSeen? (s : State α) (call : Call α) : Option UInt32 :=
  match s.executorOf call with
  | some (.table t) => t.state? s.image.directory (s.flagOf call).id
  | some (.registry _) | none => none

/-- The state with a call replaced. -/
def setCall (s : State α) (c : Nat) (call : Call α) : State α :=
  { s with calls := s.calls.set c call }

/-- The state with a call in a phase. -/
def setPhase (s : State α) (c : Nat) (call : Call α) (phase : Phase α) : State α :=
  s.setCall c { call with phase }

/-- The state with the executor of a target replaced. -/
def setExecutor (s : State α) (target : Nat) (executor : Executor) : State α :=
  { s with targets := s.targets.modify target ({ · with executor }) }

/-- The state after the drop of a guard of a target. -/
def unlock (s : State α) (target : Nat) : State α :=
  { s with targets := s.targets.modify target fun t => { t with executor := t.executor.unlock } }

/-- The state with a flag set. -/
def completeFlag (s : State α) (flag : Nat) : State α :=
  { s with flags := s.flags.modify flag Flag.complete }

/-- The state with a slot of a table in a state. -/
def markSlot (s : State α) (t : SlotTable) (id : FlagId) (state : UInt32) : State α :=
  { s with image := { s.image with directory := t.mark s.image.directory id state } }

/-- The state after an abort. -/
def abort (s : State α) (v : Violation) : State α × List (Notice α) :=
  ({ s with violation := some v }, [.log (.violated v)])

/-- The identity of the initializer around a call. -/
def around? (s : State α) (call : Call α) : Option Initiator :=
  match call.enclosing with
  | none => none
  | some outer => (s.calls.get? outer).bind (·.initiator)

/-- The identity of a call, and the state in which its token is taken. -/
def identify (s : State α) (call : Call α) : Initiator × State α :=
  match s.around? call, call.flavour with
  | some (.scope token), _ => (.scope token, s)
  | _, .blocking => (.thread call.thread, s)
  | _, .async => (.scope s.nextToken, { s with nextToken := s.nextToken + 1 })

/-! ## Making and dropping things -/

/-- A fresh key. -/
def fresh (s : State α) : Nat × State α := (s.nextKey, { s with nextKey := s.nextKey + 1 })

/-- Makes a flag. -/
def newFlag (s : State α) (flag : Flag) : Nat × State α :=
  let (key, next) := s.fresh
  (key, { next with flags := next.flags.set key flag })

/-- Makes a global with its flag; a global that has a value from the start is done. -/
def newCell (s : State α) (id : FlagId) (value : Option α) : Nat × State α :=
  let (flag, flagged) := s.newFlag { id, isDone := value.isSome }
  let (key, next) := flagged.fresh
  let content := match value with
    | some v => .stored v
    | none => .empty
  (key, { next with cells := next.cells.set key { flag, content } })

/-- Makes a target. -/
def newTarget (s : State α) (target : Target) : Nat × State α :=
  let (key, next) := s.fresh
  (key, { next with targets := next.targets.set key target })

/-- Drops a flag. -/
def dropFlag (s : State α) (key : Nat) : State α := { s with flags := s.flags.erase key }

/-- Drops a global, its flag and its value. -/
def dropCell (s : State α) (key : Nat) : State α × List (Notice α) :=
  match s.cells.get? key with
  | none => (s, [])
  | some cell =>
    ({ s with cells := s.cells.erase key, flags := s.flags.erase cell.flag },
      cell.value?.toList.map .discarded)

/-- Drops a target, and its mapping if it has one. -/
def dropTarget (s : State α) (key : Nat) : State α × List (Notice α) :=
  match s.targets.get? key with
  | none => (s, [])
  | some target =>
    let gone := { s with targets := s.targets.erase key }
    match target.table? with
    | none => (gone, [])
    | some table =>
      let (image, records) := gone.image.release table.mapping
      ({ gone with image }, records.map .log)

/-- Whether a call still uses a flag. -/
def usesFlag (s : State α) (key : Nat) : Bool := s.calls.values.any fun call => call.flag = key

/-- Whether a call still uses a global. -/
def usesCell (s : State α) (key : Nat) : Bool :=
  s.calls.values.any fun call => call.cell = some key

/-- Whether a call still uses a target. -/
def usesTarget (s : State α) (key : Nat) : Bool :=
  s.calls.values.any fun call => call.target = key

end State

end RunOnce.Protocol
