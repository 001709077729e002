import RunOnce.Registry
import RunOnce.SlotTable

/-!
# What calls go through

**An executor** decides who runs an initializer: a registry inside this process, or a slot table
that several images share.

**A target** (`Target`) is an executor by itself, or a context: an executor with the capabilities
that chose it.
-/

namespace RunOnce

open Region

/-- Who decides which call runs an initializer. Waiters are calls, named by their keys. -/
inductive Executor
  | registry (registry : Registry Nat)
  | table (table : SlotTable)

namespace Executor

/-- Whether the lock of a slot table is taken. That of a registry never stays taken. -/
def isLocked : Executor → Bool
  | .registry _ => false
  | .table t => t.isLocked

/-- The executor after the drop of a guard. -/
def unlock : Executor → Executor
  | .registry r => .registry r
  | .table t => .table t.unlock

end Executor

/-- Something that calls go through. Contexts have capabilities, bare executors have none. -/
structure Target where
  executor : Executor := .registry {}
  capabilities : Option Capabilities := none

namespace Target

/-- A bare executor for one process. -/
def inProcess : Target := {}

/-- A context for one process. -/
def localContext : Target := { capabilities := some Capabilities.build }

/-- A bare executor over a slot table. -/
def ofTable (t : SlotTable) : Target := { executor := .table t }

/-- The slot table, if the target uses one. -/
def table? (t : Target) : Option SlotTable :=
  match t.executor with
  | .table table => some table
  | .registry _ => none

/-- Whether calls go through a slot table. -/
def isShared (t : Target) : Bool := t.table?.isSome

/-- Calls that wait for a handle. Nobody waits on a slot table. -/
def pending (t : Target) (id : FlagId) : Nat :=
  match t.executor with
  | .registry r => r.pending id
  | .table _ => 0

/-- Initializations in flight. A slot table counts none. -/
def inFlight (t : Target) : Nat :=
  match t.executor with
  | .registry r => r.inFlight
  | .table _ => 0

/-- Whether the target can say how many initializations are in flight: a bare slot table cannot. -/
def countsInFlight (t : Target) : Bool := !t.isShared || t.capabilities.isSome

/-- Builds a context for capabilities: over the slot table of the settings if they ask for it,
else for one process. -/
def context (i : Image) (caps : Capabilities) (c : Config) :
    Except RegionError Target × Image × List Record :=
  if caps.isCrossImage then
    match SlotTable.attach i c with
    | (.error e, image, records) => (.error e, image, records)
    | (.ok table, image, records) =>
      (.ok { executor := .table table, capabilities := some caps }, image,
        records ++ [.contextReady caps true])
  else (.ok { capabilities := some caps }, i, [.contextReady caps false])

end Target

end RunOnce
