import RunOnce.Scenario.Step

/-!
# Whole scenarios

**Entries** (`StepReport`). Each step of the script is run until the main thread is done with it and
every thread is blocked or over; what happened and the state reached make one entry.

**Teardown.** At the end unfinished futures are dropped in order of their names; gates are opened
for the threads that still wait at one; then globals, targets and regions are dropped in order of
their names.
-/

namespace RunOnce.Scenario

open Region

/-- What one step of the main thread led to. -/
structure StepReport where
  events : List Event
  threads : List (String × List Event)
  /-- The state reached; at the end of a scenario there is none. -/
  snapshot : Option Snapshot

/-- Everything that a script led to. -/
structure Report where
  entries : List StepReport
  last : StepReport
  halt : Option Halt

/-- What a process sees of the system before the first step of a scenario: an empty directory, and
one other process, with id 0, that is alive. -/
def system (pid : UInt32) : Image := { self := pid, isAlive := fun other => other = 0 }

namespace Machine

/-- The events since the last entry, and the machine without them. -/
def takeReport (m : Machine) (withSnapshot : Bool) : StepReport × Machine :=
  ({ events := m.events.reverse
     threads := byName (m.threadEvents.entries.map fun (name, events) => (name, events.reverse))
     snapshot := if withSnapshot then some m.snapshot else none },
    { m with events := [], threadEvents := {} })

/-- Runs one step of the script on the main thread. -/
def runTop (fuel : Nat) (m : Machine) (s : Step) : Machine :=
  if m.halt.isSome then m
  else run fuel { m with stack := [.steps [s] .blocking], control := .go }

/-- Runs a script and returns an entry for each of its steps. -/
def runScript (fuel : Nat) : List Step → Machine → List StepReport × Machine
  | [], m => ([], m)
  | s :: rest, m =>
    let (entry, next) := (m.runTop fuel s).takeReport true
    let (entries, last) := runScript fuel rest next
    (entry :: entries, last)

/-! ## Teardown -/

/-- Drops the future of a task if it has one, and lets threads settle. -/
def dropFuture (fuel : Nat) (m : Machine) (name : String) : Machine :=
  if m.halt.isSome then m
  else
    match m.tasks.get? name with
    | some { status := _, future := some frames } =>
      run fuel
        { m with
          tasks := m.tasks.set name { status := .dropped, future := none }
          control := .dropping frames false .settling }
    | some { status := _, future := none } | none => m

/-- The gate at which the first thread, in order of names, waits. -/
def firstClosedGate? (m : Machine) : Option String :=
  (byName m.threads.entries).findSome? fun (name, t) =>
    match m.threadStatus name t with
    | .atGate gate => some gate
    | _ => none

/-- Opens gates until no thread waits at one. -/
def openGates (fuel : Nat) : Nat → Machine → Machine
  | 0, m => m
  | n + 1, m =>
    if m.halt.isSome then m
    else
      match m.firstClosedGate? with
      | none => m
      | some gate => openGates fuel n (run fuel ((m.openGate gate).next .settling))

/-- Stops unless every thread is over. -/
def checkThreads (m : Machine) : Machine :=
  let isOver : Thread → Bool
    | .ended _ => true
    | .live _ => false
  if m.halt.isSome || m.threads.values.all isOver then m else m.stop .stalled

/-- Applies a change for each name in turn, unless the machine has stopped. -/
def forNames (m : Machine) (names : List String) (change : Machine → String → Machine) : Machine :=
  names.foldl (fun m name => if m.halt.isSome then m else change m name) m

/-- Names in order. -/
def sorted (names : List String) : List String := names.mergeSort fun a b => !decide (b < a)

/-- Drops everything that is left. -/
def teardown (fuel gates : Nat) (m : Machine) : Machine :=
  let tasks := m.forNames (sorted m.tasks.keys) (dropFuture fuel)
  let threads := (openGates fuel gates tasks).checkThreads
  let cells := threads.forNames (sorted threads.names.cells.keys) unnameCell
  let targets := cells.forNames (sorted cells.names.targets.keys) unnameTarget
  targets.forNames (sorted targets.names.regions.keys) unnameRegion

end Machine

/-- Runs a script to its end, teardown included. -/
def runToReport (script : List Step) : Report :=
  let fuel := budget script
  let (entries, played) := Machine.runScript fuel script (Machine.start (system (ownPid script)))
  let ended := played.teardown fuel (sizeAll script + 1)
  { entries, last := (ended.takeReport false).1, halt := ended.halt }

end RunOnce.Scenario
