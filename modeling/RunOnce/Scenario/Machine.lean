import RunOnce.Protocol.Step
import RunOnce.Scenario.Event
import RunOnce.Scenario.OwnId

/-!
# The machine that runs scripts

**Stacks of frames.** Whatever can be suspended is a list of frames, the innermost first: the main
thread, every other thread, and the future of a task. A frame says what is left to do at its level.

**Control** (`Control`) says what happens to the innermost frame: it goes on, what was above it
returned or panicked, or something above it was suspended. A suspension travels to the nearest
frame that polls, which keeps the frames above it for later.

**One strand at a time.** Threads run as coroutines: each runs until it is blocked or over, and
only while the main strand settles.
-/

namespace RunOnce.Scenario

open Region Protocol

/-- A call as its caller sees it. -/
structure Invocation where
  entry : EntryPoint
  name : String
  call : Nat
  flavour : Flavour
  body : List Step
  /-- What the initializer returns to a global. -/
  value : Option Value := none
  handling : Handling
  /-- A refused access is a panic of the call itself. -/
  isDirect : Bool := false
  /-- The initializer has begun. -/
  hasEntered : Bool := false

/-- What is left to do at one level of a stack. -/
inductive Frame
  | steps (rest : List Step) (flavour : Flavour)
  | call (invocation : Invocation)
  | yield (times : Nat)
  | gate (name : String) (ticket : Option Nat) (flavour : Flavour)
  /-- Branches before and after the one being polled; a finished branch is missing. -/
  | gather (mode : GatherMode) (before after : List (Option (List Frame))) (isActive : Bool)
  | poll (task : String)
  | run (left polls : Nat)
  /-- The task is ready from here on. -/
  | enlist (task : String)

/-- What happens to the innermost frame. -/
inductive Control
  | go
  | returned
  | raised (message : String)
  | suspended
  /-- The other threads run until each is blocked or over. -/
  | settling
  /-- Frames are dropped one after the other; `isQuiet` during a panic. -/
  | dropping (frames : List Frame) (isQuiet : Bool) (next : Control)
  | idle

/-- Why a script cannot go on. -/
inductive Halt
  | aborted
  | stalled
  | unknownName (name : String)
deriving DecidableEq

/-- A gate, and the tasks that wait at it in the order in which they began. -/
structure Gate where
  isOpen : Bool := false
  waiters : List (Nat × String) := []

/-- A thread: its frames while it lives. -/
inductive Thread
  | live (frames : List Frame)
  | ended (status : ThreadStatus)

/-- A task. Its future is missing while it is being polled and once it is gone. -/
structure Task where
  status : TaskStatus := .new
  future : Option (List Frame)

/-- What names stand for. -/
structure Names where
  flags : Store String Nat := {}
  cells : Store String Nat := {}
  targets : Store String Nat := {}
  regions : Store String Mapping := {}

/-- A script on its way. -/
structure Machine where
  protocol : State Value
  names : Names := {}
  gates : Store String Gate := {}
  threads : Store String Thread := {}
  tasks : Store String Task := {}
  /-- Tasks to be polled, in order. -/
  ready : List String := []
  /-- The tasks to wake when a waiting call is handed control. -/
  wakers : Store Nat String := {}
  nextTicket : Nat := 0
  /-- The thread that runs, unless it is the main one. -/
  strand : Option String := none
  stack : List Frame := []
  /-- The main thread's frames while another thread runs. -/
  paused : List Frame := []
  control : Control := .idle
  halt : Option Halt := none
  /-- Events since the last entry, the newest first. -/
  events : List Event := []
  threadEvents : Store String (List Event) := {}

/-- The name of the main thread. -/
def mainThread : String := "main"

/-- The name under which the context of the whole program is always known. -/
def globalName : String := "global"

/-- The key of that context. -/
def globalKey : Nat := 0

namespace Machine

/-- A machine before its first step, with nothing but the context of the whole program. -/
def start (image : Image) : Machine :=
  let empty : State Value := { image }
  { protocol := (empty.newTarget .localContext).2 }

/-! ## Reading the stack -/

/-- The task that is being polled on a stack. -/
def polledTask? : List Frame → Option String
  | [] => none
  | .poll task :: _ => some task
  | _ :: rest => polledTask? rest

/-- The innermost call of a stack whose initializer runs. -/
def enclosingCall? : List Frame → Option Nat
  | [] => none
  | .call inv :: rest => if inv.hasEntered then some inv.call else enclosingCall? rest
  | _ :: rest => enclosingCall? rest

/-- Whether a suspension stops at a frame. -/
def isBoundary : Frame → Bool
  | .poll _ => true
  | .gather _ _ _ isActive => isActive
  | _ => false

/-- The thread that runs. -/
def thread (m : Machine) : String := m.strand.getD mainThread

/-- Who acts. -/
def actor (m : Machine) : String := (polledTask? m.stack).getD m.thread

/-! ## Events and notices -/

/-- Records what the actor does. -/
def emit (m : Machine) (what : Happening) : Machine :=
  let event : Event := { actor := m.actor, what }
  match m.strand with
  | none => { m with events := event :: m.events }
  | some t =>
    { m with threadEvents := m.threadEvents.set t (event :: (m.threadEvents.get? t).getD []) }

/-- The name of an object as events show it. -/
def shownName (m : Machine) (name : String) : String := hidePid m.protocol.image.self name

/-- Records what the actor logs. -/
def emitRecord (m : Machine) (r : Record) : Machine := m.emit (.log (r.mapNames m.shownName))

/-- Records everything that the actor logs. -/
def emitRecords (m : Machine) (records : List Record) : Machine := records.foldl emitRecord m

/-- Puts a task behind those that are ready, unless it is one of them. -/
def enlist (m : Machine) (task : String) : Machine :=
  if m.ready.contains task then m else { m with ready := m.ready ++ [task] }

/-- Wakes a task: it is ready to be polled again. -/
def wake (m : Machine) (task : String) : Machine := (m.emit (.wake task)).enlist task

/-- Takes a task out of those that are ready. -/
def unready (m : Machine) (task : String) : Machine :=
  { m with ready := m.ready.filter fun other => !decide (other = task) }

/-- Passes a notice on to those whom it concerns. -/
def notify (m : Machine) : Notice Value → Machine
  | .log r => m.emitRecord r
  | .discarded v => m.emit (.discarded v)
  | .resumed call =>
    match m.wakers.get? call with
    | some task => m.wake task
    | none => m

/-- Stops for good. -/
def stop (m : Machine) (why : Halt) : Machine := { m with halt := some why, control := .idle }

/-- Takes over a state of the protocol with its notices. After a violation the machine stops. -/
def adopt (m : Machine) (result : State Value × List (Notice Value)) : Machine :=
  let next := result.2.foldl notify { m with protocol := result.1 }
  if result.1.violation.isSome then next.stop .aborted else next

/-- Lets a call take its next step. -/
def advance (m : Machine) (call : Nat) : Machine := m.adopt (m.protocol.advance call)

/-- Hands control on. -/
def next (m : Machine) (control : Control) : Machine :=
  if m.halt.isSome then m else { m with control }

/-! ## Names -/

/-- The target under a name. -/
def targetKey? (m : Machine) (name : String) : Option Nat :=
  if name = globalName then some globalKey else m.names.targets.get? name

/-- Drops a flag that has no name and no user. -/
def releaseFlag (m : Machine) (key : Nat) : Machine :=
  if m.names.flags.values.contains key || m.protocol.usesFlag key
      || m.protocol.cells.values.any fun cell => cell.flag = key then m
  else { m with protocol := m.protocol.dropFlag key }

/-- Drops a global that has no name and no user. -/
def releaseCell (m : Machine) (key : Nat) : Machine :=
  if m.names.cells.values.contains key || m.protocol.usesCell key then m
  else m.adopt (m.protocol.dropCell key)

/-- Drops a target that has no name and no user. -/
def releaseTarget (m : Machine) (key : Nat) : Machine :=
  if key = globalKey || m.names.targets.values.contains key || m.protocol.usesTarget key then m
  else m.adopt (m.protocol.dropTarget key)

/-- Ends the mapping of a region. -/
def releaseRegion (m : Machine) (mapping : Mapping) : Machine :=
  let (image, records) := m.protocol.image.release mapping
  { m with protocol := { m.protocol with image } }.emitRecords records

/-- Takes the name of a flag away. -/
def unnameFlag (m : Machine) (name : String) : Machine :=
  match m.names.flags.get? name with
  | none => m
  | some key =>
    { m with names := { m.names with flags := m.names.flags.erase name } }.releaseFlag key

/-- Takes the name of a global away. -/
def unnameCell (m : Machine) (name : String) : Machine :=
  match m.names.cells.get? name with
  | none => m
  | some key =>
    { m with names := { m.names with cells := m.names.cells.erase name } }.releaseCell key

/-- Takes the name of a target away. -/
def unnameTarget (m : Machine) (name : String) : Machine :=
  match m.names.targets.get? name with
  | none => m
  | some key =>
    { m with names := { m.names with targets := m.names.targets.erase name } }.releaseTarget key

/-- Takes the name of a region away, and ends its mapping. -/
def unnameRegion (m : Machine) (name : String) : Machine :=
  match m.names.regions.get? name with
  | none => m
  | some mapping =>
    { m with names := { m.names with regions := m.names.regions.erase name } }.releaseRegion mapping

/-- Forgets a call that is over, and drops what only it still used: its target first. -/
def forgetCall (m : Machine) (call : Nat) : Machine :=
  match m.protocol.calls.get? call with
  | none => m
  | some c =>
    let gone :=
      { m with protocol := m.protocol.forget call, wakers := m.wakers.erase call }
    let freed := gone.releaseTarget c.target
    match c.cell with
    | some key => freed.releaseCell key
    | none => freed.releaseFlag c.flag

/-! ## Snapshots -/

/-- Entries in order of their names. -/
def byName {α : Type} (entries : List (String × α)) : List (String × α) :=
  entries.mergeSort fun a b => !decide (b.1 < a.1)

/-- The handles of all flags and globals with a name, each once. -/
def namedIds (m : Machine) : List FlagId :=
  let flags := m.names.flags.values.filterMap fun key => (m.protocol.flags.get? key).map (·.id)
  let cells := m.names.cells.values.filterMap fun key =>
    (m.protocol.cells.get? key).bind fun cell => (m.protocol.flags.get? cell.flag).map (·.id)
  FlagId.ascending (flags ++ cells)

/-- What a snapshot shows of a registry, or of a context that has none. -/
def registryView (m : Machine) (target : Target) : RegistryView :=
  { inFlight := target.inFlight
    pending := m.namedIds.filterMap fun id =>
      if target.pending id = 0 then none else some (id, target.pending id) }

/-- What a snapshot shows of a slot table. -/
def slotsView (m : Machine) (table : SlotTable) : List (FlagId × Option UInt32) :=
  m.namedIds.filterMap fun id =>
    match table.state? m.protocol.image.directory id with
    | none => some (id, none)
    | some state => if state = slotIdle then none else some (id, some state)

/-- What a snapshot shows of a target. -/
def targetView (m : Machine) (target : Target) : TargetView :=
  match target.table? with
  | none => { registry := some (m.registryView target), slots := none }
  | some table =>
    { registry := if target.capabilities.isSome then some (m.registryView target) else none
      slots := some (m.slotsView table) }

/-- What a snapshot shows of a thread. -/
def threadStatus (m : Machine) (name : String) : Thread → ThreadStatus
  | .ended status => status
  | .live frames =>
    if m.strand = some name then .running
    else
      match frames with
      | .gate gate _ _ :: _ => .atGate gate
      | .call inv :: _ =>
        match m.protocol.phaseOf inv.call with
        | .queued _ => .waiting
        | .polling => .polling
        | _ => .running
      | _ => .running

/-- The state of the scenario. -/
def snapshot (m : Machine) : Snapshot :=
  let targets := m.names.targets.entries.filterMap fun (name, key) =>
    (m.protocol.targets.get? key).map fun target => (name, m.targetView target)
  let whole := match m.protocol.targets.get? globalKey with
    | some target =>
      if target.inFlight = 0 then [] else [(globalName, m.targetView target)]
    | none => []
  { done := (byName (m.names.flags.entries.filter fun (_, key) =>
      ((m.protocol.flags.get? key).map (·.isDone)).getD false)).map (·.1)
    cells := byName (m.names.cells.entries.filterMap fun (name, key) =>
      (m.protocol.cells.get? key).map fun cell =>
        (name, ((m.protocol.flags.get? cell.flag).map (·.isDone)).getD false, cell.value?))
    targets := byName (targets ++ whole)
    threads := byName (m.threads.entries.map fun (name, t) => (name, m.threadStatus name t))
    tasks := byName (m.tasks.entries.map fun (name, t) => (name, t.status)) }

/-! ## Threads -/

/-- Whether a suspended stack can go on. -/
def canResume (m : Machine) : List Frame → Bool
  | .gate gate _ _ :: _ => ((m.gates.get? gate).map (·.isOpen)).getD false
  | .call inv :: _ => m.protocol.isReady inv.call
  | _ => true

/-- The frames of the first thread, in order of names, that can go on. -/
def runnable? (m : Machine) : Option (String × List Frame) :=
  (byName m.threads.entries).findSome? fun (name, t) =>
    match t with
    | .live frames => if m.canResume frames then some (name, frames) else none
    | .ended _ => none

/-- Runs the other threads as long as one can go on; then the main strand does. -/
def settle (m : Machine) : Machine :=
  match m.strand with
  | some _ => m.next .go
  | none =>
    match m.runnable? with
    | none => m.next .go
    | some (name, frames) =>
      { m with strand := some name, paused := m.stack, stack := frames, control := .go }

/-- Goes back to the main strand, leaving the running thread as given. -/
def leaveThread (m : Machine) (name : String) (t : Thread) : Machine :=
  { m with
    threads := m.threads.set name t
    strand := none
    stack := m.paused
    paused := []
    control := .settling }

end Machine

end RunOnce.Scenario
