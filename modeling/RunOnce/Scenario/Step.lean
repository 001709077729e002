import RunOnce.Scenario.Late
import RunOnce.Scenario.Plain

/-!
# One step of the machine

**The step** (`Machine.step`) looks at the control and the innermost frame. Calls are driven through
the steps of the protocol; joins and selects visit their unfinished branches in order; a poll keeps
the frames of a task that is suspended.

**A panic** goes outward frame by frame. A call on its way is completed first, so that others can go
on, then its caller sees the panic; branches beside a panicking one are dropped in order.

**Dropping** frames goes from the inside out: a call whose initializer has begun and is cancelled
says so, then it is completed.
-/

namespace RunOnce.Scenario

open Region Protocol Text

namespace Machine

/-! ## Calls -/

/-- Starts a call and puts its frame on the stack. -/
def begin (m : Machine) (call : Call Value) (inv : Invocation) : Machine :=
  let (key, protocol) := m.protocol.issue call
  { m with protocol, stack := .call { inv with call := key } :: m.stack, control := .go }

/-- Starts a call that wants a flag set. -/
def beginExec (m : Machine) (flavour : Flavour) (target flag : String) (body : List Step)
    (handling : Handling) : Machine :=
  match m.targetKey? target, m.names.flags.get? flag with
  | none, _ => m.stop (.unknownName target)
  | _, none => m.stop (.unknownName flag)
  | some targetKey, some flagKey =>
    m.begin
      { flavour, thread := m.thread, enclosing := enclosingCall? m.stack, target := targetKey,
        flag := flagKey, phase := .arriving }
      { entry := .exec, name := flag, call := 0, flavour, body, handling }

/-- Starts a call that wants the value of a global. -/
def beginAccess (m : Machine) (flavour : Flavour) (cell : String) (target : Option String)
    (value : Value) (body : List Step) (handling : Handling) : Machine :=
  match m.targetKey? (target.getD globalName), m.names.cells.get? cell with
  | none, _ => m.stop (.unknownName (target.getD globalName))
  | _, none => m.stop (.unknownName cell)
  | some targetKey, some cellKey =>
    let flag := ((m.protocol.cells.get? cellKey).map (·.flag)).getD 0
    m.begin
      { flavour, thread := m.thread, enclosing := enclosingCall? m.stack, target := targetKey,
        flag, cell := some cellKey, phase := .probing }
      { entry := .access, name := cell, call := 0, flavour, body, value := some value, handling,
        isDirect := target.isNone }

/-- Shows how a call ended, and forgets it. A blocking call is forgotten after its end was seen;
a future is gone before that. -/
def close (m : Machine) (inv : Invocation) (verdict : Verdict) (control : Control) : Machine :=
  let shown := Happening.called inv.entry inv.name verdict
  match inv.flavour with
  | .blocking => ((m.emit shown).forgetCall inv.call).next control
  | .async => ((m.forgetCall inv.call).emit shown).next control

/-- Ends a call with a panic, which its caller may catch. -/
def panicked (m : Machine) (inv : Invocation) (message : String) : Machine :=
  m.close inv (.panicked message) (if inv.handling.catches then .returned else .raised message)

/-- Ends a call as its outcome says. The frame of the call is off the stack. -/
def conclude (m : Machine) (inv : Invocation) (outcome : Outcome Value) : Machine :=
  match outcome with
  | .ok value => m.close inv (.ok value) .returned
  | .failed e =>
    if inv.isDirect then m.panicked inv e.message
    else m.close inv (.refused e) (if inv.handling.unwraps then .raised e.message else .returned)
  | .missing id =>
    m.panicked inv
      ("lazy global " ++ id.label
        ++ " has no value: its initializer panicked or ran in another image")
  | .unwound | .dropped => (m.forgetCall inv.call).next .returned

/-- Suspends a call that waits. A blocking call may only wait on a thread of its own. -/
def suspendCall (m : Machine) (inv : Invocation) : Machine :=
  match inv.flavour, m.strand with
  | .blocking, none => m.stop .stalled
  | .blocking, some _ => (m.advance inv.call).next .suspended
  | .async, _ =>
    match polledTask? m.stack with
    | none => m.stop .stalled
    | some task =>
      { m with wakers := m.wakers.set inv.call task }.next .suspended

/-- Drives a call whose frame is innermost. -/
def goCall (m : Machine) (inv : Invocation) (rest : List Frame) : Machine :=
  match m.protocol.phaseOf inv.call with
  | .running =>
    let shown := m.emit (.enter inv.name)
    let entered : Frame := .call { inv with hasEntered := true }
    { shown with stack := .steps inv.body inv.flavour :: entered :: rest }.next .go
  | .queued signal => if signal.isRaised then m.advance inv.call else m.suspendCall inv
  | .polling =>
    if m.protocol.isReady inv.call then m.advance inv.call
    else
      match inv.flavour, polledTask? m.stack with
      | .async, some task => (m.wake task).suspendCall inv
      | _, _ => m.suspendCall inv
  | .ended outcome => { m with stack := rest }.conclude inv outcome
  | _ => m.advance inv.call

/-- The initializer of a call returned. -/
def returnToCall (m : Machine) (inv : Invocation) : Machine :=
  let shown := m.emit (.leave inv.name)
  { shown with protocol := shown.protocol.finish inv.call .returned inv.value }.next .go

/-- A panic reaches the frame of a call. -/
def raiseToCall (m : Machine) (inv : Invocation) (rest : List Frame) (message : String) : Machine :=
  match m.protocol.phaseOf inv.call with
  | .running => { m with protocol := m.protocol.finish inv.call .unwound none }
  | .completing _ | .marking _ | .releasing _ | .resuming _ _ => m.advance inv.call
  | _ => { m with stack := rest }.panicked inv message

/-! ## Gates -/

/-- Waits at a gate. A task takes a ticket the first time it finds the gate closed. -/
def goGate (m : Machine) (gate : String) (ticket : Option Nat) (flavour : Flavour)
    (rest : List Frame) : Machine :=
  let known := (m.gates.get? gate).getD {}
  if known.isOpen then { m with stack := rest }.next .returned
  else
    match flavour, polledTask? m.stack, ticket with
    | .async, some task, none =>
      { m with
        gates := m.gates.set gate { known with waiters := known.waiters ++ [(m.nextTicket, task)] }
        nextTicket := m.nextTicket + 1
        stack := .gate gate (some m.nextTicket) flavour :: rest }.next .suspended
    | .async, some _, some _ => m.next .suspended
    | _, _, _ => if m.strand.isNone then m.stop .stalled else m.next .suspended

/-- Opens a gate and wakes the tasks that wait at it. -/
def openGate (m : Machine) (gate : String) : Machine :=
  let known := (m.gates.get? gate).getD {}
  let opened := { m with gates := m.gates.set gate { isOpen := true } }
  known.waiters.foldl (fun m waiter => m.wake waiter.2) opened

/-- Takes a ticket back. -/
def leaveGate (m : Machine) (gate : String) (ticket : Option Nat) : Machine :=
  match ticket with
  | none => m
  | some t =>
    { m with gates := m.gates.modify gate fun g =>
        { g with waiters := g.waiters.filter fun waiter => !decide (waiter.1 = t) } }

/-! ## Joins and selects -/

/-- The frames of the unfinished branches, in order. -/
def openFrames (branches : List (Option (List Frame))) : List Frame :=
  branches.flatMap fun branch => branch.getD []

/-- Whether the branches are finished: all of them, or one. Where there are none, they are. -/
def isGathered : GatherMode → List (Option (List Frame)) → Bool
  | .join, branches => branches.all (·.isNone)
  | .select, branches => branches.isEmpty || branches.any (·.isNone)

/-- Visits the next unfinished branch, or none of them is left for this poll. -/
def visit (mode : GatherMode) (rest : List Frame) :
    List (Option (List Frame)) → List (Option (List Frame)) → Machine → Machine
  | before, some frames :: after, m =>
    { m with stack := frames ++ Frame.gather mode before after true :: rest }.next .go
  | before, none :: after, m => visit mode rest (before ++ [none]) after m
  | before, [], m =>
    { m with stack := .gather mode [] before false :: rest }.next
      (if isGathered mode before then .go else .suspended)

/-- Begins a poll of the branches, or ends when they are finished. -/
def goGather (m : Machine) (mode : GatherMode) (branches : List (Option (List Frame)))
    (rest : List Frame) : Machine :=
  if isGathered mode branches then
    let last := { m with stack := rest }
    (last.emit (.gathered mode)).next .returned
  else visit mode rest [] branches m

/-- The branch being polled returned. A select then drops the others in order. -/
def returnToGather (m : Machine) (mode : GatherMode) (before after : List (Option (List Frame)))
    (rest : List Frame) : Machine :=
  match mode with
  | .join => visit mode rest (before ++ [none]) after m
  | .select =>
    { m with stack := .gather mode [] [none] false :: rest }.next
      (.dropping (openFrames (before ++ after)) false .go)

/-! ## Tasks -/

/-- Polls a task, unless it is gone or being polled. -/
def startPoll (m : Machine) (task : String) : Machine :=
  let taken := m.unready task
  match taken.tasks.get? task with
  | some { status, future := some frames } =>
    { taken with
      tasks := taken.tasks.set task { status, future := none }
      stack := frames ++ Frame.poll task :: taken.stack }.next .go
  | some { status := _, future := none } | none =>
    (taken.emit (.polled task .gone)).next .returned

/-- Ends the last poll of a future. Its task need not be polled again; a future that the task was
given meanwhile stays where it is. -/
def endPoll (m : Machine) (task : String) (status : TaskStatus) (result : PollResult)
    (rest : List Frame) : Machine :=
  let kept := m.unready task
  let last := { kept with tasks := kept.tasks.modify task ({ · with status }), stack := rest }
  (last.emit (.polled task result)).next .returned

/-- Ends a poll whose future goes on later. A future that the task was given meanwhile is
dropped. -/
def suspendPoll (m : Machine) (task : String) (frames rest : List Frame) : Machine :=
  let other := ((m.tasks.get? task).bind (·.future)).getD []
  let kept := m.tasks.set task { status := .pending, future := some frames }
  let shown := { m with tasks := kept, stack := rest }.emit (.polled task .pending)
  shown.next (.dropping other false .returned)

/-- Polls ready tasks one after the other. -/
def goRun (m : Machine) (left polls : Nat) (rest : List Frame) : Machine :=
  match left, m.ready with
  | left + 1, task :: _ => { m with stack := .run left (polls + 1) :: rest }.startPoll task
  | _, _ =>
    let last := { m with stack := rest }
    (last.emit (.ran polls)).next .returned

/-- Drops the future of a task in place. The task is not ready then, unless the dropping
wakes it. -/
def dropTask (m : Machine) (task : String) : Machine :=
  let idle := m.unready task
  match idle.tasks.get? task with
  | some { status := _, future := some frames } =>
    { idle with tasks := idle.tasks.set task { status := .dropped, future := none } }.next
      (.dropping frames false .returned)
  | some { status := _, future := none } | none => (idle.emit (.noTask task)).next .returned

/-! ## Dropping -/

/-- Drops the call of a frame, one step at a time. -/
def dropCall (m : Machine) (inv : Invocation) (rest : List Frame) (isQuiet : Bool)
    (next : Control) : Machine :=
  match m.protocol.phaseOf inv.call with
  | .completing _ | .marking _ | .releasing _ | .resuming _ _ => m.advance inv.call
  | .ended _ => (m.forgetCall inv.call).next (.dropping rest isQuiet next)
  | .running =>
    let shown := if inv.hasEntered && !isQuiet then m.emit (.cancel inv.name) else m
    { shown with protocol := shown.protocol.abandon inv.call }
  | _ => { m with protocol := m.protocol.abandon inv.call }

/-- Drops the first of the frames. -/
def goDrop (m : Machine) (isQuiet : Bool) (next : Control) : List Frame → Machine
  | [] => m.next next
  | .call inv :: rest => m.dropCall inv rest isQuiet next
  | .gate gate ticket _ :: rest => (m.leaveGate gate ticket).next (.dropping rest isQuiet next)
  | .gather _ before after _ :: rest =>
    m.next (.dropping (openFrames (before ++ after) ++ rest) isQuiet next)
  | .steps _ _ :: rest | .yield _ :: rest | .poll _ :: rest | .run _ _ :: rest
  | .enlist _ :: rest => m.next (.dropping rest isQuiet next)

/-! ## Steps of a script -/

/-- Puts a frame on the stack and goes on with it. -/
def push (m : Machine) (frame : Frame) : Machine :=
  { m with stack := frame :: m.stack }.next .go

/-- Starts a thread. -/
def spawn (m : Machine) (name : String) (body : List Step) : Machine :=
  { m with threads := m.threads.set name (.live [.steps body .blocking]) }

/-- Makes a task. The future of one that had the name before is dropped; then the new one is
ready to be polled. -/
def makeTask (m : Machine) (name : String) (body : List Step) : Machine :=
  let old := ((m.tasks.get? name).bind (·.future)).getD []
  { m with
    tasks := m.tasks.set name { future := some [.steps body .async] }
    stack := .enlist name :: m.stack }.next (.dropping old false .go)

/-- Aborts unless the flag is set. -/
def ensureDone (m : Machine) (name : String) : Machine :=
  match m.flagNamed? name with
  | none => m.stop (.unknownName name)
  | some flag =>
    if flag.isDone then m.emit (.ensured name)
    else m.adopt (m.protocol.abort (.unsetFlag flag.id))

/-- Begins a late call, if its names are known. -/
def beginLate (m : Machine) (target via flag blocker : String) (flavour : Flavour) : Machine :=
  match m.targetKey? target, m.targetKey? via, m.names.flags.get? flag,
    m.names.flags.get? blocker with
  | some t, some v, some f, some b => m.late t v f b flavour
  | none, _, _, _ => m.stop (.unknownName target)
  | _, none, _, _ => m.stop (.unknownName via)
  | _, _, none, _ => m.stop (.unknownName flag)
  | _, _, _, none => m.stop (.unknownName blocker)

/-- Goes on if a thing is known under its name, and stops else. -/
def withNamed {α : Type} (m : Machine) (name : String) (found : Option α)
    (go : α → Machine) : Machine :=
  match found with
  | some x => go x
  | none => m.stop (.unknownName name)

/-- What a plain step does. The others change nothing here. -/
def plainStep (m : Machine) : Step → Machine
  | .flag name id isDone => m.nameFlag name { id, isDone }
  | .flags stem start count => nameFlags stem start count m
  | .lazyNew name id value => m.nameCell name id value
  | .target name kind => m.nameTarget name kind
  | .region name how tag size => m.nameRegion name how tag size
  | .drop name => m.dropNamed name
  | .cleanup tag => m.cleanup tag
  | .plant tag suffix what => m.plant tag suffix what
  | .unplant tag suffix => m.setDirectory (m.directory.remove (m.plantedName tag suffix))
  | .list tag => m.emit (.listed (m.listing tag))
  | .peek name word =>
    m.withNamed name (m.objectOf? name) fun object =>
      m.emit (.peek (m.directory.readWord object word))
  | .poke name word value =>
    m.withNamed name (m.objectOf? name) fun object =>
      m.setDirectory (m.directory.writeWord object word value)
  | .slot target id =>
    m.withNamed target (m.targetNamed? target) fun t =>
      m.emit (.slot (t.table?.bind fun table => table.state? m.directory id))
  | .pending target id =>
    m.withNamed target (m.targetNamed? target) fun t =>
      m.emit (.pending (t.pending id) (if t.countsInFlight then some t.inFlight else none))
  | .get cell =>
    m.withNamed cell (m.cellNamed? cell) fun (flag, value) =>
      m.emit (.got cell flag.id flag.isDone value)
  | .inspectFlag name =>
    m.withNamed name (m.flagNamed? name) fun flag => m.inspect flag.shape
  | .inspectCell name =>
    m.withNamed name (m.cellNamed? name) fun (flag, value) => m.inspect (cellShape flag value)
  | .ensureDone flag => m.ensureDone flag
  | .mark text => m.emit (.mark text)
  | .state => m.emit (.state m.snapshot)
  | .openGate gate => m.openGate gate
  | .late target via flag blocker flavour => m.beginLate target via flag blocker flavour
  | .thread name body => m.spawn name body
  | _ => m

/-- Runs a step of a script in a body of the given flavour. -/
def runStep (m : Machine) (flavour : Flavour) : Step → Machine
  | .exec calls target flag body handling => m.beginExec calls target flag body handling
  | .access calls cell target value body handling =>
    m.beginAccess calls cell target value body handling
  | .panic text => m.next (.raised text)
  | .wait gate => m.push (.gate gate none flavour)
  | .yield times => m.push (.yield times)
  | .gather mode branches =>
    m.push (.gather mode [] (branches.map fun b => some [.steps b .async]) false)
  | .task name body => m.makeTask name body
  | .poll task => m.startPoll task
  | .run limit => m.push (.run limit 0)
  | .dropTask task => m.dropTask task
  | s => (m.plainStep s).next .returned

/-! ## The step -/

/-- Lets the innermost frame go on. -/
def stepGo (m : Machine) : Machine :=
  match m.stack with
  | [] =>
    match m.strand with
    | none => { m with control := .idle }
    | some name => (m.emit (.ended none)).leaveThread name (.ended .finished)
  | .steps [] _ :: rest => { m with stack := rest, control := .returned }
  | .steps (s :: more) flavour :: rest =>
    { m with stack := .steps more flavour :: rest }.runStep flavour s
  | .call inv :: rest => m.goCall inv rest
  | .yield 0 :: rest => { m with stack := rest, control := .returned }
  | .yield (n + 1) :: rest =>
    match polledTask? rest with
    | none => m.stop .stalled
    | some task => ({ m with stack := .yield n :: rest }.wake task).next .suspended
  | .gate gate ticket flavour :: rest => m.goGate gate ticket flavour rest
  | .gather mode before after _ :: rest => m.goGather mode (before ++ after) rest
  | .poll task :: rest => m.endPoll task .done .ready rest
  | .run left polls :: rest => m.goRun left polls rest
  | .enlist task :: rest => { m with stack := rest, control := .returned }.enlist task

/-- What was above the innermost frame returned. -/
def stepReturned (m : Machine) : Machine :=
  match m.stack with
  | [] | .steps _ _ :: _ | .run _ _ :: _ => { m with control := .settling }
  | .call inv :: _ => m.returnToCall inv
  | .gather mode before after _ :: rest => m.returnToGather mode before after rest
  | .poll task :: rest => m.endPoll task .done .ready rest
  | .yield _ :: rest | .gate _ _ _ :: rest | .enlist _ :: rest => { m with stack := rest }

/-- What was above the innermost frame panicked. -/
def stepRaised (m : Machine) (message : String) : Machine :=
  match m.stack with
  | [] =>
    match m.strand with
    | none => (m.emit (.uncaught message)).next .settling
    | some name => (m.emit (.ended (some message))).leaveThread name (.ended .panicked)
  | .call inv :: rest => m.raiseToCall inv rest message
  | .gather _ before after true :: rest =>
    { m with stack := rest }.next
      (.dropping (openFrames (before ++ after)) true (.raised message))
  | .poll task :: rest => m.endPoll task .panicked (.panicked message) rest
  | .steps _ _ :: rest | .yield _ :: rest | .gate _ _ _ :: rest | .gather _ _ _ false :: rest
  | .run _ _ :: rest | .enlist _ :: rest => { m with stack := rest }

/-- Something above the nearest boundary was suspended. -/
def stepSuspended (m : Machine) : Machine :=
  match m.strand with
  | some name => m.leaveThread name (.live m.stack)
  | none =>
    let frames := m.stack.takeWhile fun f => !isBoundary f
    match m.stack.dropWhile fun f => !isBoundary f with
    | .poll task :: rest => m.suspendPoll task frames rest
    | .gather mode before after _ :: rest => visit mode rest (before ++ [some frames]) after m
    | _ => m.stop .stalled

/-- One step. -/
def step (m : Machine) : Machine :=
  match m.control with
  | .idle => m
  | .go => m.stepGo
  | .returned => m.stepReturned
  | .raised message => m.stepRaised message
  | .suspended => m.stepSuspended
  | .settling => m.settle
  | .dropping frames isQuiet next => m.goDrop isQuiet next frames

/-- Whether no step is left. -/
def isIdle (m : Machine) : Bool :=
  match m.control with
  | .idle => true
  | _ => false

/-- Takes steps until none is left, at most so many. -/
def run : Nat → Machine → Machine
  | 0, m => m.stop .stalled
  | n + 1, m => if m.isIdle then m else run n m.step

end Machine

end RunOnce.Scenario
