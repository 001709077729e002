import RunOnce.Protocol.State

/-!
# Atomic steps of a call

**Steps a call takes by itself** (`State.advance`). The phase of a call decides which one: a look
at the value, the flag or the slot, one locked section, or handing control to one waiter. A call
that runs its initializer, waits for a signal or is over takes none.

**The end of an initializer** through a slot table is three steps, as those who poll take no lock:
the slot is done (`State.settle`), the flag is set (`State.markFlag`), and the claim goes
(`State.release`). The lock of the table is taken from the first to the last, and no other call
gets it meanwhile.

**Steps from outside.** `State.issue` starts a call, `State.finish` ends its initializer, and
`State.abandon` drops the future of a call at a point where it is suspended.

Every interleaving of calls is a sequence of such steps.
-/

namespace RunOnce.Protocol

open Region

namespace State

variable {α : Type}

/-! ## From the start to the initializer -/

/-- Starts a call that wants a flag set. -/
def issue (s : State α) (call : Call α) : Nat × State α :=
  let (key, next) := s.fresh
  (key, next.setCall key call)

/-- Looks whether the global has a value. -/
def probe (s : State α) (c : Nat) (call : Call α) : State α × List (Notice α) :=
  match call.cell.bind s.cells.get? with
  | none => (s.setPhase c call .arriving, [])
  | some cell =>
    match cell.value? with
    | some value => (s.setPhase c call (.ended (.ok (some value))), [])
    | none => (s.setPhase c call .binding, [])

/-- Ties the global to the target of the call. -/
def bind (s : State α) (c : Nat) (call : Call α) : State α × List (Notice α) :=
  match call.cell with
  | none => (s.setPhase c call .arriving, [])
  | some key =>
    match s.cells.get? key with
    | none => (s.setPhase c call .arriving, [])
    | some cell =>
      match cell.bind call.target with
      | some bound =>
        ({ s with cells := s.cells.set key bound }.setPhase c call .arriving, [])
      | none =>
        let id := (s.flagOf call).id
        (s.setPhase c call (.ended (.failed (.foreignContext id))), [.log (.foreign id)])

/-- Looks at the flag without a lock. -/
def load (s : State α) (c : Nat) (call : Call α) : State α × List (Notice α) :=
  (s.setPhase c call (if (s.flagOf call).isDone then .concluding else .contending), [])

/-- What a call waits on. -/
def signalFor : Flavour → Signal
  | .blocking => .cell {}
  | .async => .channel false

/-- The locked section of a call through a registry. -/
def enterRegistry (s : State α) (c : Nat) (call : Call α) (r : Registry Nat) :
    State α × List (Notice α) :=
  let (who, known) := s.identify call
  let flag := s.flagOf call
  let (admission, registry) := r.enter flag who c
  let named := { call with initiator := some who }
  let next := known.setExecutor call.target (.registry registry)
  match admission with
  | .done => (next.setPhase c named .concluding, [])
  | .reentrant =>
    (next.setPhase c named (.ended (.failed (.reentrant flag.id))),
      [.log (.reentrant flag.id false)])
  | .waiting queued =>
    (next.setPhase c named (.queued (signalFor call.flavour)),
      [.log (.waits who flag.id queued)])
  | .won => (next.setPhase c named .running, [.log (.initializes who flag.id)])

/-- The locked section of a call through a slot table. The call waits as long as the lock is
taken. -/
def enterTable (s : State α) (c : Nat) (call : Call α) (t : SlotTable) :
    State α × List (Notice α) :=
  let flag := s.flagOf call
  match t.state? s.image.directory flag.id with
  | none => s.abort (.outsideTable flag.id t.slotCount)
  | some state =>
    if t.isLocked then (s, [])
    else
      let (who, known) := s.identify call
      let (claim, table) := t.claim state flag.id who
      let named := { call with initiator := some who }
      let next := known.setExecutor call.target (.table table)
      match claim with
      | .reentrant =>
        (next.setPhase c named (.ended (.failed (.reentrant flag.id))),
          [.log (.reentrant flag.id true)])
      | .won =>
        ((next.markSlot t flag.id slotRunning).setPhase c named .running,
          [.log (.claims who flag.id)])
      | .lost found => (next.setPhase c named .polling, [.log (.polls who flag.id found)])

/-- The locked section of a call. -/
def enter (s : State α) (c : Nat) (call : Call α) : State α × List (Notice α) :=
  match s.executorOf call with
  | none => (s, [])
  | some (.registry r) => s.enterRegistry c call r
  | some (.table t) => s.enterTable c call t

/-! ## Waiting -/

/-- Goes on once the signal is raised; a thread sleeps until then. -/
def await (s : State α) (c : Nat) (call : Call α) (signal : Signal) : State α × List (Notice α) :=
  if signal.isRaised then (s.setPhase c call .concluding, [])
  else
    match signal with
    | .cell w => (s.setPhase c call (.queued (.cell w.park)), [])
    | .channel _ => (s, [])

/-- Looks at the slot, and follows it once it is done. -/
def observe (s : State α) (c : Nat) (call : Call α) : State α × List (Notice α) :=
  let id := (s.flagOf call).id
  match s.slotSeen? call with
  | none => (s, [])
  | some state =>
    if state = slotRunning then (s, [])
    else if state = slotDone then ((s.completeFlag call.flag).setPhase c call .concluding, [])
    else s.abort (.slotEnded id state)

/-! ## From the initializer to the end -/

/-- Claims the right to write the value; a second value is discarded. -/
def store (s : State α) (c : Nat) (call : Call α) (value : α) : State α × List (Notice α) :=
  match call.cell with
  | none => (s.setPhase c call (.completing .returned), [])
  | some key =>
    match (s.cells.get? key).bind LazyCell.claim with
    | some claimed =>
      ({ s with cells := s.cells.set key claimed }.setPhase c call (.publishing value), [])
    | none =>
      (s.setPhase c call (.completing .returned),
        [.log (.secondValue (s.flagOf call).id), .discarded value])

/-- Makes the value readable. -/
def publish (s : State α) (c : Nat) (call : Call α) (value : α) : State α × List (Notice α) :=
  let cells := match call.cell with
    | none => s.cells
    | some key => s.cells.modify key (·.publish value)
  ({ s with cells }.setPhase c call (.completing .returned), [])

/-- The locked section of a completion through a registry: the flag is set and the operation
retired. -/
def retire (s : State α) (c : Nat) (call : Call α) (r : Registry Nat) (ending : Ending) :
    State α × List (Notice α) :=
  let id := (s.flagOf call).id
  let flagged := s.completeFlag call.flag
  match r.retire id with
  | none => flagged.abort .missingOperation
  | some (waiters, registry) =>
    ((flagged.setExecutor call.target (.registry registry)).setPhase c call
        (.resuming waiters ending),
      if waiters.isEmpty then [] else [.log (.resumes id waiters.length)])

/-- Begins a completion through a slot table: the lock is taken and the slot done. -/
def settle (s : State α) (c : Nat) (call : Call α) (t : SlotTable) (ending : Ending) :
    State α × List (Notice α) :=
  if t.isLocked then (s, [])
  else
    let id := (s.flagOf call).id
    (((s.markSlot t id slotDone).setExecutor call.target (.table (t.lock id))).setPhase c call
      (.marking ending), [])

/-- Begins to complete the initialization of a call. -/
def complete (s : State α) (c : Nat) (call : Call α) (ending : Ending) :
    State α × List (Notice α) :=
  match s.executorOf call with
  | none => (s, [])
  | some (.registry r) => s.retire c call r ending
  | some (.table t) => s.settle c call t ending

/-- Sets the flag of a call whose slot is done. -/
def markFlag (s : State α) (c : Nat) (call : Call α) (ending : Ending) :
    State α × List (Notice α) :=
  ((s.completeFlag call.flag).setPhase c call (.releasing ending), [])

/-- Ends a completion through a slot table: the claim goes and the lock is free. -/
def release (s : State α) (c : Nat) (call : Call α) (ending : Ending) :
    State α × List (Notice α) :=
  ((s.unlock call.target).setPhase c call (.resuming [] ending), [])

/-- Hands control to one waiter, unless its future is gone. -/
def handOver (s : State α) (waiter : Nat) : State α × List (Notice α) :=
  match s.calls.get? waiter with
  | none => (s, [])
  | some call =>
    match call.phase with
    | .queued signal => (s.setPhase waiter call (.queued signal.raise), [.resumed waiter])
    | _ => (s, [])

/-- Hands control to the next waiter, or goes on to the end when there is none. -/
def resume (s : State α) (c : Nat) (call : Call α) (ending : Ending) :
    List Nat → State α × List (Notice α)
  | waiter :: rest => (s.setPhase c call (.resuming rest ending)).handOver waiter
  | [] =>
    match ending with
    | .returned => (s.setPhase c call .concluding, [])
    | .unwound => (s.setPhase c call (.ended .unwound), [])
    | .dropped => (s.setPhase c call (.ended .dropped), [])

/-- Makes sure that the flag is set, and reads the value if one is wanted. -/
def conclude (s : State α) (c : Nat) (call : Call α) : State α × List (Notice α) :=
  let flag := s.flagOf call
  if !flag.isDone then s.abort (.unsetFlag flag.id)
  else
    match call.cell with
    | none => (s.setPhase c call (.ended (.ok none)), [])
    | some key =>
      match (s.cells.get? key).bind LazyCell.value? with
      | some value => (s.setPhase c call (.ended (.ok (some value))), [])
      | none => (s.setPhase c call (.ended (.missing flag.id)), [])

/-! ## The steps -/

/-- The next step that a call takes by itself. -/
def advance (s : State α) (c : Nat) : State α × List (Notice α) :=
  match s.violation, s.calls.get? c with
  | some _, _ | _, none => (s, [])
  | none, some call =>
    match call.phase with
    | .probing => s.probe c call
    | .binding => s.bind c call
    | .arriving => s.load c call
    | .contending => s.enter c call
    | .running => (s, [])
    | .queued signal => s.await c call signal
    | .polling => s.observe c call
    | .storing value => s.store c call value
    | .publishing value => s.publish c call value
    | .completing ending => s.complete c call ending
    | .marking ending => s.markFlag c call ending
    | .releasing ending => s.release c call ending
    | .resuming waiters ending => s.resume c call ending waiters
    | .concluding => s.conclude c call
    | .ended _ => (s, [])

/-- Ends the initializer of a call. One that returns may have a value for the global. -/
def finish (s : State α) (c : Nat) (ending : Ending) (value : Option α) : State α :=
  match s.calls.get? c with
  | none => s
  | some call =>
    match call.phase with
    | .running =>
      match ending, value with
      | .returned, some v => s.setPhase c call (.storing v)
      | _, _ => s.setPhase c call (.completing ending)
    | _ => s

/-- Drops the future of a call. If its initializer runs, it is completed as dropped. -/
def abandon (s : State α) (c : Nat) : State α :=
  match s.calls.get? c with
  | none => s
  | some call =>
    match call.phase with
    | .running => s.finish c .dropped none
    | .completing _ | .marking _ | .releasing _ | .resuming _ _ | .ended _ => s
    | _ => s.setPhase c call (.ended .dropped)

/-- Forgets a call that is over. -/
def forget (s : State α) (c : Nat) : State α := { s with calls := s.calls.erase c }

/-- The phase of a call; a forgotten call is over. -/
def phaseOf (s : State α) (c : Nat) : Phase α :=
  match s.calls.get? c with
  | some call => call.phase
  | none => .ended .dropped

/-- How the call ended, if it has. -/
def outcome? (s : State α) (c : Nat) : Option (Outcome α) :=
  match s.phaseOf c with
  | .ended outcome => some outcome
  | _ => none

/-- Whether a suspended call could take a step that changes something. -/
def isReady (s : State α) (c : Nat) : Bool :=
  match s.calls.get? c with
  | none => true
  | some call =>
    match call.phase with
    | .queued signal => signal.isRaised
    | .polling => s.slotSeen? call ≠ some slotRunning
    | _ => true

end State

end RunOnce.Protocol
