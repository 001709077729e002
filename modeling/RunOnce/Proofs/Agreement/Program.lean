import RunOnce.Scenario.Step

/-!
# Programs of nested calls

**A program** (`Program`) is what initializers on one thread do: calls for flags, each with a body
of its own, panics, and attempts, at which a panic stops. A call can also stop a panic by itself,
and can turn a refused access into one. Nothing in a program says through which target or in which
flavour its calls are made; that is fixed when it is written as a script (`Program.steps`). There an
attempt is a task that is made and polled where it stands.

**The play** (`Program.play`) of a program is what it should do wherever it runs, by recursion on
the program: how it ends, which flags are set then, and what was told meanwhile. A call for a set
flag returns at once. A call for a flag whose initializer runs around it is refused. Any other call
runs its body, and its flag is set whether the body returns or panics.
-/

namespace RunOnce.Scenario

open Protocol

/-- The name of the tasks that attempts are made of. -/
def trialTask : String := "trial"

/-- Calls, panics and attempts, one after the other. -/
inductive Program
  | done
  /-- A call for a flag, and what follows if it does not panic. -/
  | call (flag : String) (handling : Handling) (body next : Program)
  | panic (text : String)
  /-- A part at whose end a panic stops, and what follows. -/
  | attempt (body next : Program)

namespace Program

/-- The program as a script whose calls go through a target in one flavour. -/
def steps (flavour : Flavour) (target : String) : Program → List Step
  | done => []
  | call flag handling body next =>
    .exec flavour target flag (body.steps flavour target) handling :: next.steps flavour target
  | panic text => [.panic text]
  | attempt body next =>
    .task trialTask (body.steps flavour target) :: .poll trialTask :: next.steps flavour target

/-- The flags that a program names. -/
def flags : Program → List String
  | done | panic _ => []
  | call flag _ body next => flag :: (body.flags ++ next.flags)
  | attempt body next => body.flags ++ next.flags

end Program

/-! ## What is told -/

/-- Whether something is told about calls and attempts: an initializer begins or returns, or a call
or an attempt is over. -/
def Happening.isTold : Happening → Bool
  | .enter _ | .leave _ | .called _ _ _ | .polled _ _ => true
  | _ => false

/-- What was told on the thread that runs since the last entry, the oldest first. -/
def Machine.told (m : Machine) : List Happening :=
  let events := match m.strand with
    | none => m.events
    | some t => (m.threadEvents.get? t).getD []
  (events.reverse.map (·.what)).filter Happening.isTold

/-! ## Plays -/

/-- What a program does. -/
structure Play where
  /-- The panic with which it ends, if it does. -/
  panic : Option String := none
  /-- The flags that are set at its end. -/
  set : List String
  told : List Happening := []

namespace Play

/-- What comes next, unless there was a panic. -/
def andThen (first : Play) (next : List String → Play) : Play :=
  match first.panic with
  | some _ => first
  | none => { next first.set with told := first.told ++ (next first.set).told }

/-- A call for a flag that is set. -/
def passed (flag : String) (set : List String) : Play :=
  { set, told := [.called .exec flag (.ok none)] }

/-- A call for a flag whose initializer runs around it. -/
def refused (id : FlagId) (flag : String) (handling : Handling) (set : List String) : Play :=
  { panic := if handling.unwraps then some (AccessError.reentrant id).message else none
    set
    told := [.called .exec flag (.refused (.reentrant id))] }

/-- A call that runs its body. -/
def through (flag : String) (handling : Handling) (body : Play) : Play :=
  match body.panic with
  | none =>
    { set := flag :: body.set
      told := .enter flag :: (body.told ++ [.leave flag, .called .exec flag (.ok none)]) }
  | some text =>
    { panic := if handling.catches then none else some text
      set := flag :: body.set
      told := .enter flag :: (body.told ++ [.called .exec flag (.panicked text)]) }

/-- How a poll ends. -/
def pollResult : Option String → PollResult
  | none => .ready
  | some text => .panicked text

/-- An attempt at a part of a program. -/
def attempted (body : Play) : Play :=
  { set := body.set, told := body.told ++ [.polled trialTask (pollResult body.panic)] }

/-- How a machine goes on after a play. -/
def control (p : Play) : Control :=
  match p.panic with
  | none => .returned
  | some text => .raised text

theorem control_refused (id : FlagId) (flag : String) (handling : Handling) (set : List String) :
    (refused id flag handling set).control =
      if handling.unwraps then .raised (AccessError.reentrant id).message else .returned := by
  unfold control refused
  cases handling.unwraps <;> rfl

end Play

/-- What a program does while the initializers of some flags run around it, where some flags are set
already. -/
def Program.play (ids : String → FlagId) : Program → List String → List String → Play
  | .done, _, set => { set }
  | .panic text, _, set => { panic := some text, set }
  | .call flag handling body next, running, set =>
    let called :=
      if flag ∈ set then Play.passed flag set
      else if flag ∈ running then Play.refused (ids flag) flag handling set
      else (body.play ids (flag :: running) set).through flag handling
    called.andThen (next.play ids running)
  | .attempt body next, running, set =>
    (body.play ids running set).attempted.andThen (next.play ids running)

end RunOnce.Scenario
