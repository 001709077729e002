import RunOnce.Protocol.Drive
import RunOnce.Scenario.Machine

/-!
# Calls that come late

**A late call** (`Machine.late`) looks at its flag while it is clear and waits for the lock. The
flag is completed elsewhere before the call gets the lock, so it runs nothing and logs nothing.
-/

namespace RunOnce.Scenario

open Protocol

namespace Machine

/-- What the result of a call looks like for inspection. -/
def resultText (s : State Value) (c : Nat) : String :=
  match s.outcome? c with
  | some (.failed e) => "Err(" ++ e.shape.inline ++ ")"
  | _ => "Ok(())"

/-- What a log shows of notices. -/
def logOf (notices : List (Notice Value)) : List Happening := (recordsOf notices).map .log

/-- What the end of a call shows. After a violation there is no end. -/
def endOf (s : State Value) (c : Nat) : List Happening :=
  if s.violation.isSome then [] else [.execResult (resultText s c)]

/-- Runs a call to its end with an initializer that does nothing, and says what it shows. -/
def runToEnd (c : Nat) (s : State Value) : State Value × List Happening :=
  let (entered, first) := s.drive c
  match entered.phaseOf c with
  | .running =>
    let (last, later) := (entered.finish c .returned none).drive c
    (last.forget c, logOf first ++ [.entered] ++ logOf later ++ endOf last c)
  | _ => (entered.forget c, logOf first ++ endOf entered c)

/-- Records what a helper thread does. -/
def emitAs (m : Machine) (actor : String) (happenings : List Happening) : Machine :=
  let events : List Event := happenings.map fun what => { actor, what }
  let all := events.reverse ++ (m.threadEvents.get? actor).getD []
  { m with threadEvents := m.threadEvents.set actor all }

/-- A call on its way to its flag. -/
def plainCall (thread : String) (target flag : Nat) (flavour : Flavour) : Call Value :=
  { flavour, thread, target, flag, phase := .arriving }

/-- The thread that holds the lock while it starts an initialization. -/
def holdThread : String := "hold"

/-- The thread whose call waits for the lock. -/
def lateThread : String := "late"

/-- The thread `hold` starts an initialization, the thread `late` looks at its flag, the main
thread completes that flag through another target, then `hold` ends and `late` enters. If the main
thread meets a violation, nothing comes after it. -/
def late (m : Machine) (target via flag blocker : Nat) (flavour : Flavour) : Machine :=
  let (hold, begun) := m.protocol.issue (plainCall holdThread target blocker .blocking)
  let (held, holdNotices) := begun.drive hold
  let (delayed, arrived) := held.issue (plainCall lateThread target flag flavour)
  let looked := (arrived.advance delayed).1
  let (own, passing) := looked.issue (plainCall mainThread via flag .blocking)
  let (passed, ownHappenings) := runToEnd own passing
  let shown := ownHappenings.foldl emit (m.emitAs holdThread (logOf holdNotices))
  if passed.violation.isSome then { shown with protocol := passed }.stop .aborted
  else
    let (freed, holdHappenings) := runToEnd hold passed
    let (last, lateHappenings) := runToEnd delayed freed
    ({ shown with protocol := last }.emitAs holdThread holdHappenings).emitAs lateThread
      lateHappenings

end Machine

end RunOnce.Scenario
