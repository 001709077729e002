import RunOnce.Protocol.Step

/-!
# Calls that wait for nobody

**Driving** (`State.drive`) takes the steps of one call alone, up to its initializer or to its end.
-/

namespace RunOnce.Protocol

namespace State

variable {α : Type}

/-- Takes at most so many steps of a call, until it runs its initializer or is over. -/
def driveFor : Nat → Nat → State α → State α × List (Notice α)
  | 0, _, s => (s, [])
  | n + 1, c, s =>
    match s.phaseOf c with
    | .running | .ended _ => (s, [])
    | _ =>
      let (next, notices) := s.advance c
      let (last, later) := driveFor n c next
      (last, notices ++ later)

/-- More steps than a call takes that waits for nobody and for which nobody waits. -/
def driveLimit : Nat := 100

/-- Takes the steps of a call until it runs its initializer or is over. -/
def drive (s : State α) (c : Nat) : State α × List (Notice α) := driveFor driveLimit c s

end State

/-- The records among notices. -/
def recordsOf {α : Type} (notices : List (Notice α)) : List Record :=
  notices.filterMap fun notice =>
    match notice with
    | .log r => some r
    | .resumed _ | .discarded _ => none

end RunOnce.Protocol
