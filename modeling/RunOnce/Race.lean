import RunOnce.Protocol.Drive
import RunOnce.Scenario.Run

/-!
# Races

**A race** lets several participants go for the same handles, each participant once for each
handle. The totals do not depend on the interleaving: of all calls for a handle exactly one runs the
initializer, and every other one returns with the flag set. So the calls are played one after the
other.
-/

namespace RunOnce

open Region Protocol

/-- Who races for what. -/
structure Race where
  /-- Two participants of a slot table in turn, instead of one context. -/
  isShared : Bool
  regionTag : String
  participants : Nat
  handles : Nat
  /-- Initializers panic. -/
  panics : Bool

/-- What a race adds up to. -/
structure Totals where
  /-- Initializers run, for each handle. -/
  runs : List Nat
  ok : Nat := 0
  panics : Nat := 0
  /-- Calls that returned before the flag was set and the initializer was over. -/
  early : Nat := 0
  /-- Flags set, for each target. -/
  done : List Nat := []
  /-- Initializations in flight, for each target; a slot table does not count them. -/
  inFlight : List (Option Nat) := []

namespace Race

/-- One thing that participants go through, with a flag of its own for each handle. -/
structure Side where
  target : Nat
  flags : List Nat

/-- Makes a flag for each of so many handles. -/
def makeFlags : Nat → Nat → State Unit → List Nat × State Unit
  | _, 0, s => ([], s)
  | index, count + 1, s =>
    let (key, next) := s.newFlag { id := ⟨UInt32.ofNat index⟩ }
    let (keys, last) := makeFlags (index + 1) count next
    (key :: keys, last)

/-- Makes the sides for targets. -/
def makeSides (handles : Nat) : List Target → State Unit → List Side × State Unit
  | [], s => ([], s)
  | target :: rest, s =>
    let (key, made) := s.newTarget target
    let (flags, flagged) := makeFlags 0 handles made
    let (sides, last) := makeSides handles rest flagged
    ({ target := key, flags } :: sides, last)

/-- The targets of a race, and the image they leave. -/
def targets (r : Race) (image : Image) : List Target × Image :=
  if r.isShared then
    let config : Config := { regionTag := r.regionTag, slotCount := UInt32.ofNat r.handles }
    let (first, made, _) := SlotTable.attach image config
    let (second, last, _) := SlotTable.attach made config
    ([first, second].filterMap fun result => (result.toOption).map .ofTable, last)
  else ([.localContext], image)

/-- Counts one more at a position. -/
def bump (counts : List Nat) (i : Nat) : List Nat := counts.modify i (· + 1)

/-- Plays the call of a participant for a handle. -/
def playCall (r : Race) (sides : List Side) (participant handle : Nat)
    (played : State Unit × Totals) : State Unit × Totals :=
  match sides[participant % sides.length]? with
  | none => played
  | some side =>
    match side.flags[handle]? with
    | none => played
    | some flag =>
      let (c, issued) := played.1.issue
        { flavour := .blocking, thread := toString participant, target := side.target, flag,
          phase := .arriving }
      let (entered, _) := issued.drive c
      let isWinner := match entered.phaseOf c with
        | .running => true
        | _ => false
      let ending : Ending := if r.panics then .unwound else .returned
      let (last, _) := (entered.finish c ending none).drive c
      let totals := if isWinner then { played.2 with runs := bump played.2.runs handle }
        else played.2
      let isComplete := ((last.flags.get? flag).map (·.isDone)).getD false
        && 0 < (totals.runs[handle]?).getD 0
      let counted := match last.outcome? c with
        | some (.ok _) =>
          { totals with
            ok := totals.ok + 1
            early := if isComplete then totals.early else totals.early + 1 }
        | some .unwound => { totals with panics := totals.panics + 1 }
        | _ => totals
      (last.forget c, counted)

/-- Plays all calls of a race. -/
def play (r : Race) : Totals :=
  let (targets, image) := r.targets (Scenario.system Scenario.leastPid)
  let (sides, start) := makeSides r.handles targets { image }
  let calls := (List.range r.participants).flatMap fun i =>
    (List.range r.handles).map fun j => (i, (i + j) % r.handles)
  let (last, totals) := calls.foldl (fun played call => r.playCall sides call.1 call.2 played)
    (start, { runs := List.replicate r.handles 0 })
  { totals with
    done := sides.map fun side =>
      side.flags.countP fun key => ((last.flags.get? key).map (·.isDone)).getD false
    inFlight := sides.map fun side =>
      (last.targets.get? side.target).bind fun target =>
        if target.isShared then none else some target.inFlight }

end Race

end RunOnce
