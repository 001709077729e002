import RunOnce.Scenario.Run

/-!
# Transcripts

**Tokens** of asynchronous calls are shown by numbers from one on, in the order in which they first
stand in a log record. **Removals** of stale regions that stand side by side are shown in order of
their texts, since a scan may meet them in any order.
-/

namespace RunOnce.Scenario

/-- The tokens that stand in log records, each once, in order of first appearance. -/
def tokensOf (events : List Event) : List Nat :=
  (events.filterMap fun e =>
    match e.what with
    | .log r => r.initiator?.bind (·.token?)
    | _ => none).foldl (fun seen t => if seen.contains t then seen else seen ++ [t]) []

/-- All events of an entry, those of the main thread first. -/
def StepReport.all (e : StepReport) : List Event := e.events ++ e.threads.flatMap (·.2)

/-- The number under which a token is shown. -/
def numberIn (tokens : List Nat) (token : Nat) : Nat := tokens.idxOf token + 1

/-- A record as a transcript shows it. -/
def recordText (tokens : List Nat) (r : Record) : String := r.text (numberIn tokens)

/-- The name of a removed region, if the event is a removal. -/
def removed? (e : Event) : Option String :=
  match e.what with
  | .log (.staleRemoved name) => some name
  | _ => none

/-- Puts an event before a list of events; a removal goes to its place among those at the front. -/
def insertRemoval (e : Event) : List Event → List Event
  | [] => [e]
  | other :: rest =>
    match removed? e, removed? other with
    | some mine, some its =>
      if its < mine then other :: insertRemoval e rest else e :: other :: rest
    | _, _ => e :: other :: rest

/-- The events with adjacent removals in order of their texts. -/
def sortRemovals (events : List Event) : List Event := events.foldr insertRemoval []

/-- The entry with adjacent removals in order of their texts. -/
def StepReport.tidy (e : StepReport) : StepReport :=
  { e with
    events := sortRemovals e.events
    threads := e.threads.map fun (name, events) => (name, sortRemovals events) }

/-- The tokens of a whole report, in order of first appearance. -/
def Report.tokens (r : Report) : List Nat :=
  tokensOf (r.entries.flatMap StepReport.all ++ r.last.all)

/-- The report with adjacent removals in order of their texts. -/
def Report.tidy (r : Report) : Report :=
  { r with entries := r.entries.map StepReport.tidy, last := r.last.tidy }

/-- All entries of a report as one. -/
def Report.merged (r : Report) : StepReport :=
  let all := r.entries ++ [r.last]
  let names := (all.flatMap fun e => e.threads.map (·.1)).eraseDups
  { events := all.flatMap (·.events)
    threads := Machine.byName (names.map fun name =>
      (name, all.flatMap fun e =>
        (e.threads.filter fun t => t.1 = name).flatMap (·.2)))
    snapshot := none }

end RunOnce.Scenario
