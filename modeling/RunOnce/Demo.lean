import RunOnce.Scenario.Run

/-!
# Two demonstrations

**Tasks** (`Demo.tasks`). Five tasks race for one connection; the winner opens it, and all are
resumed in the order in which they came. Then two calls joined in one task race for a second flag.

**Threads** (`Demo.threads`). Five threads race for the settings, which are loaded once. Then a
global whose initializer depends on itself settles at zero.

Each demonstration is a script, and the lines that it prints are read off the events.
-/

namespace RunOnce.Demo

open Scenario Protocol

/-- The context that a demonstration uses. -/
def contextName : String := "context"

/-- The events of a script, those of the main thread first. -/
def eventsOf (script : List Step) : List Event :=
  (runToReport script).entries.flatMap fun e => e.events ++ e.threads.flatMap (·.2)

/-- The texts that were marked. -/
def markedTexts (events : List Event) : List String :=
  events.filterMap fun e =>
    match e.what with
    | .mark (.text s) => some s
    | _ => none

/-- The numbers that were marked. -/
def markedNumbers (events : List Event) : List Int :=
  events.filterMap fun e =>
    match e.what with
    | .mark (.int n) => some n
    | _ => none

/-! ## Tasks -/

/-- The number of participants in each demonstration. -/
def participants : Nat := 5

/-- A task that wants the connection and then notes that it was resumed. -/
def connecting (i : Nat) : Step :=
  .task ("task " ++ toString i)
    [.exec .async contextName "connect"
      [.mark (.text ("task " ++ toString i ++ " opens the connection")), .yield 10] {},
     .mark (.int i)]

/-- Tasks racing for the connection. -/
def connectScript : List Step :=
  [.target contextName .localContext, .flag "connect" ⟨0⟩ false]
    ++ (List.range participants).map connecting ++ [.run 1000]

/-- Two calls for one flag joined in a task. -/
def warmupScript : List Step :=
  let warm : List Step := [.exec .async contextName "warmup" [.yield 1] {}]
  [.target contextName .localContext, .flag "warmup" ⟨1⟩ false,
   .task "warming" [.gather .join [warm, warm]], .run 1000]

/-- The results of calls, for inspection. -/
def resultTexts (events : List Event) : List String :=
  events.filterMap fun e =>
    match e.what with
    | .called _ _ (.ok _) => some "Ok(())"
    | .called _ _ (.refused error) => some ("Err(" ++ error.shape.inline ++ ")")
    | _ => none

/-- How many initializers began. -/
def beginnings (events : List Event) : Nat :=
  events.countP fun e =>
    match e.what with
    | .enter _ => true
    | _ => false

/-- What the demonstration of tasks prints. -/
def tasks : List String :=
  let connected := eventsOf connectScript
  let warmed := eventsOf warmupScript
  let order := ", ".intercalate ((markedNumbers connected).map toString)
  markedTexts connected
    ++ ["tasks resumed in order [" ++ order ++ "]",
        "joined warmups: " ++ " ".intercalate (resultTexts warmed) ++ ", ran "
          ++ toString (beginnings warmed) ++ " time(s)"]

/-! ## Threads -/

/-- How a thread signs a line. -/
def signature : String := "[ThreadId(*)] "

/-- The settings that are loaded. -/
def settings : Value :=
  .list [.list [.text "workers", .int 4], .list [.text "retries", .int 3]]

/-- A thread that wants the settings; the one that loads them takes its time. -/
def reading (i : Nat) : Step :=
  .thread ("thread " ++ toString i)
    [.access .blocking "settings" (some contextName) settings
      [.mark (.text (signature ++ "loading settings")), .wait "loaded"] {}]

/-- Threads racing for the settings. -/
def settingsScript : List Step :=
  [.target contextName .localContext, .lazyNew "settings" ⟨0⟩ none]
    ++ (List.range participants).map reading ++ [.openGate "loaded"]

/-- A global whose initializer depends on itself, and a second access to it. -/
def cyclicScript : List Step :=
  let access (body : List Step) : Step :=
    .access .blocking "cyclic" (some contextName) (.int 0) body {}
  [.target contextName .localContext, .lazyNew "cyclic" ⟨1⟩ none, access [access []], access []]

/-- What a thread prints about the settings it sees. -/
def seenLines (events : List Event) : List String :=
  events.filterMap fun e =>
    match e.what with
    | .called _ _ (.ok (some (.list items))) =>
      some (signature ++ "sees " ++ toString items.length ++ " settings")
    | _ => none

/-- The refusals of inner accesses. -/
def refusals (events : List Event) : List String :=
  events.filterMap fun e =>
    match e.what with
    | .called _ _ (.refused error) => some ("inner access refused: " ++ error.message)
    | _ => none

/-- The number that the last access returned. -/
def settledAt (events : List Event) : List String :=
  (events.filterMap fun e =>
    match e.what with
    | .called _ _ (.ok (some (.int n))) => some ("cyclic global settled at " ++ toString n)
    | _ => none).drop 1

/-- What the demonstration of threads prints. -/
def threads : List String :=
  let loaded := eventsOf settingsScript
  let cyclic := eventsOf cyclicScript
  markedTexts loaded ++ seenLines loaded ++ refusals cyclic ++ settledAt cyclic

end RunOnce.Demo
