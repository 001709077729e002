import RunOnce.Protocol.State
import RunOnce.Scenario.Value

/-!
# Scripts

**A script** is a list of steps (`Step`). The main thread runs it; a step may start a thread or make
a task, each with steps of its own. Most steps are plain: they may stand anywhere. `yield`, `join`,
`select` and the asynchronous calls need a task.

**The budget** of a script (`budget`) is a number of machine steps that running it cannot exceed:
each step of the script runs at most once, and each poll visits each frame of its task at most a
few times.
-/

namespace RunOnce.Scenario

open Region Protocol

/-- Settings as a script gives them: an environment to read, then single overrides. -/
structure Settings where
  environment : Option Environment := none
  regionTag : Option String := none
  slotCount : Option UInt32 := none
  pollSpins : Option UInt32 := none

/-- The settings that a script asks for, and what was ignored in its environment. -/
def Settings.resolve (s : Settings) : Config × List Record :=
  let (base, records) := match s.environment with
    | some env => Config.ofEnvironment env
    | none => ({}, [])
  ({ regionTag := s.regionTag.getD base.regionTag
     slotCount := s.slotCount.getD base.slotCount
     pollSpins := s.pollSpins.getD base.pollSpins }, records)

/-- How a target is made. -/
inductive TargetKind
  | inProcess
  | localContext
  | context (capabilities : Capabilities) (settings : Settings)
  | attach (settings : Settings)
  | overRegion (region : String) (settings : Settings)

/-- How a region is made. -/
inductive Opening
  | create
  | openOnly
  | openOrCreate
deriving DecidableEq

/-- What is put into the directory by hand. -/
inductive Planted
  | file (size : Nat)
  | directory
  | link
deriving DecidableEq

/-- The rest of a file name after its tag: text in which the own process id has a place, or
bytes. -/
inductive Suffix
  | text (pieces : String)
  | bytes (bytes : List UInt8)
deriving DecidableEq

/-- What happens when a call ends badly. -/
structure Handling where
  /-- A panic out of the call stops there. -/
  catches : Bool := true
  /-- A refused access becomes a panic. -/
  unwraps : Bool := false
deriving DecidableEq

/-- How branches are joined. -/
inductive GatherMode
  | join
  | select
deriving DecidableEq

/-- One step of a script. -/
inductive Step
  | flag (name : String) (id : FlagId) (isDone : Bool)
  | flags (stem : String) (start count : Nat)
  | lazyNew (name : String) (id : FlagId) (value : Option Value)
  | target (name : String) (kind : TargetKind)
  | region (name : String) (how : Opening) (tag : String) (size : Nat)
  | drop (name : String)
  | cleanup (tag : String)
  | plant (tag : String) (suffix : Suffix) (what : Planted)
  | unplant (tag : String) (suffix : Suffix)
  | list (tag : String)
  | peek (name : String) (word : Nat)
  | poke (name : String) (word : Nat) (value : UInt32)
  | slot (target : String) (id : FlagId)
  | pending (target : String) (id : FlagId)
  | exec (flavour : Flavour) (target flag : String) (body : List Step) (handling : Handling)
  | access (flavour : Flavour) (cell : String) (target : Option String) (value : Value)
      (body : List Step) (handling : Handling)
  | get (cell : String)
  | inspectFlag (name : String)
  | inspectCell (name : String)
  | ensureDone (flag : String)
  | mark (text : Value)
  | state
  | panic (text : String)
  | openGate (gate : String)
  | wait (gate : String)
  | late (target via flag blocker : String) (flavour : Flavour)
  | thread (name : String) (body : List Step)
  | task (name : String) (body : List Step)
  | poll (task : String)
  | run (limit : Nat)
  | dropTask (task : String)
  | yield (times : Nat)
  | gather (mode : GatherMode) (branches : List (List Step))

mutual
/-- How many steps a step holds, itself included. -/
def Step.size : Step → Nat
  | .exec _ _ _ body _ => sizeAll body + 1
  | .access _ _ _ _ body _ => sizeAll body + 1
  | .thread _ body => sizeAll body + 1
  | .task _ body => sizeAll body + 1
  | .gather _ branches => sizeBranches branches + 1
  | _ => 1
/-- How many steps a list of steps holds. -/
def sizeAll : List Step → Nat
  | [] => 0
  | s :: rest => s.size + sizeAll rest
/-- How many steps the branches hold, and the branches themselves. -/
def sizeBranches : List (List Step) → Nat
  | [] => 0
  | b :: rest => sizeAll b + 1 + sizeBranches rest
end

mutual
/-- How many polls a step can make. -/
def Step.polls : Step → Nat
  | .poll _ => 1
  | .run limit => limit + 1
  | .exec _ _ _ body _ => pollsAll body
  | .access _ _ _ _ body _ => pollsAll body
  | .thread _ body => pollsAll body
  | .task _ body => pollsAll body
  | .gather _ branches => pollsBranches branches
  | _ => 0
/-- How many polls a list of steps can make. -/
def pollsAll : List Step → Nat
  | [] => 0
  | s :: rest => s.polls + pollsAll rest
/-- How many polls the branches can make. -/
def pollsBranches : List (List Step) → Nat
  | [] => 0
  | b :: rest => pollsAll b + pollsBranches rest
end

/-- A bound on the machine steps of a script. -/
def budget (script : List Step) : Nat :=
  1000 * (sizeAll script + 1) * (sizeAll script + pollsAll script + 1)

end RunOnce.Scenario
