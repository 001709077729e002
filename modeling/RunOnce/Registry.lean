import RunOnce.Flag
import RunOnce.Initiator

/-!
# Initializations in flight

**The registry** (`Registry`) holds one operation for each flag that is being initialized: its
handle, who started it, and the waiters in the order in which they came. What a waiter is is left
open.

**Entering** (`Registry.enter`) is the locked part of a call: the flag is looked at again, then the
call joins the operation for its flag or starts one. **Retiring** (`Registry.retire`) is the locked
part of a completion: the operation goes and its waiters are handed over.
-/

namespace RunOnce

/-- An initialization in flight, with those who wait for it in order of arrival. -/
structure Operation (ω : Type) where
  flag : FlagId
  initiator : Initiator
  waiters : List ω := []
deriving DecidableEq

/-- The initializations in flight of one process. -/
structure Registry (ω : Type) where
  operations : List (Operation ω) := []
deriving DecidableEq

/-- What a call learns when it enters. -/
inductive Admission
  /-- The flag is set. -/
  | done
  /-- The call met its own initialization. -/
  | reentrant
  /-- The call waits, as the last of so many. -/
  | waiting (queued : Nat)
  /-- The call runs the initializer. -/
  | won
deriving DecidableEq, Repr

namespace Registry

variable {ω : Type}

/-- The operation for a handle. -/
def find? (r : Registry ω) (id : FlagId) : Option (Operation ω) :=
  r.operations.find? fun op => op.flag = id

/-- Operations with one more waiter on the first one for a handle. -/
def enqueue (id : FlagId) (w : ω) : List (Operation ω) → List (Operation ω)
  | [] => []
  | op :: rest =>
    if op.flag = id then { op with waiters := op.waiters ++ [w] } :: rest
    else op :: enqueue id w rest

/-- The locked part of a call that is known as `who` and would wait as `w`. -/
def enter (r : Registry ω) (flag : Flag) (who : Initiator) (w : ω) : Admission × Registry ω :=
  if flag.isDone then (.done, r)
  else
    match r.find? flag.id with
    | some op =>
      if op.initiator = who then (.reentrant, r)
      else (.waiting (op.waiters.length + 1), ⟨enqueue flag.id w r.operations⟩)
    | none => (.won, ⟨r.operations ++ [{ flag := flag.id, initiator := who }]⟩)

/-- The list without the element at a position, which the last element takes. -/
def moveLastTo {α : Type} (l : List α) (i : Nat) : List α :=
  match l.getLast? with
  | none => []
  | some last => (l.set i last).dropLast

/-- The locked part of a completion: the waiters of the operation for a handle, and the registry
without it. -/
def retire (r : Registry ω) (id : FlagId) : Option (List ω × Registry ω) :=
  match r.operations.findIdx? fun op => op.flag = id with
  | none => none
  | some i =>
    match r.operations[i]? with
    | none => none
    | some op => some (op.waiters, ⟨moveLastTo r.operations i⟩)

/-- The number of those who wait for a handle. -/
def pending (r : Registry ω) (id : FlagId) : Nat :=
  match r.find? id with
  | some op => op.waiters.length
  | none => 0

/-- The number of initializations in flight. -/
def inFlight (r : Registry ω) : Nat := r.operations.length

end Registry

end RunOnce
