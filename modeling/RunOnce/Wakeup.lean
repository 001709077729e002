/-!
# Handing control back to a waiter

**The cell of a thread** (`Wakeup`). A flag and whether the thread sleeps on it. The waiting side
looks at the flag and, if it is clear, parks: the flag is looked at again and the thread sleeps in
one step. The resuming side sets the flag and then wakes a sleeper. A sleeper may also wake for no
reason; it looks at the flag again.

**The signal** (`Signal`) of a waiter is such a cell for a thread, and a channel for one message
for a task.
-/

namespace RunOnce

/-- One-shot cell on which a thread sleeps until it is woken. -/
structure Wakeup where
  isSet : Bool := false
  isAsleep : Bool := false
deriving DecidableEq, Repr

namespace Wakeup

/-- Looks at the flag and sleeps if it is clear, in one step. -/
def park (w : Wakeup) : Wakeup := if w.isSet then w else { w with isAsleep := true }

/-- Sets the flag. -/
def store (w : Wakeup) : Wakeup := { w with isSet := true }

/-- Ends the sleep of the thread, if it sleeps. -/
def unpark (w : Wakeup) : Wakeup := { w with isAsleep := false }

/-- Hands control back: sets the flag, then ends the sleep. -/
def wake (w : Wakeup) : Wakeup := w.store.unpark

end Wakeup

/-- What a waiter waits on. -/
inductive Signal
  | cell (wakeup : Wakeup)
  | channel (sent : Bool)
deriving DecidableEq, Repr

namespace Signal

/-- Whether the waiter may go on. -/
def isRaised : Signal → Bool
  | .cell w => w.isSet
  | .channel sent => sent

/-- Lets the waiter go on. -/
def raise : Signal → Signal
  | .cell w => .cell w.wake
  | .channel _ => .channel true

end Signal

end RunOnce
