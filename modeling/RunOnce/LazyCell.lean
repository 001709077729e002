/-!
# Storage of a lazily initialized global

**The cell** (`LazyCell`) has room for one value. It moves from empty over writing to stored and
never back: `claim` wins the right to write once, `publish` makes the value readable.

**Binding.** The first access that needs the initializer ties the cell to its context for good;
`bind` tells whether a context is the one.
-/

namespace RunOnce

/-- How far a cell has come. -/
inductive Content (α : Type)
  | empty
  | writing
  | stored (value : α)
deriving DecidableEq, Repr

/-- A global computed on first access, with the flag that guards it and the context that it is
bound to. Flags and contexts are named by keys. -/
structure LazyCell (α : Type) where
  flag : Nat
  bound : Option Nat := none
  content : Content α := .empty
deriving DecidableEq, Repr

namespace LazyCell

variable {α : Type}

/-- The value, once it can be read. -/
def value? (c : LazyCell α) : Option α :=
  match c.content with
  | .stored value => some value
  | .empty | .writing => none

/-- Ties the cell to a context, unless it is tied to another one. -/
def bind (c : LazyCell α) (context : Nat) : Option (LazyCell α) :=
  match c.bound with
  | none => some { c with bound := some context }
  | some other => if other = context then some c else none

/-- Wins the right to write, which only an empty cell gives. -/
def claim (c : LazyCell α) : Option (LazyCell α) :=
  match c.content with
  | .empty => some { c with content := .writing }
  | .writing | .stored _ => none

/-- Makes a value readable. -/
def publish (c : LazyCell α) (value : α) : LazyCell α := { c with content := .stored value }

end LazyCell

end RunOnce
