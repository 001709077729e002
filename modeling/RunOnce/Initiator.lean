/-!
# Who starts an initialization

**The identity** (`Initiator`). A blocking call is known by its thread. An asynchronous call gets
a token of its own, and every call that its initializer makes carries the same token. A call is
reentrant when it meets an initialization in flight under its own identity.
-/

namespace RunOnce

/-- The identity under which a call initializes. -/
inductive Initiator
  | thread (name : String)
  | scope (token : Nat)
deriving DecidableEq, Repr, Inhabited

namespace Initiator

/-- The token of an asynchronous initializer. -/
def token? : Initiator → Option Nat
  | .thread _ => none
  | .scope token => some token

/-- The identity as it stands in messages, under a numbering of the tokens. -/
def label (number : Nat → Nat) : Initiator → String
  | .thread name => "Thread(" ++ name ++ ")"
  | .scope token => "Scope(" ++ toString (number token) ++ ")"

end Initiator

end RunOnce
