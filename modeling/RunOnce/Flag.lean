import RunOnce.Text.Shape

/-!
# Completion flags

**The handle** (`FlagId`) is a small number given to a lazily initialized global when it is
declared. Registries and slot tables are keyed by it, so two flags with one handle name the same
initialization.

**The flag** (`Flag`) says whether the initializer has completed. It is set once and never
cleared: `complete` is the only operation that changes it.
-/

namespace RunOnce

open Text

/-- Handle that names one lazily initialized global. -/
structure FlagId where
  index : UInt32
deriving DecidableEq, Repr, Inhabited

namespace FlagId

/-- The handle as it stands in messages. -/
def label (id : FlagId) : String := "#" ++ toString id.index.toNat

/-- The handle for inspection. -/
def shape (id : FlagId) : Shape := .tuple "FlagId" [.word (toString id.index.toNat)]

/-- Handles are ordered by index. -/
instance : Ord FlagId := ⟨fun a b => compare a.index.toNat b.index.toNat⟩

/-- Inserts a handle into an ascending list, once. -/
def insertAscending (id : FlagId) : List FlagId → List FlagId
  | [] => [id]
  | other :: rest =>
    match compare id other with
    | .lt => id :: other :: rest
    | .eq => other :: rest
    | .gt => other :: insertAscending id rest

/-- The handles in ascending order, each once. -/
def ascending (ids : List FlagId) : List FlagId := ids.foldr insertAscending []

end FlagId

/-- Whether the initializer of one global has completed. -/
structure Flag where
  id : FlagId
  isDone : Bool := false
deriving DecidableEq, Repr, Inhabited

namespace Flag

/-- The flag once its initializer has completed. -/
def complete (f : Flag) : Flag := { f with isDone := true }

/-- The flag for inspection. -/
def shape (f : Flag) : Shape :=
  .labelled "OnceFlag" [("id", f.id.shape), ("done", .word (if f.isDone then "true" else "false"))]

@[simp] theorem isDone_complete (f : Flag) : f.complete.isDone = true := rfl

@[simp] theorem id_complete (f : Flag) : f.complete.id = f.id := rfl

end Flag

end RunOnce
