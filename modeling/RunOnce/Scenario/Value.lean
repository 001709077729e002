import RunOnce.Text.Quoted
import RunOnce.Text.Shape

/-!
# Values of globals in a scenario

**The value** (`Value`) is a scalar or a list of values. For inspection a number stands as it is, a
text is quoted, and a list is a list.
-/

namespace RunOnce.Scenario

open Text

/-- What a global of a scenario may hold. -/
inductive Value
  | null
  | bool (b : Bool)
  | int (n : Int)
  | text (s : String)
  | list (items : List Value)
deriving Inhabited

mutual
/-- The value for inspection. -/
def Value.shape : Value → Shape
  | .null => .word "null"
  | .bool b => .word (if b then "true" else "false")
  | .int n => .word (toString n)
  | .text s => .word (quote s)
  | .list items => .list (Value.shapes items)
/-- The values for inspection. -/
def Value.shapes : List Value → List Shape
  | [] => []
  | v :: rest => v.shape :: Value.shapes rest
end

end RunOnce.Scenario
