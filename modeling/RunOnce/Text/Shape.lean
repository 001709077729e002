/-!
# Inspection forms

**The form** (`Shape`) of a value is a word, a name with fields in order, a name with labelled
fields, or a list. It is written in two ways: `Shape.inline` on one line, and `Shape.indented`
with one field a line, four spaces deeper than its parent, each line ending in a comma.
-/

namespace RunOnce.Text

/-- How a value is shown for inspection. -/
inductive Shape
  | word (text : String)
  | tuple (name : String) (fields : List Shape)
  | labelled (name : String) (fields : List (String × Shape))
  | list (items : List Shape)

namespace Shape

mutual
/-- The form on one line. -/
def inline : Shape → String
  | .word text => text
  | .tuple name fields => name ++ "(" ++ ", ".intercalate (inlineAll fields) ++ ")"
  | .labelled name fields =>
    name ++ " \x7b " ++ ", ".intercalate (inlineLabelled fields) ++ " \x7d"
  | .list items => "[" ++ ", ".intercalate (inlineAll items) ++ "]"
/-- Each form on one line. -/
def inlineAll : List Shape → List String
  | [] => []
  | s :: rest => s.inline :: inlineAll rest
/-- Each form on one line, after its label. -/
def inlineLabelled : List (String × Shape) → List String
  | [] => []
  | (label, s) :: rest => (label ++ ": " ++ s.inline) :: inlineLabelled rest
end

/-- Four spaces a level. -/
def margin (level : Nat) : String := String.ofList (List.replicate (4 * level) ' ')

mutual
/-- The form with one field a line, where the first line starts at the given level. -/
def indentedAt : Shape → Nat → String
  | .word text, _ => text
  | .tuple name fields, level =>
    name ++ "(\n" ++ indentedAll fields (level + 1) ++ margin level ++ ")"
  | .labelled name fields, level =>
    name ++ " \x7b\n" ++ indentedLabelled fields (level + 1) ++ margin level ++ "\x7d"
  | .list [], _ => "[]"
  | .list (item :: items), level =>
    "[\n" ++ indentedAll (item :: items) (level + 1) ++ margin level ++ "]"
/-- The lines of fields in order. -/
def indentedAll : List Shape → Nat → String
  | [], _ => ""
  | s :: rest, level => margin level ++ s.indentedAt level ++ ",\n" ++ indentedAll rest level
/-- The lines of labelled fields. -/
def indentedLabelled : List (String × Shape) → Nat → String
  | [], _ => ""
  | (label, s) :: rest, level =>
    margin level ++ label ++ ": " ++ s.indentedAt level ++ ",\n" ++ indentedLabelled rest level
end

/-- The form with one field a line. -/
def indented (s : Shape) : String := s.indentedAt 0

end Shape

end RunOnce.Text
