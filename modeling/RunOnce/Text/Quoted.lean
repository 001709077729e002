import RunOnce.Text.Printable

/-!
# Quoted text

**The format.** A quoted text stands between double quotes. Tab, carriage return, newline, NUL,
the double quote and the backslash have a letter of their own after a backslash; a character that
is hidden or extends the one before it is written by its code point in hexadecimal, between
braces; every other character, the single quote too, stands for itself.
-/

namespace RunOnce.Text

/-- The lowercase hexadecimal digits of a number. -/
def hexDigits (n : Nat) : String := String.ofList (Nat.toDigits 16 n)

/-- One character inside quotes. -/
def escapeChar (c : Char) : String :=
  if c = '\t' then "\\t"
  else if c = '\r' then "\\r"
  else if c = '\n' then "\\n"
  else if c.toNat = 0 then "\\0"
  else if c = '"' then "\\\""
  else if c = '\\' then "\\\\"
  else if extendsGrapheme c || isHidden c then "\\u\x7b" ++ hexDigits c.toNat ++ "\x7d"
  else c.toString

/-- The text between quotes. -/
def quote (s : String) : String :=
  "\"" ++ String.join (s.toList.map escapeChar) ++ "\""

end RunOnce.Text
