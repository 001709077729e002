/-!
# Decimal numerals of 32 bits

**The grammar.** An optional `+`, then one or more ASCII digits; leading zeros are allowed. The
value must be below `2 ^ 32`.

**The causes of refusal** (`NumeralError`), in the order in which they win: no characters at all,
a character that is no digit (a lone sign counts), a value that is too large. A character that is
no digit is reported when it is reached before the value has grown too large.
-/

namespace RunOnce.Text

/-- Why a text is no 32-bit numeral. -/
inductive NumeralError
  | empty
  | invalidDigit
  | tooLarge
deriving DecidableEq, Repr

/-- The wording of a refusal. -/
def NumeralError.message : NumeralError → String
  | .empty => "cannot parse integer from empty string"
  | .invalidDigit => "invalid digit found in string"
  | .tooLarge => "number too large to fit in target type"

/-- The value of an ASCII digit. -/
def digitValue? (c : Char) : Option Nat :=
  if '0' ≤ c ∧ c ≤ '9' then some (c.toNat - '0'.toNat) else none

/-- Reads digits onto the value read so far and refuses at the first fault. -/
def readDigits : List Char → Nat → Except NumeralError Nat
  | [], value => .ok value
  | c :: rest, value =>
    match digitValue? c with
    | none => .error .invalidDigit
    | some d =>
      if value * 10 + d < UInt32.size then readDigits rest (value * 10 + d) else .error .tooLarge

/-- Reads a numeral of 32 bits. -/
def parseUInt32 : List Char → Except NumeralError UInt32
  | [] => .error .empty
  | ['+'] => .error .invalidDigit
  | '+' :: rest => (readDigits rest 0).map UInt32.ofNat
  | cs => (readDigits cs 0).map UInt32.ofNat

end RunOnce.Text
