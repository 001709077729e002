/-!
# Reading bytes as text, faults included

**The rule** (`decodeLossy`). Well-formed UTF-8 is read as it stands. Where it is not well formed,
the longest run of bytes that could have begun a character becomes one U+FFFD, and reading goes on
at the next byte.
-/

namespace RunOnce.Text

/-- Stands for bytes that form no character. -/
def replacement : Char := Char.ofNat 0xFFFD

/-- How many bytes follow a first byte, and the range in which the second must lie. -/
def followers (first : UInt8) : Nat × UInt8 × UInt8 :=
  if 0xC2 ≤ first && first ≤ 0xDF then (1, 0x80, 0xBF)
  else if first = 0xE0 then (2, 0xA0, 0xBF)
  else if first = 0xED then (2, 0x80, 0x9F)
  else if 0xE1 ≤ first && first ≤ 0xEF then (2, 0x80, 0xBF)
  else if first = 0xF0 then (3, 0x90, 0xBF)
  else if 0xF1 ≤ first && first ≤ 0xF3 then (3, 0x80, 0xBF)
  else if first = 0xF4 then (3, 0x80, 0x8F)
  else (0, 1, 0)

/-- The bits of a first byte that belong to the code point. -/
def leadBits (first : UInt8) : Nat :=
  if first < 0xE0 then first.toNat % 0x20
  else if first < 0xF0 then first.toNat % 0x10
  else first.toNat % 0x08

/-- Reads `n` more bytes onto a code point, the first of them in the given range. -/
def readFollowers : Nat → UInt8 × UInt8 → Nat → List UInt8 → Char × List UInt8
  | 0, _, code, rest => (Char.ofNat code, rest)
  | n + 1, (low, high), code, b :: rest =>
    if low ≤ b && b ≤ high then
      readFollowers n (0x80, 0xBF) (code * 0x40 + b.toNat % 0x40) rest
    else (replacement, b :: rest)
  | _ + 1, _, _, [] => (replacement, [])

/-- Reads one character after its first byte. -/
def readChar (first : UInt8) (rest : List UInt8) : Char × List UInt8 :=
  if first < 0x80 then (Char.ofNat first.toNat, rest)
  else
    match followers first with
    | (0, _, _) => (replacement, rest)
    | (n + 1, low, high) => readFollowers (n + 1) (low, high) (leadBits first) rest

/-- Reads at most so many characters. -/
def readChars : Nat → List UInt8 → List Char
  | _, [] => []
  | 0, _ => []
  | n + 1, b :: bs =>
    match readChar b bs with
    | (c, rest) => c :: readChars n rest

/-- The text that the bytes hold, with faults replaced. -/
def decodeLossy (bytes : List UInt8) : String := String.ofList (readChars bytes.length bytes)

end RunOnce.Text
