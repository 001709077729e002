import RunOnce.Text.Quoted
import RunOnce.Text.Shape

/-!
# Build capabilities

**The set** (`Capabilities`) is eight bits, of which four have names. Unknown bits are kept until
an operation truncates them.

**Its text** lists the named members in order of their bits, then what is left over in
hexadecimal; the empty set is written as the number zero.
-/

namespace RunOnce

open Text

/-- A set of build capabilities, one bit each. -/
structure Capabilities where
  bits : UInt8
deriving DecidableEq, Repr, Inhabited

namespace Capabilities

/-- Built with optimizations and without debug assertions. -/
def release : Capabilities := ⟨1⟩

/-- Built with debug assertions. -/
def debug : Capabilities := ⟨2⟩

/-- Linked against a static C library. -/
def static : Capabilities := ⟨4⟩

/-- Separately loaded images coordinate through a shared slot table. -/
def crossImage : Capabilities := ⟨8⟩

/-- The members with names, in order of their bits. -/
def named : List (String × Capabilities) :=
  [("RELEASE", release), ("DEBUG", debug), ("STATIC", static), ("CROSS_IMAGE", crossImage)]

/-- Every named member. -/
def known : Capabilities := ⟨15⟩

/-- The capabilities of this build. -/
def build : Capabilities := debug

/-- Members of either set. -/
def union (a b : Capabilities) : Capabilities := ⟨a.bits ||| b.bits⟩

/-- Members of both sets. -/
def inter (a b : Capabilities) : Capabilities := ⟨a.bits &&& b.bits⟩

/-- Members of exactly one set. -/
def symmDiff (a b : Capabilities) : Capabilities := ⟨a.bits ^^^ b.bits⟩

/-- Members of the first set that are not in the second. -/
def diff (a b : Capabilities) : Capabilities := ⟨a.bits &&& ~~~b.bits⟩

/-- The named members of the set. -/
def truncate (a : Capabilities) : Capabilities := a.inter known

/-- The named members that are not in the set. -/
def compl (a : Capabilities) : Capabilities := known.diff a

/-- Whether every member of the second set is in the first. -/
def contains (a b : Capabilities) : Bool := a.inter b = b

/-- Whether the sets share a member. -/
def intersects (a b : Capabilities) : Bool := (a.inter b).bits ≠ 0

/-- Whether the set has no member. -/
def isEmpty (a : Capabilities) : Bool := a.bits = 0

/-- Whether the set has every named member. -/
def isFull (a : Capabilities) : Bool := a.contains known

/-- The set of the given bits, if all of them have names. -/
def ofBits? (bits : UInt8) : Option Capabilities :=
  if (truncate ⟨bits⟩).bits = bits then some ⟨bits⟩ else none

/-- The member of the given name. -/
def ofName? (name : String) : Option Capabilities :=
  (named.find? fun member => member.1 = name).map (·.2)

/-- The named members of the set, in order of their bits. -/
def members (a : Capabilities) : List (String × Capabilities) :=
  named.filter fun member => a.contains member.2

/-- Whether the shared slot table should be used. -/
def isCrossImage (a : Capabilities) : Bool := a.contains crossImage

/-- The names of the members, with unnamed bits last in hexadecimal. -/
def label (a : Capabilities) : String :=
  let unnamed := (a.diff known).bits
  let hex := "0x" ++ hexDigits unnamed.toNat
  if a.isEmpty then hex
  else " | ".intercalate (a.members.map (·.1) ++ if unnamed = 0 then [] else [hex])

/-- The set for inspection. -/
def shape (a : Capabilities) : Shape := .tuple "Capabilities" [.word a.label]

end Capabilities

end RunOnce
