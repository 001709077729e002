import RunOnce.Record
import RunOnce.Text.Blank
import RunOnce.Text.Numeral

/-!
# Settings of the shared path

**The settings** (`Config`): the tag that names the shared region, the number of slots, and how
often a poller yields before it sleeps.

**The environment** (`Environment`) holds up to three values as bytes. A value that is not UTF-8
is passed over in silence. `Config.ofEnvironment` starts from the defaults, takes each value that
is well formed, and leaves one record for each that is not, in the order tag, slots, spins.
-/

namespace RunOnce

open Text

/-- Settings of the shared path. -/
structure Config where
  regionTag : String := "once_latch"
  slotCount : UInt32 := 4096
  pollSpins : UInt32 := 64
deriving DecidableEq, Repr, Inhabited

/-- The values of the three environment variables, where they are set. -/
structure Environment where
  regionTag : Option ByteArray := none
  slotCount : Option ByteArray := none
  pollSpins : Option ByteArray := none

namespace Environment

/-- Overrides the tag. -/
def tagVariable : String := "ONCE_LATCH_REGION_TAG"

/-- Overrides the number of slots. -/
def slotsVariable : String := "ONCE_LATCH_SLOTS"

/-- Overrides the yields between polls. -/
def spinsVariable : String := "ONCE_LATCH_POLL_SPINS"

/-- The text of a value, unless it is missing or not UTF-8. -/
def text? (value : Option ByteArray) : Option String := value.bind String.fromUTF8?

end Environment

namespace Config

/-- Whether a tag may name a region: it has a character, and neither a slash nor a NUL. -/
def isTag (tag : String) : Bool :=
  !tag.toList.isEmpty && tag.toList.all fun c => c ≠ '/' && c.toNat ≠ 0

/-- Reads the tag, and what to say about it. -/
def readTag (raw : Option String) : Option String × List Record :=
  match raw with
  | none => (none, [])
  | some tag =>
    if isTag tag then (some tag, [])
    else (none,
      [.ignoredSetting Environment.tagVariable (quote tag) "not a valid region tag"])

/-- Reads a number, and what to say about it. -/
def readNumber (variableName : String) (raw : Option String) : Option UInt32 × List Record :=
  match raw with
  | none => (none, [])
  | some value =>
    match parseUInt32 (trimBlank value.toList) with
    | .ok n => (some n, [])
    | .error e => (none, [.ignoredSetting variableName (quote value) e.message])

/-- Refuses zero. -/
def positive (variableName : String) :
    Option UInt32 × List Record → Option UInt32 × List Record
  | (some n, records) =>
    if n = 0 then (none, records ++ [.ignoredZero variableName]) else (some n, records)
  | (none, records) => (none, records)

/-- The settings that an environment asks for, and what was ignored in it. -/
def ofEnvironment (env : Environment) : Config × List Record :=
  let base : Config := {}
  let (tag, tagRecords) := readTag (Environment.text? env.regionTag)
  let (slots, slotRecords) := positive Environment.slotsVariable
    (readNumber Environment.slotsVariable (Environment.text? env.slotCount))
  let (spins, spinRecords) :=
    readNumber Environment.spinsVariable (Environment.text? env.pollSpins)
  ({ regionTag := tag.getD base.regionTag
     slotCount := slots.getD base.slotCount
     pollSpins := spins.getD base.pollSpins },
    tagRecords ++ slotRecords ++ spinRecords)

/-- The settings for inspection. -/
def shape (c : Config) : Shape :=
  .labelled "OnceConfig"
    [("region_tag", .word (quote c.regionTag)),
     ("slot_count", .word (toString c.slotCount.toNat)),
     ("poll_spins", .word (toString c.pollSpins.toNat))]

end Config

end RunOnce
