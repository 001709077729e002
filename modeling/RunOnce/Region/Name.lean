import RunOnce.Failure
import RunOnce.Text.Numeral

/-!
# Names of shared regions

**The name** of a region is a slash, a tag, an underscore and the process id of its creator:
`regionName`. A valid name has no second slash and at most 255 bytes.

**Reading a name back** (`creator?`) strips the tag and reads the rest as a numeral of 32 bits.
-/

namespace RunOnce.Region

open Text

/-- The longest name of an object, in bytes. -/
def maxNameBytes : Nat := 255

/-- The name of the region that a process creates for a tag. -/
def regionName (tag : String) (pid : UInt32) : String := "/" ++ tag ++ "_" ++ toString pid.toNat

/-- The name of the lock file of a tag. -/
def lockName (tag : String) : String := tag ++ ".lock"

/-- Refuses a name that cannot name an object. -/
def checkName (name : String) : Except RegionError Unit :=
  match name.toList with
  | '/' :: rest =>
    if rest.contains '/' then
      .error (.invalidName ("Region name cannot contain '/' after prefix: " ++ name))
    else if maxNameBytes < name.utf8ByteSize then
      .error (.invalidName ("Region name too long (max 255): " ++ name))
    else .ok ()
  | _ => .error (.invalidName ("Region name must start with '/': " ++ name))

/-- The creator of the region with the given file name, if the file is a region of the tag. -/
def creator? (tag : String) (fileName : String) : Option UInt32 :=
  match (tag.toList ++ ['_']).isPrefixOf? fileName.toList with
  | none => none
  | some digits => (parseUInt32 digits).toOption

end RunOnce.Region
