import RunOnce.Record
import RunOnce.Region.Directory
import RunOnce.Region.Name

/-!
# Creating, opening and cleaning up regions

**An image** (`Image`) is one loaded copy of the library: the process that it runs in, the
processes that are alive, the directory of shared objects, and the names that it owns. A region
whose creator is another process is stale when that process is gone; one that this process created
is stale when no owner here has its name.

**Under the tag's lock** run the scan for a live region (`seek`) and the creation of a new one
(`make`); `openOrCreate`, `create` and `open?` take the lock and combine the two. A live
region that cannot be used is an error, and never replaced.
-/

namespace RunOnce.Region

/-- A region mapped into the process. -/
structure Mapping where
  object : Nat
  size : Nat
  name : String
  isOwner : Bool
deriving DecidableEq, Repr

/-- Which sizes the system maps, and why it refuses the others. Nothing is mapped at no size, and
`2 ^ 34` bytes, which is more than the largest table has, can always be mapped. -/
structure AddressSpace where
  fault? : Nat → Option OsError
  fault?_zero : fault? 0 = some .invalidArgument
  fault?_small : ∀ size, 0 < size → size ≤ 0x400000000 → fault? size = none

/-- Sizes beyond this one do not fit the largest free stretch of an address space of 47 bits, which
is about two thirds of it: what the process has mapped already divides the rest. -/
def largestStretch : Nat := (0x800000000000 - 0x1000) / 3 * 2

/-- The address space of a process that has mapped little. -/
def AddressSpace.roomy : AddressSpace where
  fault? size :=
    if size = 0 then some .invalidArgument
    else if largestStretch < size then some .outOfMemory
    else none
  fault?_zero := rfl
  fault?_small size pos small := by
    have hfits : ¬largestStretch < size := Nat.not_lt_of_le (Nat.le_trans small (by decide))
    rw [if_neg (Nat.ne_of_gt pos), if_neg hfits]

/-- One loaded copy of the library, and what it sees of the system. -/
structure Image where
  self : UInt32
  isAlive : UInt32 → Bool
  directory : Directory := {}
  owned : List String := []
  space : AddressSpace := .roomy

/-- The file behind the name of an object. -/
def fileOf (name : String) : FileName := .text (String.ofList (name.toList.drop 1))

/-- Sizes from here on, so from `2 ^ 63`, cannot be given to a file. -/
def fileSizeLimit : Nat := 0x8000000000000000

namespace Image

/-! ## Single steps -/

/-- Takes the lock of a tag. The lock is on the file of its name, which is made if it is missing. -/
def lock (i : Image) (tag : String) : Except RegionError Image :=
  match checkName (regionName tag 0) with
  | .error e => .error e
  | .ok () =>
    if tag.toList.any fun c => c.toNat = 0 then .error (.lockFailed .interiorNul)
    else
      match i.directory.openFile (.text (lockName tag)) with
      | .error cause => .error (.lockFailed cause)
      | .ok directory => .ok { i with directory }

/-- The regions of a tag in the order of a scan, each with its creator. -/
def list (i : Image) (tag : String) : List (String × UInt32) :=
  i.directory.entries.filterMap fun e =>
    match e.1 with
    | .raw _ => none
    | .text name => (creator? tag name).map fun pid => ("/" ++ name, pid)

/-- Whether a process with the given id exists. -/
def processExists (i : Image) (pid : UInt32) : Bool :=
  decide (pid.toNat < 0x80000000) && i.isAlive pid

/-- Whether the region can no longer have a creator. -/
def isStale (i : Image) (name : String) (pid : UInt32) : Bool :=
  if pid = i.self then !i.owned.contains name else !i.processExists pid

/-- Removes the name of an object and tells whether it was removed. -/
def unlink (i : Image) (name : String) : Bool × Image :=
  let (removed, directory) := i.directory.unlink (fileOf name)
  (removed, { i with directory })

/-- Writes down that a name is owned here. -/
def own (i : Image) (name : String) : Image := { i with owned := i.owned ++ [name] }

/-- Strikes a name from those owned here. -/
def disown (i : Image) (name : String) : Image :=
  { i with owned := i.owned.filter fun other => !decide (other = name) }

/-! ## Cleaning up -/

/-- Removes the stale ones among the listed regions, and counts them. -/
def sweep : List (String × UInt32) → Image → Nat × Image × List Record
  | [], i => (0, i, [])
  | (name, pid) :: rest, i =>
    if i.isStale name pid then
      let (removed, cleaned) := i.unlink name
      let (count, last, records) := sweep rest cleaned
      if removed then (count + 1, last, .staleRemoved name :: records) else (count, last, records)
    else sweep rest i

/-- Removes the stale regions of a tag under its lock, and counts them. -/
def cleanup (i : Image) (tag : String) : Nat × Image × List Record :=
  match i.lock tag with
  | .error e => (0, i, [.cleanupSkipped tag e])
  | .ok locked => sweep (locked.list tag) locked

/-! ## Creating -/

/-- Sizes and maps a fresh object; if that fails, the object's name goes again. -/
def equip (i : Image) (name : String) (object size : Nat) : Except RegionError Mapping × Image :=
  let fail (e : RegionError) : Except RegionError Mapping × Image := (.error e, (i.unlink name).2)
  if fileSizeLimit ≤ size then fail (.createFailed .invalidArgument)
  else
    match i.space.fault? size with
    | some e => fail (.mapFailed e)
    | none =>
      (.ok { object, size, name, isOwner := true },
        { i with directory := i.directory.resize object size })

/-- Makes a region of its own for a tag whose lock is held. -/
def make (i : Image) (tag : String) (size : Nat) :
    Except RegionError Mapping × Image × List Record :=
  let name := regionName tag i.self
  match checkName name with
  | .error e => (.error e, i, [])
  | .ok () =>
    if name.toList.any fun c => c.toNat = 0 then (.error (.invalidName name), i, [])
    else
      let (count, cleaned, removals) := sweep (i.list tag) i
      let records := if count = 0 then removals else removals ++ [.staleTotal count tag]
      match cleaned.directory.find? (fileOf name) with
      | some _ => (.error (.createFailed .fileExists), cleaned, records)
      | none =>
        let (object, directory) := cleaned.directory.linkFile (fileOf name) 0
        match equip { cleaned with directory } name object size with
        | (.error e, failed) => (.error e, failed, records)
        | (.ok mapping, made) =>
          (.ok mapping, made.own name, records ++ [.regionCreated name size])

/-- Makes a region of its own for a tag. -/
def create (i : Image) (tag : String) (size : Nat) :
    Except RegionError Mapping × Image × List Record :=
  match i.lock tag with
  | .error e => (.error e, i, [])
  | .ok locked => locked.make tag size

/-! ## Opening -/

/-- Maps the object of the given name, which must be large enough. -/
def mapExisting (i : Image) (name : String) (size : Nat) : Except RegionError (Option Mapping) :=
  match checkName name with
  | .error e => .error e
  | .ok () =>
    match i.directory.find? (fileOf name) with
    | none => .ok none
    | some .directory => .error (.openFailed .invalidArgument)
    | some (.link _) => .error (.openFailed .symbolicLink)
    | some (.file object) =>
      let actual := i.directory.sizeOf (.file object)
      if actual < size then .error (.tooSmall actual size)
      else
        match i.space.fault? size with
        | some e => .error (.mapFailed e)
        | none => .ok (some { object, size, name, isOwner := false })

/-- Opens the first usable one among the listed regions that are not stale. If none is usable, the
first failure counts. -/
def mapFirst (i : Image) (size : Nat) (failure : Option RegionError) :
    List (String × UInt32) → Except RegionError (Option Mapping) × List Record
  | [] =>
    match failure with
    | some e => (.error e, [])
    | none => (.ok none, [])
  | (name, pid) :: rest =>
    if i.isStale name pid then mapFirst i size failure rest
    else
      match i.mapExisting name size with
      | .ok (some mapping) => (.ok (some mapping), [.regionOpened name size])
      | .ok none => mapFirst i size failure rest
      | .error e =>
        let (result, records) := mapFirst i size (some (failure.getD e)) rest
        (result, .regionUnusable name e :: records)

/-- The live region of a tag whose lock is held, if there is one. -/
def seek (i : Image) (tag : String) (size : Nat) :
    Except RegionError (Option Mapping) × List Record :=
  i.mapFirst size none (i.list tag)

/-- The live region of a tag, or nothing. -/
def open? (i : Image) (tag : String) (size : Nat) : Option Mapping × Image × List Record :=
  match i.lock tag with
  | .error e => (none, i, [.openFailed tag e])
  | .ok locked =>
    match locked.seek tag size with
    | (.ok mapping, records) => (mapping, locked, records)
    | (.error e, records) => (none, locked, records ++ [.openFailed tag e])

/-- The live region of a tag, or a new one if there is none. -/
def openOrCreate (i : Image) (tag : String) (size : Nat) :
    Except RegionError Mapping × Image × List Record :=
  match i.lock tag with
  | .error e => (.error e, i, [])
  | .ok locked =>
    match locked.seek tag size with
    | (.ok (some mapping), records) => (.ok mapping, locked, records)
    | (.ok none, records) =>
      let (result, made, later) := locked.make tag size
      (result, made, records ++ later)
    | (.error e, records) => (.error e, locked, records)

/-! ## Letting go -/

/-- Ends a mapping. An owner removes the object's name, then strikes it from its own. -/
def release (i : Image) (m : Mapping) : Image × List Record :=
  if m.isOwner then (((i.unlink m.name).2).disown m.name, [.regionUnlinked m.name]) else (i, [])

end Image

end RunOnce.Region
