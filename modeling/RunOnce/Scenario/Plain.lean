import RunOnce.Scenario.Machine

/-!
# Steps that end at once

Making and dropping flags, globals, targets and regions; looking at the directory of shared objects
and changing it by hand; looking at flags, slots and queues. None of them is ever suspended, and
none of them panics.
-/

namespace RunOnce.Scenario

open Region Protocol Text

namespace Machine

/-- What an event shows of a region. -/
def regionView (m : Machine) (mapping : Mapping) : RegionView :=
  { name := m.shownName mapping.name
    size := mapping.size
    isOwner := mapping.isOwner }

/-- What an event shows of a new target. -/
def targetReport (m : Machine) (target : Target) : TargetReport :=
  { context := target.capabilities.map fun caps => (caps, target.isShared, target.isShared)
    region := target.table?.map fun table => m.regionView table.mapping }

/-- The machine with another image of the shared objects. -/
def setImage (m : Machine) (image : Image) : Machine :=
  { m with protocol := { m.protocol with image } }

/-- The directory of shared objects. -/
def directory (m : Machine) : Directory := m.protocol.image.directory

/-- The machine with another directory of shared objects. -/
def setDirectory (m : Machine) (directory : Directory) : Machine :=
  m.setImage { m.protocol.image with directory }

/-! ## Flags and globals -/

/-- Makes a flag under a name. -/
def nameFlag (m : Machine) (name : String) (flag : Flag) : Machine :=
  let old := m.unnameFlag name
  let (key, protocol) := old.protocol.newFlag flag
  { old with protocol, names := { old.names with flags := old.names.flags.set name key } }

/-- Makes flags with consecutive handles. -/
def nameFlags (stem : String) : Nat → Nat → Machine → Machine
  | _, 0, m => m
  | start, count + 1, m =>
    nameFlags stem (start + 1) count
      (m.nameFlag (stem ++ toString start) { id := ⟨UInt32.ofNat start⟩ })

/-- Makes a global under a name. -/
def nameCell (m : Machine) (name : String) (id : FlagId) (value : Option Value) : Machine :=
  let old := m.unnameCell name
  let (key, protocol) := old.protocol.newCell id value
  { old with protocol, names := { old.names with cells := old.names.cells.set name key } }

/-! ## Targets and regions -/

/-- Makes what a target step asks for. The records come before those of the making itself. -/
def buildTarget (m : Machine) : TargetKind → Except RegionError Target × Machine
  | .inProcess => (.ok .inProcess, m)
  | .localContext => (.ok .localContext, m)
  | .context caps settings =>
    let (config, ignored) := settings.resolve
    let (result, image, records) := Target.context m.protocol.image caps config
    (result, (m.setImage image).emitRecords (ignored ++ records))
  | .attach settings =>
    let (config, ignored) := settings.resolve
    let (result, image, records) := SlotTable.attach m.protocol.image config
    (result.map .ofTable, (m.setImage image).emitRecords (ignored ++ records))
  | .overRegion region settings =>
    let (config, ignored) := settings.resolve
    match m.names.regions.get? region with
    | none => (.error .unsupported, m.stop (.unknownName region))
    | some mapping =>
      let taken := { m with names := { m.names with regions := m.names.regions.erase region } }
      let (result, image, records) := SlotTable.ofMapping taken.protocol.image mapping config
      (result.map .ofTable, (taken.setImage image).emitRecords (ignored ++ records))

/-- Makes a target under a name. The one that had the name before is dropped last. -/
def nameTarget (m : Machine) (name : String) (kind : TargetKind) : Machine :=
  let (result, built) := m.buildTarget kind
  match result with
  | .error e => built.emit (.target name (.error (e.mapName m.shownName)))
  | .ok target =>
    let shown := built.emit (.target name (.ok (built.targetReport target)))
    let (key, protocol) := shown.protocol.newTarget target
    let old := { shown with protocol }.unnameTarget name
    { old with names := { old.names with targets := old.names.targets.set name key } }

/-- Makes what a region step asks for. -/
def buildRegion (i : Image) (tag : String) (size : Nat) :
    Opening → Except RegionError (Option Mapping) × Image × List Record
  | .create =>
    let (result, image, records) := i.create tag size
    (result.map some, image, records)
  | .openOnly =>
    let (result, image, records) := i.open? tag size
    (.ok result, image, records)
  | .openOrCreate =>
    let (result, image, records) := i.openOrCreate tag size
    (result.map some, image, records)

/-- Makes a region under a name. The one that had the name before is dropped last. -/
def nameRegion (m : Machine) (name : String) (how : Opening) (tag : String) (size : Nat) :
    Machine :=
  let (result, image, records) := buildRegion m.protocol.image tag size how
  let built := (m.setImage image).emitRecords records
  match result with
  | .error e => built.emit (.region name (.error (e.mapName m.shownName)))
  | .ok none => built.emit (.region name (.ok none))
  | .ok (some mapping) =>
    let shown := built.emit (.region name (.ok (some (built.regionView mapping))))
    let old := shown.unnameRegion name
    { old with names := { old.names with regions := old.names.regions.set name mapping } }

/-- Drops whatever has a name. -/
def dropNamed (m : Machine) (name : String) : Machine :=
  (((m.unnameFlag name).unnameCell name).unnameTarget name).unnameRegion name

/-- Cleans up the regions of a tag. -/
def cleanup (m : Machine) (tag : String) : Machine :=
  let (count, image, records) := m.protocol.image.cleanup tag
  ((m.setImage image).emitRecords records).emit (.cleanup count)

/-! ## The directory by hand -/

/-- The name that a tag and a suffix make. -/
def plantedName (m : Machine) (tag : String) (suffix : Suffix) : FileName :=
  suffix.fileName m.protocol.image.self tag

/-- Puts something into the directory. A file that is there already is emptied and resized. -/
def plant (m : Machine) (tag : String) (suffix : Suffix) (what : Planted) : Machine :=
  let name := m.plantedName tag suffix
  let d := m.directory
  match what, d.find? name with
  | .file size, none => m.setDirectory (d.linkFile name size).2
  | .file size, some (.file object) =>
    m.setDirectory { d with objects := d.objects.set object { size } }
  | .directory, none => m.setDirectory (d.link name .directory)
  | .link, none => m.setDirectory (d.link name (.link (.elsewhere none)))
  | _, some _ => m

/-- Whether a name starts with a tag. -/
def belongsTo (tag : String) (name : FileName) : Bool :=
  tag.toUTF8.toList.isPrefixOf name.bytes

/-- The objects of a tag with their sizes, in order of the names as shown, then of the sizes. -/
def listing (m : Machine) (tag : String) : List (String × Nat) :=
  let objects := (m.directory.entries.filter fun e => belongsTo tag e.1).map fun (name, node) =>
    (m.shownName name.shown, m.directory.sizeOf node)
  objects.mergeSort fun a b => decide (a.1 < b.1) || (decide (a.1 = b.1) && decide (a.2 ≤ b.2))

/-- The object behind the name of a region or of a target with a table. -/
def objectOf? (m : Machine) (name : String) : Option Nat :=
  match m.names.regions.get? name with
  | some mapping => some mapping.object
  | none =>
    ((m.targetKey? name).bind m.protocol.targets.get?).bind fun target =>
      target.table?.map fun table => table.mapping.object

/-! ## Looking -/

/-- What a global shows of itself. -/
def cellShape (flag : Flag) (value : Option Value) : Shape :=
  .tuple "LazyGlobal" [flag.id.shape, match value with
    | some v => v.shape
    | none => .word "<uninit>"]

/-- Shows a form in both ways. -/
def inspect (m : Machine) (shape : Shape) : Machine :=
  m.emit (.inspected shape.inline shape.indented)

/-- The flag under a name. -/
def flagNamed? (m : Machine) (name : String) : Option Flag :=
  (m.names.flags.get? name).bind m.protocol.flags.get?

/-- The flag and the value of the global under a name. -/
def cellNamed? (m : Machine) (name : String) : Option (Flag × Option Value) :=
  ((m.names.cells.get? name).bind m.protocol.cells.get?).bind fun cell =>
    (m.protocol.flags.get? cell.flag).map fun flag => (flag, cell.value?)

/-- The target under a name. -/
def targetNamed? (m : Machine) (name : String) : Option Target :=
  (m.targetKey? name).bind m.protocol.targets.get?

end Machine

end RunOnce.Scenario
