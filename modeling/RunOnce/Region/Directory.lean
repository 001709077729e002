import RunOnce.Region.Name
import RunOnce.Store
import RunOnce.Text.Lossy

/-!
# The directory of shared objects

**The directory** (`Directory`) lists names in the order in which a scan meets them, the newest
first. A name stands for a file, a directory or a symbolic link. Files are objects: they have a size
and words, and live on under their key when the name is gone.

**Names** (`FileName`) are texts, or bytes that are not UTF-8.

**Links** lead to a name of the directory, which need not be there, or elsewhere (`Destination`).
Opening a file by its name (`openFile`) follows them, and makes the file where they end if it is
missing there. No other operation follows a link.
-/

namespace RunOnce.Region

open Text

/-- The name of a file. -/
inductive FileName
  | text (name : String)
  | raw (bytes : List UInt8)
deriving DecidableEq, Repr

namespace FileName

/-- The name that the bytes spell. -/
def ofBytes (bytes : List UInt8) : FileName :=
  match String.fromUTF8? ⟨bytes.toArray⟩ with
  | some name => .text name
  | none => .raw bytes

/-- The bytes of the name. -/
def bytes : FileName → List UInt8
  | .text name => name.toUTF8.toList
  | .raw bytes => bytes

/-- The length of the name in bytes. -/
def size : FileName → Nat
  | .text name => name.utf8ByteSize
  | .raw bytes => bytes.length

/-- The name as text, with faults replaced. -/
def shown : FileName → String
  | .text name => name
  | .raw bytes => decodeLossy bytes

end FileName

/-- A block of memory with a size in bytes; words that were never written are zero. -/
structure Object where
  size : Nat
  words : Store Nat UInt32 := {}

namespace Object

/-- The word at an index. -/
def read (o : Object) (index : Nat) : UInt32 := (o.words.get? index).getD 0

/-- The object with a word written. -/
def write (o : Object) (index : Nat) (value : UInt32) : Object :=
  { o with words := o.words.set index value }

@[simp] theorem read_write_self (o : Object) (i : Nat) (v : UInt32) : (o.write i v).read i = v := by
  simp [read, write]

@[simp] theorem read_write_of_ne (o : Object) {i j : Nat} (h : i ≠ j) (v : UInt32) :
    (o.write i v).read j = o.read j := by
  simp [read, write, h]

end Object

/-- Where a symbolic link leads: to a name of this directory, or to a place elsewhere, where a file
can be opened or made unless there is a fault. -/
inductive Destination
  | entry (name : FileName)
  | elsewhere (fault : Option OsError)
deriving DecidableEq, Repr

/-- What a name stands for. -/
inductive Node
  | file (object : Nat)
  | directory
  | link (destination : Destination)
deriving DecidableEq, Repr

/-- As many links are followed to open a file, and no more. -/
def linkLimit : Nat := 40

/-- Names in the order of a scan, and the objects behind them. -/
structure Directory where
  entries : List (FileName × Node) := []
  objects : Store Nat Object := {}
  nextObject : Nat := 0

namespace Directory

/-- What a name stands for, if it is there. -/
def find? (d : Directory) (name : FileName) : Option Node :=
  (d.entries.find? fun e => e.1 = name).map (·.2)

/-- The directory with a new name in it. -/
def link (d : Directory) (name : FileName) (node : Node) : Directory :=
  { d with entries := (name, node) :: d.entries }

/-- The directory with a new object in it, zeroed, and the object's key. -/
def linkFile (d : Directory) (name : FileName) (size : Nat) : Nat × Directory :=
  (d.nextObject,
    { (d.link name (.file d.nextObject)) with
      objects := d.objects.set d.nextObject { size }
      nextObject := d.nextObject + 1 })

/-- The directory without a name, whatever it stands for. -/
def remove (d : Directory) (name : FileName) : Directory :=
  { d with entries := d.entries.filter fun e => !decide (e.1 = name) }

/-- Removes the name of a file or a link; directories stay. Tells whether it was removed. -/
def unlink (d : Directory) (name : FileName) : Bool × Directory :=
  match d.find? name with
  | some (.file _) | some (.link _) => (true, d.remove name)
  | some .directory | none => (false, d)

/-- Where the link of a name leads, if the name is one. -/
def linkAt? (d : Directory) (name : FileName) : Option Destination :=
  match d.find? name with
  | some (.link destination) => some destination
  | _ => none

/-- The name of this directory at which the links end that lead on from a destination, or `none` if
they end elsewhere. So many links may be followed. -/
def follow (d : Directory) : Nat → Destination → Except OsError (Option FileName)
  | _, .elsewhere none => .ok none
  | _, .elsewhere (some fault) => .error fault
  | n, .entry name =>
    if maxNameBytes < name.size then .error .nameTooLong
    else
      match d.linkAt? name with
      | none => .ok (some name)
      | some destination =>
        match n with
        | 0 => .error .symbolicLink
        | n + 1 => d.follow n destination

/-- Opens the file of a name, or makes an empty one. Links are followed. -/
def openFile (d : Directory) (name : FileName) : Except OsError Directory :=
  match d.follow linkLimit (.entry name) with
  | .error fault => .error fault
  | .ok none => .ok d
  | .ok (some file) =>
    match d.find? file with
    | some .directory => .error .isDirectory
    | some _ => .ok d
    | none => .ok (d.linkFile file 0).2

/-- The size behind a name: nothing but files have one. -/
def sizeOf (d : Directory) : Node → Nat
  | .file object => ((d.objects.get? object).map (·.size)).getD 0
  | .directory | .link _ => 0

/-- The word at an index of an object. -/
def readWord (d : Directory) (object index : Nat) : UInt32 :=
  ((d.objects.get? object).map (·.read index)).getD 0

/-- The directory with a word of an object written. -/
def writeWord (d : Directory) (object index : Nat) (value : UInt32) : Directory :=
  { d with objects := d.objects.modify object (·.write index value) }

/-- The directory with the size of an object changed. -/
def resize (d : Directory) (object size : Nat) : Directory :=
  { d with objects := d.objects.modify object ({ · with size }) }

end Directory

end RunOnce.Region
