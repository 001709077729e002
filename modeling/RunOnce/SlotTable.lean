import RunOnce.Config
import RunOnce.Region.Image

/-!
# The shared slot table

**The layout.** A region holds one header word and then one word for each handle, in order of
index. A slot is idle, running or done, and moves only that way.

**The table** (`SlotTable`) is one participant's view of it: its mapping, how many slots it uses,
and the claims it holds. A claim remembers who runs the initializer of a handle. A lock guards the
claims, and is taken as long as the guard of an initializer is being dropped.
-/

namespace RunOnce

open Region

/-- Words before the first slot. -/
def headerWords : Nat := 1

/-- The states of a slot. -/
def slotIdle : UInt32 := 0

/-- Some participant runs the initializer. -/
def slotRunning : UInt32 := 1

/-- The initializer has ended. -/
def slotDone : UInt32 := 2

/-- Bytes for the header and so many slots. -/
def regionSize (slots : UInt32) : Nat := (headerWords + slots.toNat) * 4

/-- One participant's view of a slot table. -/
structure SlotTable where
  mapping : Mapping
  slotCount : UInt32
  pollSpins : UInt32
  claims : List (FlagId × Initiator) := []
  /-- The handle whose guard is being dropped; the lock of the claims is taken meanwhile. -/
  guard? : Option FlagId := none
deriving DecidableEq

/-- What a call learns when it claims a slot. -/
inductive Claim
  /-- The call met its own initialization. -/
  | reentrant
  /-- The call runs the initializer. -/
  | won
  /-- The slot was in the given state. -/
  | lost (state : UInt32)
deriving DecidableEq

namespace SlotTable

/-- The word of a handle's slot, if the handle is inside the table. -/
def wordOf? (t : SlotTable) (id : FlagId) : Option Nat :=
  if id.index < t.slotCount then some (headerWords + id.index.toNat) else none

/-- The state of a handle's slot, if the handle is inside the table. -/
def state? (t : SlotTable) (d : Directory) (id : FlagId) : Option UInt32 :=
  (t.wordOf? id).map (d.readWord t.mapping.object)

/-- The directory with a handle's slot in a state. -/
def mark (t : SlotTable) (d : Directory) (id : FlagId) (state : UInt32) : Directory :=
  match t.wordOf? id with
  | some word => d.writeWord t.mapping.object word state
  | none => d

/-- Claims a slot that is in the given state. -/
def claim (t : SlotTable) (state : UInt32) (id : FlagId) (who : Initiator) : Claim × SlotTable :=
  if t.claims.contains (id, who) then (.reentrant, t)
  else if state = slotIdle then (.won, { t with claims := t.claims ++ [(id, who)] })
  else (.lost state, t)

/-- Whether the lock of the claims is taken. -/
def isLocked (t : SlotTable) : Bool := t.guard?.isSome

theorem isLocked_eq_false {t : SlotTable} : t.isLocked = false ↔ t.guard? = none := by
  simp [isLocked]

/-- The table while the guard for a handle is dropped. -/
def lock (t : SlotTable) (id : FlagId) : SlotTable := { t with guard? := some id }

/-- The table without the claims on a handle. -/
def disclaim (t : SlotTable) (id : FlagId) : SlotTable :=
  { t with claims := t.claims.filter fun held => !decide (held.1 = id) }

/-- The table after the drop of a guard: the claims on its handle are gone and the lock is free. -/
def unlock (t : SlotTable) : SlotTable :=
  match t.guard? with
  | some id => { t.disclaim id with guard? := none }
  | none => t

theorem unlock_of_free {t : SlotTable} (free : t.guard? = none) : t.unlock = t := by
  simp only [unlock, free]

theorem unlock_claims {t : SlotTable} (claims : List (FlagId × Initiator))
    (free : t.guard? = none) :
    ({ t with claims } : SlotTable).unlock = { t with claims } := by
  simp only [unlock, free]

@[simp] theorem guard?_unlock (t : SlotTable) : t.unlock.guard? = none := by
  unfold unlock
  split
  · rfl
  · assumption

@[simp] theorem unlock_unlock (t : SlotTable) : t.unlock.unlock = t.unlock :=
  unlock_of_free t.guard?_unlock

theorem unlock_lock {t : SlotTable} (id : FlagId) (free : t.guard? = none) :
    (t.lock id).unlock = t.disclaim id := by
  simp only [unlock, lock, disclaim, ← free]

@[simp] theorem mapping_unlock (t : SlotTable) : t.unlock.mapping = t.mapping := by
  unfold unlock
  split <;> rfl

@[simp] theorem slotCount_unlock (t : SlotTable) : t.unlock.slotCount = t.slotCount := by
  unfold unlock
  split <;> rfl

/-- Uses a mapped region as a slot table. A region that is too small is let go; the creator of a
region writes the header. -/
def ofMapping (i : Image) (m : Mapping) (c : Config) :
    Except RegionError SlotTable × Image × List Record :=
  let required := regionSize c.slotCount
  if m.size < required then
    let (image, records) := i.release m
    (.error (.tooSmall m.size required), image, records)
  else
    let image :=
      if m.isOwner then
        { i with directory := i.directory.writeWord m.object 0 (UInt32.ofNat headerWords) }
      else i
    (.ok { mapping := m, slotCount := c.slotCount, pollSpins := c.pollSpins }, image, [])

/-- Joins the table that the settings name, or makes it. -/
def attach (i : Image) (c : Config) : Except RegionError SlotTable × Image × List Record :=
  if !Config.isTag c.regionTag then (.error (.invalidName c.regionTag), i, [])
  else
    match i.openOrCreate c.regionTag (regionSize c.slotCount) with
    | (.error e, image, records) => (.error e, image, records)
    | (.ok mapping, image, records) =>
      let (result, last, later) := ofMapping image mapping c
      (result, last, records ++ later)

end SlotTable

end RunOnce
