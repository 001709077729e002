import RunOnce.Proofs.Region.Sweep
import Mathlib.Logic.Function.Iterate

/-!
# Regions made and dropped by several threads

**Requests** (`Request`). A thread creates a region for a tag, opens one or creates it, or cleans
up. An owner that it gets is dropped at some later time.

**Steps** (`step`). A creation holds the lock of its tag while it removes stale regions, links the
object, sizes and maps it, and writes down the name as owned; each of these is one atomic step.
A drop has no lock: it unlinks the name in one step and strikes it in another. Taken one after
another without a break, the steps are the operations of an image (`turns_create`,
`turns_openOrCreate`, `turns_cleanup`, `turns_release`).

**Processes** (`Process`). One image, and a stage for each of any number of requests. A run
(`Run`) is any order of steps in which a lock is taken only while no other request holds it.
-/

namespace RunOnce.Region

/-- What a thread asks for. -/
inductive Request
  | create (tag : String) (size : Nat)
  | openOrCreate (tag : String) (size : Nat)
  | cleanup (tag : String)

/-- The tag whose lock a request takes. -/
def Request.tag : Request → String
  | .create tag _ | .openOrCreate tag _ | .cleanup tag => tag

/-- How far a request has come. Every stage but the last is named for what was done last. -/
inductive Stage
  | arriving (r : Request)
  | holding (r : Request)
  | swept (tag : String) (size : Nat)
  | linked (tag : String) (size object : Nat)
  | mapped (tag : String) (m : Mapping)
  | owning (tag : String) (m : Mapping)
  | leaving (tag : String) (m : Mapping)
  | ended (result : Except RegionError (Option Mapping))

namespace Stage

/-- The tag whose lock is held. -/
def lock? : Stage → Option String
  | .holding r => some r.tag
  | .swept tag _ | .linked tag _ _ | .mapped tag _ => some tag
  | .arriving _ | .owning .. | .leaving .. | .ended _ => none

/-- The tag whose lock is taken next. -/
def waits? : Stage → Option String
  | .arriving r => some r.tag
  | _ => none

/-- The tag and the object of a region that was made and is not dropped. -/
def region? : Stage → Option (String × Nat)
  | .linked tag _ object => some (tag, object)
  | .mapped tag m | .owning tag m => some (tag, m.object)
  | _ => none

/-- The tag and the mapping of an owner, until its name is struck. -/
def mapping? : Stage → Option (String × Mapping)
  | .mapped tag m | .owning tag m | .leaving tag m => some (tag, m)
  | _ => none

/-- The stage at which a creation or an opening hands over its result. -/
def settled (tag : String) : Except RegionError Mapping → Stage
  | .error e => .ended (.error e)
  | .ok m => if m.isOwner then .owning tag m else .ended (.ok (some m))

end Stage

namespace Image

/-- Why this process can make no region for a tag, whatever else there is. -/
def nameFault? (i : Image) (tag : String) : Option RegionError :=
  match checkName (regionName tag i.self) with
  | .error e => some e
  | .ok () =>
    if (regionName tag i.self).toList.any fun c => c.toNat = 0 then
      some (.invalidName (regionName tag i.self))
    else none

/-- Links a new and empty object under a name, and gives the object's key. -/
def link (i : Image) (name : String) : Nat × Image :=
  let (object, directory) := i.directory.linkFile (fileOf name) 0
  (object, { i with directory })

/-- The next atomic step of a request. A step that takes a lock does not wait for it. -/
def step (i : Image) : Stage → Stage × Image
  | .arriving r =>
    match i.lock r.tag with
    | .error e => (.ended (.error e), i)
    | .ok locked => (.holding r, locked)
  | .holding (.create tag size) =>
    match i.nameFault? tag with
    | some e => (.ended (.error e), i)
    | none => (.swept tag size, i.clean tag)
  | .holding (.openOrCreate tag size) =>
    match (i.seek tag size).1 with
    | .ok none => (.holding (.create tag size), i)
    | result => (.ended result, i)
  | .holding (.cleanup tag) => (.ended (.ok none), i.clean tag)
  | .swept tag size =>
    match i.directory.find? (fileOf (regionName tag i.self)) with
    | some _ => (.ended (.error (.createFailed .fileExists)), i)
    | none =>
      let (object, linked) := i.link (regionName tag i.self)
      (.linked tag size object, linked)
  | .linked tag size object =>
    match i.equip (regionName tag i.self) object size with
    | (.error e, failed) => (.ended (.error e), failed)
    | (.ok m, made) => (.mapped tag m, made)
  | .mapped tag m => (.owning tag m, i.own m.name)
  | .owning tag m => (.leaving tag m, (i.unlink m.name).2)
  | .leaving _ m => (.ended (.ok none), i.disown m.name)
  | .ended result => (.ended result, i)

end Image

/-! ## Steps without a break -/

/-- The next step of a request, with the stage beside the image. -/
def turn (x : Stage × Image) : Stage × Image := x.2.step x.1

@[simp] theorem turns_ended (n : Nat) (result : Except RegionError (Option Mapping)) (i : Image) :
    turn^[n] (.ended result, i) = (.ended result, i) := Function.iterate_fixed rfl n

namespace Image

/-- What `equip` maps bears the name that it was given. -/
theorem equip_ok {i made : Image} {name : String} {object size : Nat} {m : Mapping}
    (h : i.equip name object size = (.ok m, made)) :
    m = { object, size, name, isOwner := true } ∧
      made = { i with directory := i.directory.resize object size } := by
  unfold equip at h
  split at h
  · cases h
  · split at h
    · cases h
    · cases h
      exact ⟨rfl, rfl⟩

theorem equip_error {i failed : Image} {name : String} {object size : Nat} {e : RegionError}
    (h : i.equip name object size = (.error e, failed)) : failed = (i.unlink name).2 := by
  unfold equip at h
  split at h
  · cases h
    rfl
  · split at h
    · cases h
      rfl
    · cases h

/-- Making a region under the lock: refused, or the name is taken, or the new object is sized and
mapped. -/
theorem make_eq (i : Image) (tag : String) (size : Nat) :
    ((i.make tag size).1, (i.make tag size).2.1) =
      match i.nameFault? tag with
      | some e => (.error e, i)
      | none =>
        match (i.clean tag).directory.find? (fileOf (regionName tag i.self)) with
        | some _ => (.error (.createFailed .fileExists), i.clean tag)
        | none =>
          let (object, linked) := (i.clean tag).link (regionName tag i.self)
          match linked.equip (regionName tag i.self) object size with
          | (.error e, failed) => (.error e, failed)
          | (.ok m, made) => (.ok m, made.own (regionName tag i.self)) := by
  unfold make nameFault?
  dsimp only
  cases checkName (regionName tag i.self) with
  | error e => rfl
  | ok =>
    dsimp only
    split
    · rfl
    · change _ = match (i.clean tag).directory.find? (fileOf (regionName tag i.self)) with
        | some _ => _
        | none => _
      unfold link clean
      cases (sweep (i.list tag) i).2.1.directory.find? (fileOf (regionName tag i.self)) with
      | some node => rfl
      | none =>
        dsimp only
        split
        next hequip => simp only [hequip]
        next hequip => simp only [hequip]

/-- Under the lock, the steps of a creation make the region. -/
theorem turns_make (i : Image) (tag : String) (size : Nat) :
    turn^[4] (.holding (.create tag size), i) =
      (.settled tag (i.make tag size).1, (i.make tag size).2.1) := by
  have hresult := congrArg Prod.fst (make_eq i tag size)
  have himage := congrArg Prod.snd (make_eq i tag size)
  dsimp only at hresult himage
  rw [hresult, himage, Function.iterate_succ_apply]
  cases hfault : i.nameFault? tag with
  | some e =>
    have hfirst : turn (.holding (.create tag size), i) = (.ended (.error e), i) := by
      simp only [turn, step, hfault]
    rw [hfirst, turns_ended]
    rfl
  | none =>
    have hfirst : turn (.holding (.create tag size), i) = (.swept tag size, i.clean tag) := by
      simp only [turn, step, hfault]
    rw [hfirst, Function.iterate_succ_apply]
    dsimp only
    cases hfind : (i.clean tag).directory.find? (fileOf (regionName tag i.self)) with
    | some node =>
      have hsecond : turn (.swept tag size, i.clean tag) =
          (.ended (.error (.createFailed .fileExists)), i.clean tag) := by
        simp only [turn, step, clean_self, hfind]
      rw [hsecond, turns_ended]
      rfl
    | none =>
      cases hlink : (i.clean tag).link (regionName tag i.self) with
      | mk object linked =>
        have hself : linked.self = i.self := by
          rw [← clean_self i tag, ← congrArg (·.2.self) hlink]
          rfl
        have hsecond : turn (.swept tag size, i.clean tag) = (.linked tag size object, linked) := by
          simp only [turn, step, clean_self, hfind, hlink]
        rw [hsecond, Function.iterate_succ_apply]
        cases hequip : linked.equip (regionName tag i.self) object size with
        | mk result image =>
          cases result with
          | error e => simp [turn, step, hself, hequip, Stage.settled]
          | ok m =>
            obtain ⟨hm, -⟩ := equip_ok hequip
            simp [turn, step, hself, hequip, Stage.settled, hm]

/-- The steps of a creation, without a break, are the creation. -/
theorem turns_create (i : Image) (tag : String) (size : Nat) :
    turn^[5] (.arriving (.create tag size), i) =
      (.settled tag (i.create tag size).1, (i.create tag size).2.1) := by
  rw [Function.iterate_succ_apply]
  unfold create
  cases hlock : i.lock tag with
  | error e => simp [turn, step, Request.tag, hlock, Stage.settled]
  | ok locked =>
    simp only [turn, step, Request.tag, hlock]
    exact turns_make locked tag size

theorem isOwner_mapExisting {i : Image} {name : String} {size : Nat} {m : Mapping}
    (h : i.mapExisting name size = .ok (some m)) : m.isOwner = false := by
  unfold mapExisting at h
  split at h
  · cases h
  · split at h
    · cases h
    · cases h
    · cases h
    · dsimp only at h
      split at h
      · cases h
      · split at h
        · cases h
        · cases h
          rfl

/-- An existing region is mapped, not owned. -/
theorem isOwner_mapFirst {i : Image} {size : Nat} {failure : Option RegionError}
    {regions : List (String × UInt32)} {m : Mapping}
    (h : (i.mapFirst size failure regions).1 = .ok (some m)) : m.isOwner = false := by
  induction regions generalizing failure with
  | nil => cases failure <;> cases h
  | cons e rest ih =>
    unfold mapFirst at h
    split at h
    · exact ih h
    · split at h
      next hmap =>
        cases h
        exact isOwner_mapExisting hmap
      next => exact ih h
      next => exact ih h

/-- The steps of an opening or creation, without a break. -/
theorem turns_openOrCreate (i : Image) (tag : String) (size : Nat) :
    turn^[6] (.arriving (.openOrCreate tag size), i) =
      (.settled tag (i.openOrCreate tag size).1, (i.openOrCreate tag size).2.1) := by
  rw [Function.iterate_succ_apply]
  unfold openOrCreate
  cases hlock : i.lock tag with
  | error e => simp [turn, step, Request.tag, hlock, Stage.settled]
  | ok locked =>
    simp only [turn, step, Request.tag, hlock]
    rw [Function.iterate_succ_apply]
    cases hseek : locked.seek tag size with
    | mk result records =>
      simp only [turn, step, hseek]
      cases result with
      | error e => simp [Stage.settled]
      | ok mapping? =>
        cases mapping? with
        | none => exact turns_make locked tag size
        | some m =>
          have howner : m.isOwner = false := isOwner_mapFirst (congrArg Prod.fst hseek)
          simp [Stage.settled, howner]

/-- The steps of a cleanup, without a break. -/
theorem turns_cleanup (i : Image) (tag : String) :
    (turn^[2] (.arriving (.cleanup tag), i)).2 = (i.cleanup tag).2.1 := by
  unfold cleanup
  cases hlock : i.lock tag with
  | error e => simp [turn, step, Request.tag, hlock]
  | ok locked => simp [turn, step, Request.tag, hlock, clean]

/-- The two steps of a drop, without a break, release the mapping. -/
theorem turns_release (i : Image) (tag : String) {m : Mapping} (owner : m.isOwner = true) :
    turn^[2] (.owning tag m, i) = (.ended (.ok none), (i.release m).1) := by
  simp [turn, step, release, owner]

end Image

/-! ## Any order of steps -/

/-- One image, and how far each of any number of requests has come. -/
structure Process where
  image : Image
  stage : Nat → Stage

namespace Process

/-- No request has started yet. -/
def IsFresh (p : Process) : Prop := ∀ k, ∃ r, p.stage k = .arriving r

/-- Whether a request can go on: a lock is taken only while no other request holds it. -/
def Possible (p : Process) (k : Nat) : Prop :=
  ∀ tag, (p.stage k).waits? = some tag → ∀ j, (p.stage j).lock? ≠ some tag

/-- The process after the next step of a request. -/
def advance (p : Process) (k : Nat) : Process where
  image := (p.image.step (p.stage k)).2
  stage := Function.update p.stage k (p.image.step (p.stage k)).1

theorem stage_advance_self (p : Process) (k : Nat) :
    (p.advance k).stage k = (p.image.step (p.stage k)).1 := Function.update_self ..

theorem stage_advance_of_ne (p : Process) {j k : Nat} (h : j ≠ k) :
    (p.advance k).stage j = p.stage j := Function.update_of_ne h ..

/-- The steps from one process to another, each with the process in which it is taken. -/
inductive Run (p₀ : Process) : List (Process × Nat) → Process → Prop
  | start : Run p₀ [] p₀
  | step {past : List (Process × Nat)} {p : Process} {k : Nat} (run : Run p₀ past p)
      (possible : p.Possible k) : Run p₀ (past ++ [(p, k)]) (p.advance k)

end Process

end RunOnce.Region
