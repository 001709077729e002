import RunOnce.Proofs.Region.Ownership
import RunOnce.SlotTable

/-!
# What attaching to a table does

**Usable tags** (`Usable`). The names of the lock and of the region of a tag are short enough, so a
process can attach to the table of the tag.

**Theorem (`attach_of_owned`).** If the region of this process for the tag is owned here and all
other regions of the tag are stale, an image that attaches maps this region and changes nothing.

**Theorem (`attach_of_unowned`).** If all regions of the tag are stale, an image that attaches
sweeps them away and makes a region of its own, which then has the name.

Which of the two happens depends on what is written down as owned in the image, and on nothing else
that the process knows.
-/

namespace RunOnce.Region

/-! ## What operations keep of a directory -/

namespace Directory

variable {d : Directory} {name : FileName} {e : FileName × Node} {o : Nat}

theorem entries_unlink (h : e ∈ (d.unlink name).2.entries) : e ∈ d.entries := by
  unfold unlink at h
  split at h
  · exact List.mem_of_mem_filter h
  · exact List.mem_of_mem_filter h
  · exact h
  · exact h

theorem nextObject_unlink (d : Directory) (name : FileName) :
    (d.unlink name).2.nextObject = d.nextObject := by
  unfold unlink
  split <;> rfl

/-- A new file leaves the sizes of others alone. -/
theorem sizeOf_linkFile (d : Directory) (name : FileName) (size : Nat) (h : o ≠ d.nextObject) :
    (d.linkFile name size).2.sizeOf (.file o) = d.sizeOf (.file o) := by
  simp only [sizeOf, linkFile, Store.get?_set_of_ne _ h.symm]

/-- The directory with a table in it: a new object of a size, whose header is written. -/
def linkTable (d : Directory) (name : FileName) (size : Nat) : Directory :=
  ((d.linkFile name 0).2.resize d.nextObject size).writeWord d.nextObject 0
    (UInt32.ofNat headerWords)

theorem find?_linkTable (d : Directory) (name other : FileName) (size : Nat) :
    (d.linkTable name size).find? other =
      if name = other then some (.file d.nextObject) else d.find? other :=
  find?_linkFile d name other 0

theorem sizeOf_linkTable (d : Directory) (name : FileName) (size : Nat) :
    (d.linkTable name size).sizeOf (.file d.nextObject) = size := by
  simp [sizeOf, linkTable, writeWord, resize, linkFile, Store.get?_modify, Object.write]

end Directory

namespace Image

variable {i locked : Image} {tag : String}

theorem entries_sweep {regions : List (String × UInt32)} {e : FileName × Node}
    (h : e ∈ (sweep regions i).2.1.directory.entries) : e ∈ i.directory.entries := by
  induction regions generalizing i with
  | nil => exact h
  | cons region rest ih =>
    rw [image_sweep_cons] at h
    split at h
    · exact Directory.entries_unlink (ih h)
    · exact ih h

theorem nextObject_sweep (regions : List (String × UInt32)) (i : Image) :
    (sweep regions i).2.1.directory.nextObject = i.directory.nextObject := by
  induction regions generalizing i with
  | nil => rfl
  | cons region rest ih =>
    rw [image_sweep_cons]
    split
    · exact (ih _).trans (Directory.nextObject_unlink ..)
    · exact ih i

/-! ## The scan -/

/-- A scan meets every region whose name is there. -/
theorem mem_list_of_creator {file : String} {pid : UInt32} {node : Node}
    (hcreator : creator? tag file = some pid)
    (found : i.directory.find? (.text file) = some node) : ("/" ++ file, pid) ∈ i.list tag := by
  obtain ⟨⟨name, node'⟩, hfind, -⟩ := Option.map_eq_some_iff.mp found
  have hname := List.find?_some hfind
  rw [decide_eq_true_eq] at hname
  subst hname
  exact mem_list.mpr ⟨file, ⟨node', List.mem_of_find?_eq_some hfind⟩, hcreator, rfl⟩

/-- A scan meets the region of this process if its name is there. -/
theorem mem_list_of_find? {node : Node}
    (found : i.directory.find? (fileOf (regionName tag i.self)) = some node) :
    (regionName tag i.self, i.self) ∈ i.list tag := by
  rw [fileOf_regionName] at found
  rw [regionName_eq]
  exact mem_list_of_creator (creator?_regionFile.mpr ⟨rfl, rfl⟩) found

/-- The one who made the region of this process for a tag is this process. -/
theorem creator_of_mem_list {pid : UInt32} (h : (regionName tag i.self, pid) ∈ i.list tag) :
    pid = i.self := by
  obtain ⟨file, -, hcreator, hname⟩ := mem_list.mp h
  rw [regionName_eq, String.append_right_inj] at hname
  rw [← hname] at hcreator
  exact (creator?_regionFile.mp hcreator).2.symm

/-- What this process made is stale unless it is owned here. -/
theorem isStale_self (i : Image) (name : String) :
    i.isStale name i.self = !i.owned.contains name := if_pos rfl

/-- Whether a region is stale depends on its own name among those that are owned. -/
theorem isStale_congr {name : String} {pid : UInt32} (i i' : Image) (self : i'.self = i.self)
    (isAlive : i'.isAlive = i.isAlive) (owned : name ∈ i'.owned ↔ name ∈ i.owned) :
    i'.isStale name pid = i.isStale name pid := by
  simp only [isStale, processExists, self, isAlive, List.contains_eq_mem, owned]

/-- A sweep removes the region of this process if it is not owned here. -/
theorem find?_clean_of_unowned (unowned : regionName tag i.self ∉ i.owned)
    (plain : i.directory.find? (fileOf (regionName tag i.self)) ≠ some .directory) :
    (i.clean tag).directory.find? (fileOf (regionName tag i.self)) = none := by
  rw [clean, find?_sweep]
  cases hfind : i.directory.find? (fileOf (regionName tag i.self)) with
  | none => exact ite_self _
  | some node =>
    rw [hfind] at plain
    refine if_pos ⟨List.any_eq_true.mpr ⟨_, mem_list_of_find? hfind, ?_⟩, plain⟩
    simp [isStale_self, unowned]

/-- With a new table, a scan meets the region of this process, or what it met before. -/
theorem mem_list_linkTable {made : Image} {size : Nat} {e : String × UInt32}
    (h : made.directory =
      (i.clean tag).directory.linkTable (fileOf (regionName tag i.self)) size)
    (he : e ∈ made.list tag) : e.1 = regionName tag i.self ∨ e ∈ i.list tag := by
  obtain ⟨file, ⟨node, hmem⟩, hcreator, hname⟩ := mem_list.mp he
  rw [h, fileOf_regionName] at hmem
  rcases List.mem_cons.mp hmem with heq | hold
  · cases heq
    exact Or.inl (hname.trans (regionName_eq ..).symm)
  · exact Or.inr (mem_list.mpr ⟨file, ⟨node, entries_sweep hold⟩, hcreator, hname⟩)

theorem plain_linkTable {file : FileName} {name : FileName} {size : Nat}
    (plain : i.directory.find? file ≠ some .directory) :
    ((i.clean tag).directory.linkTable name size).find? file ≠ some .directory := by
  rw [Directory.find?_linkTable, clean, find?_sweep]
  split
  · simp
  · split
    · simp
    · exact plain

/-- Among stale regions a scan finds nothing, and has nothing to report. -/
theorem mapFirst_of_stale {regions : List (String × UInt32)} {size : Nat}
    (stale : ∀ e ∈ regions, i.isStale e.1 e.2 = true) :
    i.mapFirst size none regions = (.ok none, []) := by
  induction regions with
  | nil => rfl
  | cons e rest ih =>
    rw [mapFirst, if_pos (stale e List.mem_cons_self)]
    exact ih fun e he => stale e (List.mem_cons_of_mem _ he)

/-- Among stale regions and one that is not, a scan finds this one, or fails as it does. -/
theorem mapFirst_of_sole {regions : List (String × UInt32)} {size : Nat} {name : String}
    {failure : Option RegionError} {result : Except RegionError Mapping}
    (stale : ∀ e ∈ regions, e.1 ≠ name → i.isStale e.1 e.2 = true)
    (live : ∀ e ∈ regions, e.1 = name → i.isStale e.1 e.2 = false)
    (mapped : i.mapExisting name size = result.map some)
    (failed : ∀ e, failure = some e → result = .error e)
    (met : (∃ e ∈ regions, e.1 = name) ∨ failure ≠ none) :
    (i.mapFirst size failure regions).1 = result.map some := by
  induction regions generalizing failure with
  | nil =>
    obtain ⟨e, he⟩ := Option.ne_none_iff_exists'.mp (met.resolve_left (by simp))
    rw [he, failed e he]
    rfl
  | cons e rest ih =>
    obtain ⟨other, pid⟩ := e
    have hrest (failure' : Option RegionError)
        (failed' : ∀ e, failure' = some e → result = .error e)
        (met' : (∃ e ∈ rest, e.1 = name) ∨ failure' ≠ none) :
        (i.mapFirst size failure' rest).1 = result.map some :=
      ih (fun e he => stale e (List.mem_cons_of_mem _ he))
        (fun e he => live e (List.mem_cons_of_mem _ he)) failed' met'
    rw [mapFirst]
    by_cases hname : other = name
    · subst hname
      rw [if_neg (by simp [live _ List.mem_cons_self rfl]), mapped]
      cases result with
      | ok m => rfl
      | error e =>
        refine hrest _ (fun e' he' => ?_) (Or.inr (Option.some_ne_none _))
        cases failure with
        | none => exact congrArg Except.error (Option.some.inj he')
        | some first =>
          rw [failed first rfl]
          exact congrArg Except.error (Option.some.inj he')
    · rw [if_pos (stale _ List.mem_cons_self hname)]
      refine hrest failure failed (met.imp_left ?_)
      rintro ⟨e, he, rfl⟩
      rcases List.mem_cons.mp he with rfl | he
      · exact absurd rfl hname
      · exact ⟨e, he, rfl⟩

end Image

/-! ## Sizes -/

theorem regionSize_mono {m n : UInt32} (h : m ≤ n) : regionSize m ≤ regionSize n := by
  have hle : m.toNat ≤ n.toNat := h
  simp only [regionSize]
  omega

theorem regionSize_le (n : UInt32) : 0 < regionSize n ∧ regionSize n ≤ 0x400000000 := by
  have hn := n.toNat_lt
  simp only [regionSize, headerWords]
  omega

/-- A table of any number of slots can be mapped. -/
theorem AddressSpace.fault?_regionSize (space : AddressSpace) (n : UInt32) :
    space.fault? (regionSize n) = none :=
  space.fault?_small _ (regionSize_le n).1 (regionSize_le n).2

/-! ## Usable tags -/

/-- A tag whose lock and whose region in a process can be named. -/
structure Usable (tag : String) (pid : UInt32) : Prop where
  isTag : Config.isTag tag = true
  lock : (lockName tag).utf8ByteSize ≤ maxNameBytes
  region : checkName (regionName tag pid) = .ok ()

theorem isDigit_of_mem_toDigits {pid : UInt32} {c : Char} (hc : c ∈ Nat.toDigits 10 pid.toNat) :
    c.isDigit = true := Nat.isDigit_of_mem_toDigits (by decide) (by decide) hc

theorem toList_regionName (tag : String) (pid : UInt32) :
    (regionName tag pid).toList = '/' :: (tag.toList ++ '_' :: Nat.toDigits 10 pid.toNat) := by
  rw [regionName_eq, String.toList_append, toList_regionFile]
  rfl

/-- What is wrong with the name of a region: a slash in the tag, or else its length. -/
theorem checkName_eq (tag : String) (pid : UInt32) : checkName (regionName tag pid) =
    if '/' ∈ tag.toList then
      .error (.invalidName ("Region name cannot contain '/' after prefix: " ++ regionName tag pid))
    else if maxNameBytes < (regionName tag pid).utf8ByteSize then
      .error (.invalidName ("Region name too long (max 255): " ++ regionName tag pid))
    else .ok () := by
  have hdigits : '/' ∉ Nat.toDigits 10 pid.toNat := fun h => by
    cases isDigit_of_mem_toDigits h
  have hrest : (tag.toList ++ '_' :: Nat.toDigits 10 pid.toNat).contains '/' = true ↔
      '/' ∈ tag.toList := by
    simp [hdigits]
  simp only [checkName, toList_regionName, hrest]

/-- Without a slash in the tag only the length of a name matters. -/
theorem checkName_regionName {tag : String} {pid : UInt32} (plain : '/' ∉ tag.toList) :
    checkName (regionName tag pid) = .ok () ↔
      (regionName tag pid).utf8ByteSize ≤ maxNameBytes := by
  rw [checkName_eq, if_neg plain, ← Nat.not_lt]
  split <;> simp [*]

/-- The rest of a name has no NUL in it. -/
theorem any_nul_regionName (tag : String) (pid : UInt32) :
    ((regionName tag pid).toList.any fun c => c.toNat = 0) =
      tag.toList.any fun c => c.toNat = 0 := by
  have hdigits : (Nat.toDigits 10 pid.toNat).any (fun c => c.toNat = 0) = false := by
    rw [List.any_eq_false]
    intro c hc hzero
    have hdigit := isDigit_of_mem_toDigits hc
    rw [show c = Char.ofNat 0 from Char.toNat_inj.mp (of_decide_eq_true hzero)] at hdigit
    cases hdigit
  rw [toList_regionName, List.any_cons, List.any_append, List.any_cons, hdigits]
  simp

theorem any_nul_eq_false_iff {tag : String} :
    (tag.toList.any fun c => c.toNat = 0) = false ↔ ∀ c ∈ tag.toList, c.toNat ≠ 0 := by
  simp

theorem utf8ByteSize_regionName (tag : String) (pid : UInt32) :
    (regionName tag pid).utf8ByteSize =
      tag.utf8ByteSize + 2 + (toString pid.toNat).utf8ByteSize := by
  have hslash : "/".utf8ByteSize = 1 := rfl
  have hunderscore : "_".utf8ByteSize = 1 := rfl
  simp only [regionName, String.utf8ByteSize_append, hslash, hunderscore]
  omega

namespace Usable

variable {tag : String} {pid : UInt32}

theorem mem_tag (usable : Usable tag pid) {c : Char} (hc : c ∈ tag.toList) :
    c ≠ '/' ∧ c.toNat ≠ 0 := by
  have hall := usable.isTag
  simp only [Config.isTag, Bool.and_eq_true, List.all_eq_true, decide_eq_true_eq] at hall
  exact hall.2 c hc

theorem slash_notMem (usable : Usable tag pid) : '/' ∉ tag.toList := fun h =>
  (usable.mem_tag h).1 rfl

/-- The name by which a lock is checked is no longer than that of a region. -/
theorem checkName_zero (usable : Usable tag pid) : checkName (regionName tag 0) = .ok () := by
  have hregion := (checkName_regionName usable.slash_notMem).mp usable.region
  rw [checkName_regionName usable.slash_notMem]
  rw [utf8ByteSize_regionName] at hregion ⊢
  have hzero : (toString (0 : UInt32).toNat).utf8ByteSize = 1 := rfl
  have hpos : (toString pid.toNat).utf8ByteSize ≠ 0 := by
    rw [ne_eq, String.utf8ByteSize_eq_zero_iff, ← String.toList_inj]
    simp
  omega

theorem any_nul (usable : Usable tag pid) : (tag.toList.any fun c => c.toNat = 0) = false :=
  any_nul_eq_false_iff.mpr fun _ hc => (usable.mem_tag hc).2

theorem nameFault?_eq_none {i : Image} (usable : Usable tag i.self) : i.nameFault? tag = none := by
  simp [Image.nameFault?, usable.region, any_nul_regionName, usable.any_nul]

/-- The lock of a tag can be taken if its file can be opened. -/
theorem exists_lock {i : Image} (usable : Usable tag pid)
    (opens : ∃ d, i.directory.openFile (.text (lockName tag)) = .ok d) :
    ∃ locked, i.lock tag = .ok locked := by
  obtain ⟨d, hopen⟩ := opens
  exact ⟨_, Image.lock_eq_ok_iff.mpr
    ⟨⟨usable.checkName_zero, usable.any_nul, usable.lock⟩, d, hopen, rfl⟩⟩

end Usable

/-! ## Locking -/

namespace Directory

variable {d d' : Directory} {tag other : String}

/-- No name on the way to the file of a tag's lock is that of a region of the other tag. -/
def IsApart (d : Directory) (tag other : String) : Prop :=
  ∀ file, d.Meets (.text (lockName tag)) (.text file) → creator? other file = none

/-- A lock without links is apart from all regions. -/
theorem isApart_of_plain (plain : d.linkAt? (.text (lockName tag)) = none) (other : String) :
    d.IsApart tag other := by
  intro file meets
  rcases meets.cases_head with hsame | ⟨next, leads, -⟩
  · cases hsame
    exact creator?_lockName other tag
  · cases plain.symm.trans leads

theorem IsApart.congr (apart : d.IsApart tag other)
    (same : ∀ name, d.Meets (.text (lockName tag)) name → d'.linkAt? name = d.linkAt? name) :
    d'.IsApart tag other := fun file meets => apart file (meets.congr same)

end Directory

namespace Image

variable {i locked : Image} {tag other : String} {o : Nat}

/-- The file of a lock that is apart is met in no scan. -/
theorem list_lock (h : i.lock tag = .ok locked) (apart : i.directory.IsApart tag other) :
    locked.list other = i.list other := by
  rcases lock_cases h with rfl | ⟨file, hfile, -, rfl⟩
  · rfl
  · have hmeets := (Directory.follow_ends (lockFile?_eq_some_iff.mp hfile)).1
    refine List.filterMap_cons_none ?_
    cases file with
    | raw bytes => rfl
    | text name => simp [apart name hmeets]

/-- What is listed stays listed when a lock is taken. -/
theorem mem_list_lock (h : i.lock tag = .ok locked) {e : String × UInt32}
    (he : e ∈ i.list other) : e ∈ locked.list other := by
  rcases lock_cases h with rfl | ⟨file, -, -, rfl⟩
  · exact he
  · obtain ⟨file, ⟨node, hmem⟩, hcreator⟩ := mem_list.mp he
    exact mem_list.mpr ⟨file, ⟨node, List.mem_cons_of_mem _ hmem⟩, hcreator⟩

/-- Taking a lock makes no link. -/
theorem linkAt?_lock (h : i.lock tag = .ok locked) (name : FileName) :
    locked.directory.linkAt? name = i.directory.linkAt? name := by
  rcases lock_cases h with rfl | ⟨file, -, free, rfl⟩
  · rfl
  · exact Directory.linkAt?_linkFile free 0 name

/-- A sweep leaves the names on the way to a lock that is apart. -/
theorem find?_clean_of_apart (apart : i.directory.IsApart tag other) {name : FileName}
    (meets : i.directory.Meets (.text (lockName tag)) name) :
    (i.clean other).directory.find? name = i.directory.find? name := by
  rw [clean, find?_sweep, if_neg]
  rintro ⟨hcondemned, -⟩
  obtain ⟨⟨region, pid⟩, hmem, hregion⟩ := List.any_eq_true.mp hcondemned
  obtain ⟨file, -, hcreator, rfl⟩ := mem_list.mp hmem
  have hname : FileName.text file = name := by
    simpa [fileOf_slash] using (Bool.and_eq_true_iff.mp hregion).1
  subst hname
  cases (apart file meets).symm.trans hcreator

theorem plain_lock (h : i.lock tag = .ok locked) {file : FileName}
    (plain : i.directory.find? file ≠ some .directory) :
    locked.directory.find? file ≠ some .directory := by
  rcases lock_cases h with rfl | ⟨_, -, -, rfl⟩
  · exact plain
  · rw [Directory.find?_linkFile]
    split
    · simp
    · exact plain

theorem nextObject_le_lock (h : i.lock tag = .ok locked) :
    i.directory.nextObject ≤ locked.directory.nextObject := by
  rcases lock_cases h with rfl | ⟨_, -, -, rfl⟩
  · exact Nat.le_refl _
  · exact Nat.le_succ _

theorem sizeOf_lock (h : i.lock tag = .ok locked) (known : o < i.directory.nextObject) :
    locked.directory.sizeOf (.file o) = i.directory.sizeOf (.file o) := by
  rcases lock_cases h with rfl | ⟨_, -, -, rfl⟩
  · rfl
  · exact Directory.sizeOf_linkFile _ _ _ (Nat.ne_of_lt known)

/-- A lock is taken in the directory only. -/
theorem lock_eq (h : i.lock tag = .ok locked) :
    locked = { i with directory := locked.directory } := by
  rcases lock_cases h with rfl | ⟨_, -, -, rfl⟩ <;> rfl

/-! ## Attaching -/

/-- Attaching begins with the lock. -/
theorem attach_lock {c : Config} (usable : Usable c.regionTag i.self)
    (h : i.lock c.regionTag = .ok locked) : SlotTable.attach i c = SlotTable.attach locked c := by
  simp only [SlotTable.attach, usable.isTag, openOrCreate, h, lock_lock h, Bool.not_true,
    Bool.false_eq_true, if_false]

/-- Mapping what is there, at the size of a table. -/
theorem mapExisting_table {name : String} (named : checkName name = .ok ())
    (linked : i.directory.find? (fileOf name) = some (.file o)) (n : UInt32) :
    ∃ result : Except RegionError Mapping,
      i.mapExisting name (regionSize n) = result.map some ∧
      (∀ m, result = .ok m → m.object = o ∧ m.size = regionSize n ∧ m.isOwner = false) ∧
      (regionSize n ≤ i.directory.sizeOf (.file o) → ∃ m, result = .ok m) := by
  by_cases hsmall : i.directory.sizeOf (.file o) < regionSize n
  · refine ⟨.error (.tooSmall (i.directory.sizeOf (.file o)) (regionSize n)), ?_, nofun, fun hle =>
      absurd hsmall (Nat.not_lt_of_le hle)⟩
    simp [mapExisting, named, linked, hsmall, Except.map]
  · refine ⟨.ok { object := o, size := regionSize n, name, isOwner := false }, ?_, ?_, fun _ =>
      ⟨_, rfl⟩⟩
    · simp [mapExisting, named, linked, hsmall, i.space.fault?_regionSize, Except.map]
    · rintro m hm
      cases hm
      exact ⟨rfl, rfl, rfl⟩

theorem seek_of_owned {size : Nat} {result : Except RegionError Mapping}
    (stale : ∀ e ∈ i.list tag, e.1 ≠ regionName tag i.self → i.isStale e.1 e.2 = true)
    (owned : regionName tag i.self ∈ i.owned)
    (linked : i.directory.find? (fileOf (regionName tag i.self)) = some (.file o))
    (mapped : i.mapExisting (regionName tag i.self) size = result.map some) :
    (i.seek tag size).1 = result.map some := by
  refine mapFirst_of_sole stale (fun e he hname => ?_) mapped nofun
    (Or.inl ⟨_, mem_list_of_find? linked, rfl⟩)
  obtain ⟨name, pid⟩ := e
  obtain rfl : name = regionName tag i.self := hname
  rw [creator_of_mem_list he, isStale_self]
  simp [owned]

/-- **An image that owns the region of the tag** maps it, whoever has made what the name stands for
now. -/
theorem attach_of_owned {c : Config} (usable : Usable c.regionTag i.self)
    (taken : i.lock c.regionTag = .ok i)
    (stale : ∀ e ∈ i.list c.regionTag, e.1 ≠ regionName c.regionTag i.self →
      i.isStale e.1 e.2 = true)
    (owned : regionName c.regionTag i.self ∈ i.owned)
    (linked : i.directory.find? (fileOf (regionName c.regionTag i.self)) = some (.file o)) :
    (SlotTable.attach i c).2.1 = i ∧
    (∀ t, (SlotTable.attach i c).1 = .ok t → t.mapping.object = o ∧ t.mapping.isOwner = false) ∧
    (regionSize c.slotCount ≤ i.directory.sizeOf (.file o) →
      ∃ t, (SlotTable.attach i c).1 = .ok t) := by
  obtain ⟨result, hmapped, hresult, hfits⟩ :=
    mapExisting_table usable.region linked c.slotCount
  have hseek := seek_of_owned stale owned linked hmapped
  cases hpair : i.seek c.regionTag (regionSize c.slotCount) with
  | mk found records =>
  rw [hpair] at hseek
  dsimp only at hseek
  subst hseek
  cases result with
  | error e =>
    have hattach : SlotTable.attach i c = (.error e, i, records) := by
      simp [SlotTable.attach, usable.isTag, openOrCreate, taken, hpair, Except.map]
    rw [hattach]
    refine ⟨rfl, nofun, fun hle => ?_⟩
    obtain ⟨m, hm⟩ := hfits hle
    cases hm
  | ok m =>
    obtain ⟨hobject, hsize, howner⟩ := hresult m rfl
    have hattach : SlotTable.attach i c =
        (.ok { mapping := m, slotCount := c.slotCount, pollSpins := c.pollSpins }, i, records) := by
      simp [SlotTable.attach, SlotTable.ofMapping, usable.isTag, openOrCreate, taken, hpair,
        Except.map, hsize, howner]
    rw [hattach]
    refine ⟨rfl, fun t ht => ?_, fun _ => ⟨_, rfl⟩⟩
    cases ht
    exact ⟨hobject, howner⟩

theorem make_of_unowned (usable : Usable tag i.self)
    (unowned : regionName tag i.self ∉ i.owned)
    (plain : i.directory.find? (fileOf (regionName tag i.self)) ≠ some .directory) (n : UInt32) :
    ((i.make tag (regionSize n)).1, (i.make tag (regionSize n)).2.1) =
      (.ok { object := i.directory.nextObject, size := regionSize n, name := regionName tag i.self
             isOwner := true },
        { i.clean tag with
          directory :=
            ((i.clean tag).directory.linkFile (fileOf (regionName tag i.self)) 0).2.resize
              i.directory.nextObject (regionSize n)
          owned := i.owned ++ [regionName tag i.self] }) := by
  have hnext : (i.clean tag).directory.nextObject = i.directory.nextObject := nextObject_sweep _ _
  have hsize : ¬fileSizeLimit ≤ regionSize n := by
    have hle := (regionSize_le n).2
    rw [fileSizeLimit]
    omega
  rw [make_eq, usable.nameFault?_eq_none]
  dsimp only
  rw [find?_clean_of_unowned unowned plain]
  simp only [link, Directory.linkFile, equip, hsize, AddressSpace.fault?_regionSize, own, hnext,
    clean_owned]
  rfl

/-- **An image that does not own the region of the tag** makes one, and the name stands for it. -/
theorem attach_of_unowned {c : Config} (usable : Usable c.regionTag i.self)
    (taken : i.lock c.regionTag = .ok i)
    (stale : ∀ e ∈ i.list c.regionTag, i.isStale e.1 e.2 = true)
    (unowned : regionName c.regionTag i.self ∉ i.owned)
    (plain : i.directory.find? (fileOf (regionName c.regionTag i.self)) ≠ some .directory) :
    (∃ t, (SlotTable.attach i c).1 = .ok t ∧ t.mapping.object = i.directory.nextObject ∧
      t.mapping.isOwner = true) ∧
    (SlotTable.attach i c).2.1 =
      { i.clean c.regionTag with
        directory := (i.clean c.regionTag).directory.linkTable
          (fileOf (regionName c.regionTag i.self)) (regionSize c.slotCount)
        owned := i.owned ++ [regionName c.regionTag i.self] } := by
  have hnext : (i.clean c.regionTag).directory.nextObject = i.directory.nextObject :=
    nextObject_sweep _ _
  have hseek : (i.seek c.regionTag (regionSize c.slotCount)).1 = .ok none :=
    congrArg Prod.fst (mapFirst_of_stale stale)
  have hmake := make_of_unowned usable unowned plain c.slotCount
  cases hfound : i.seek c.regionTag (regionSize c.slotCount) with
  | mk found records =>
  cases hmade : i.make c.regionTag (regionSize c.slotCount) with
  | mk result rest =>
  rw [hfound] at hseek
  rw [hmade] at hmake
  dsimp only at hseek hmake
  subst hseek
  obtain ⟨hresult, himage⟩ := Prod.mk.inj hmake
  simp only [SlotTable.attach, SlotTable.ofMapping, usable.isTag, openOrCreate, taken, hfound,
    hmade, hresult, himage, Nat.lt_irrefl, if_true, if_false, Bool.not_true, Bool.false_eq_true]
  refine ⟨⟨_, rfl, rfl, rfl⟩, ?_⟩
  rw [Directory.linkTable, hnext]

end Image

end RunOnce.Region
