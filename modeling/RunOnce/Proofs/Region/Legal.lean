import RunOnce.Proofs.Region.Attach

/-!
# What is said about tags that cannot be used

**Nameable tags** (`Nameable`). A process uses two files for a tag, the lock and its own region. Both
can be named if the tag has no slash and no NUL in it, and both names have at most 255 bytes.

Before the lock is taken, the tag is checked with a creator's id of one digit, for slashes and for its
length: this passes up to 252 bytes. The lock's name is longer by two bytes, and is opened unchecked.
Under the lock the name of the region itself is checked, for NULs too, which no tag can have that has
come so far (`nameFault?_eq`).

**Theorem (`illegal_reported_iff`).** A tag that is not nameable is reported as an invalid name by a
creation if and only if it has a slash in it, or more than 252 bytes, or its lock can be taken. So
with NULs, and with 251 or 252 bytes, it passes the first check and the lock cannot be opened
(`lock_eq_error_iff`).
-/

namespace RunOnce.Region

/-- A tag for which the files of a process can be named. -/
structure Nameable (tag : String) (pid : UInt32) : Prop where
  slash : '/' ∉ tag.toList
  nul : ∀ c ∈ tag.toList, c.toNat ≠ 0
  region : (regionName tag pid).utf8ByteSize ≤ maxNameBytes
  lock : (lockName tag).utf8ByteSize ≤ maxNameBytes

/-- What a tag itself does to its lock: which error it gives. -/
inductive TagFault (tag : String) : RegionError → Prop
  | slash (slash : '/' ∈ tag.toList) :
      TagFault tag
        (.invalidName ("Region name cannot contain '/' after prefix: " ++ regionName tag 0))
  | long (noSlash : '/' ∉ tag.toList) (long : 252 < tag.utf8ByteSize) :
      TagFault tag (.invalidName ("Region name too long (max 255): " ++ regionName tag 0))
  | nul (noSlash : '/' ∉ tag.toList) (short : tag.utf8ByteSize ≤ 252)
      (nul : ∃ c ∈ tag.toList, c.toNat = 0) : TagFault tag (.lockFailed .interiorNul)
  | lock (noSlash : '/' ∉ tag.toList) (noNul : ∀ c ∈ tag.toList, c.toNat ≠ 0)
      (long : 250 < tag.utf8ByteSize) (short : tag.utf8ByteSize ≤ 252) :
      TagFault tag (.lockFailed .nameTooLong)

/-- The result reports an invalid name. -/
def Reported {α : Type} (result : Except RegionError α) : Prop :=
  ∃ text, result = .error (.invalidName text)

/-! ## Lengths of names -/

theorem utf8ByteSize_regionName_zero (tag : String) :
    (regionName tag 0).utf8ByteSize = tag.utf8ByteSize + 3 := utf8ByteSize_regionName tag 0

theorem utf8ByteSize_lockName (tag : String) :
    (lockName tag).utf8ByteSize = tag.utf8ByteSize + 5 := String.utf8ByteSize_append

namespace Image

variable {i locked : Image} {tag : String} {size : Nat} {e : RegionError}

/-! ## The lock -/

/-- The check before the lock is taken sees a name of three bytes more than the tag. -/
theorem checkName_zero_eq (tag : String) : checkName (regionName tag 0) =
    if '/' ∈ tag.toList then
      .error (.invalidName ("Region name cannot contain '/' after prefix: " ++ regionName tag 0))
    else if 252 < tag.utf8ByteSize then
      .error (.invalidName ("Region name too long (max 255): " ++ regionName tag 0))
    else .ok () := by
  have hlong : maxNameBytes < (regionName tag 0).utf8ByteSize ↔ 252 < tag.utf8ByteSize := by
    rw [utf8ByteSize_regionName_zero, maxNameBytes]
    omega
  simp only [checkName_eq, hlong]

theorem lockable_iff : Lockable tag ↔ '/' ∉ tag.toList ∧ (∀ c ∈ tag.toList, c.toNat ≠ 0) ∧
    tag.utf8ByteSize ≤ 250 := by
  have hshort : (lockName tag).utf8ByteSize ≤ maxNameBytes ↔ tag.utf8ByteSize ≤ 250 := by
    rw [utf8ByteSize_lockName, maxNameBytes]
    omega
  constructor
  · rintro ⟨valid, noNul, short⟩
    refine ⟨fun slash => ?_, any_nul_eq_false_iff.mp noNul, hshort.mp short⟩
    rw [checkName_zero_eq, if_pos slash] at valid
    cases valid
  · rintro ⟨noSlash, noNul, short⟩
    refine ⟨?_, any_nul_eq_false_iff.mpr noNul, hshort.mpr short⟩
    rw [checkName_zero_eq, if_neg noSlash, if_neg (by omega)]

/-- A fault of the tag is what its lock fails with, whatever files there are. -/
theorem lock_of_fault (i : Image) (fault : TagFault tag e) : i.lock tag = .error e := by
  unfold lock
  cases fault with
  | slash slash => rw [checkName_zero_eq, if_pos slash]
  | long noSlash long => rw [checkName_zero_eq, if_neg noSlash, if_pos long]
  | nul noSlash short nul =>
    rw [checkName_zero_eq, if_neg noSlash, if_neg (Nat.not_lt_of_le short)]
    exact if_pos (by simpa using nul)
  | lock noSlash noNul long short =>
    rw [checkName_zero_eq, if_neg noSlash, if_neg (Nat.not_lt_of_le short)]
    have hlong : maxNameBytes < (FileName.text (lockName tag)).size := by
      rw [FileName.size, utf8ByteSize_lockName, maxNameBytes]
      omega
    have hopen : i.directory.openFile (.text (lockName tag)) = .error .nameTooLong :=
      Directory.openFile_eq_error_iff.mpr (.inl (Directory.follow_of_long hlong _))
    refine (if_neg (Bool.eq_false_iff.mp (any_nul_eq_false_iff.mpr noNul))).trans ?_
    rw [hopen]

/-- A tag has a fault, or its lock can be named. -/
theorem exists_fault_or_lockable (tag : String) : (∃ e, TagFault tag e) ∨ Lockable tag := by
  by_cases slash : '/' ∈ tag.toList
  · exact .inl ⟨_, .slash slash⟩
  by_cases long : 252 < tag.utf8ByteSize
  · exact .inl ⟨_, .long slash long⟩
  by_cases nul : ∃ c ∈ tag.toList, c.toNat = 0
  · exact .inl ⟨_, .nul slash (Nat.le_of_not_lt long) nul⟩
  have noNul : ∀ c ∈ tag.toList, c.toNat ≠ 0 := fun c hc hzero => nul ⟨c, hc, hzero⟩
  by_cases longLock : 250 < tag.utf8ByteSize
  · exact .inl ⟨_, .lock slash noNul longLock (Nat.le_of_not_lt long)⟩
  · exact .inr (lockable_iff.mpr ⟨slash, noNul, Nat.le_of_not_lt longLock⟩)

/-- What is wrong with the file of a lock: the links of its name do not end at one, or it is a
directory. -/
inductive FileFault (i : Image) (tag : String) : OsError → Prop
  | links {cause : OsError}
      (fault : i.directory.follow linkLimit (.entry (.text (lockName tag))) = .error cause) :
      FileFault i tag cause
  | directory {file : FileName} (found : i.lockFile? tag = some file)
      (directory : i.directory.find? file = some .directory) : FileFault i tag .isDirectory

theorem fileFault_iff {cause : OsError} : i.FileFault tag cause ↔
    i.directory.openFile (.text (lockName tag)) = .error cause := by
  rw [Directory.openFile_eq_error_iff]
  constructor
  · rintro (fault | ⟨found, directory⟩)
    · exact .inl fault
    · exact .inr ⟨_, lockFile?_eq_some_iff.mp found, directory, rfl⟩
  · rintro (fault | ⟨file, hfollow, directory, rfl⟩)
    · exact .links fault
    · exact .directory (lockFile?_eq_some_iff.mpr hfollow) directory

/-- The file of a lock may be such that it cannot be opened. -/
theorem lock_of_fileFault (lockable : Lockable tag) {cause : OsError}
    (fault : i.FileFault tag cause) : i.lock tag = .error (.lockFailed cause) := by
  simp only [lock, lockable.valid, lockable.plain, fileFault_iff.mp fault, Bool.false_eq_true,
    if_false]

/-- **A lock is refused for a fault of its tag**, or because its file cannot be opened. -/
theorem lock_eq_error_iff : i.lock tag = .error e ↔ TagFault tag e ∨ Lockable tag ∧
    ∃ cause, i.FileFault tag cause ∧ e = .lockFailed cause := by
  constructor
  · intro h
    rcases exists_fault_or_lockable tag with ⟨e', fault⟩ | lockable
    · cases h.symm.trans (lock_of_fault i fault)
      exact .inl fault
    · cases hopen : i.directory.openFile (.text (lockName tag)) with
      | ok d => cases h.symm.trans (lock_eq_ok_iff.mpr ⟨lockable, d, hopen, rfl⟩)
      | error cause =>
        have fault := fileFault_iff.mpr hopen
        have hrefused := lock_of_fileFault lockable fault
        exact .inr ⟨lockable, cause, fault, Except.error.inj (h.symm.trans hrefused)⟩
  · rintro (fault | ⟨lockable, cause, fault, rfl⟩)
    · exact lock_of_fault i fault
    · exact lock_of_fileFault lockable fault

/-- Slashes and more than 252 bytes are what a lock reports as an invalid name. -/
theorem reported_lock_iff :
    Reported (i.lock tag) ↔ '/' ∈ tag.toList ∨ 252 < tag.utf8ByteSize := by
  constructor
  · rintro ⟨text, h⟩
    rcases lock_eq_error_iff.mp h with fault | ⟨-, cause, -, hcause⟩
    · cases fault with
      | slash slash => exact .inl slash
      | long _ long => exact .inr long
    · cases hcause
  · intro h
    by_cases slash : '/' ∈ tag.toList
    · exact ⟨_, lock_of_fault i (.slash slash)⟩
    · exact ⟨_, lock_of_fault i (.long slash (h.resolve_left slash))⟩

/-! ## The name of the region -/

/-- If the lock of a tag can be named, what is left to refuse is the length of the region's name. -/
theorem nameFault?_eq (lockable : Lockable tag) : i.nameFault? tag =
    if maxNameBytes < (regionName tag i.self).utf8ByteSize then
      some (.invalidName ("Region name too long (max 255): " ++ regionName tag i.self))
    else none := by
  have hslash := (lockable_iff.mp lockable).1
  simp only [nameFault?, checkName_eq, if_neg hslash, any_nul_regionName, lockable.plain]
  by_cases hlong : maxNameBytes < (regionName tag i.self).utf8ByteSize
  · simp only [if_pos hlong]
  · simp only [if_neg hlong, Bool.false_eq_true, if_false]

theorem long_of_illegal (lockable : Lockable tag) (illegal : ¬Nameable tag i.self) :
    maxNameBytes < (regionName tag i.self).utf8ByteSize := by
  by_contra hshort
  obtain ⟨slash, nul, -⟩ := lockable_iff.mp lockable
  exact illegal ⟨slash, nul, Nat.le_of_not_lt hshort, lockable.short⟩

/-- Under its lock a tag that is not nameable is reported. -/
theorem reported_make (taken : i.lock tag = .ok locked) (illegal : ¬Nameable tag i.self)
    (size : Nat) : Reported (locked.make tag size).1 := by
  have hlockable := (lock_eq_ok_iff.mp taken).1
  have hself : locked.self = i.self := congrArg (·.self) (lock_eq taken)
  rw [← hself] at illegal
  have hmake := congrArg Prod.fst (make_eq locked tag size)
  rw [nameFault?_eq hlockable, if_pos (long_of_illegal hlockable illegal)] at hmake
  exact ⟨_, hmake⟩

/-- What a lock is refused with is what the caller gets. -/
theorem create_of_refused (refused : i.lock tag = .error e) :
    (i.create tag size).1 = .error e ∧ (i.openOrCreate tag size).1 = .error e := by
  simp only [create, openOrCreate, refused, and_self]

theorem reported_create_iff (illegal : ¬Nameable tag i.self) :
    Reported (i.create tag size).1 ↔
      '/' ∈ tag.toList ∨ 252 < tag.utf8ByteSize ∨ ∃ locked, i.lock tag = .ok locked := by
  rw [← or_assoc, ← reported_lock_iff (i := i)]
  cases hlock : i.lock tag with
  | error e =>
    rw [(create_of_refused hlock).1]
    simp [Reported]
  | ok locked =>
    have hmake : (i.create tag size).1 = (locked.make tag size).1 := by
      simp only [create, hlock]
    rw [hmake]
    exact iff_of_true (reported_make hlock illegal size) (.inr ⟨_, rfl⟩)

/-- An opening that finds a region under the lock comes to no creation. -/
theorem reported_openOrCreate_iff (illegal : ¬Nameable tag i.self) :
    Reported (i.openOrCreate tag size).1 ↔
      '/' ∈ tag.toList ∨ 252 < tag.utf8ByteSize ∨ ∃ locked, i.lock tag = .ok locked ∧
        ((locked.seek tag size).1 = .ok none ∨ Reported (locked.seek tag size).1) := by
  rw [← or_assoc, ← reported_lock_iff (i := i)]
  cases hlock : i.lock tag with
  | error e =>
    rw [(create_of_refused hlock).2]
    simp [Reported]
  | ok locked =>
    have hmake := reported_make hlock illegal size
    simp only [openOrCreate, hlock, Except.ok.injEq, exists_eq_left']
    cases hseek : locked.seek tag size with
    | mk result records =>
      rcases result with e | (_ | m)
      · simp [Reported]
      · exact iff_of_true hmake (.inr (.inl rfl))
      · simp [Reported]

/-- **Which tags are reported as invalid names.** A lock is refused for the faults of its tag, and
otherwise only if its file cannot be opened. A creation or an opening fails as its lock does. For a tag
that is not nameable, it reports an invalid name if and only if the lock does, or if the lock is taken
and no live region is found. -/
theorem illegal_reported_iff (i : Image) (tag : String) (size : Nat) :
    (∀ e, i.lock tag = .error e ↔ TagFault tag e ∨ Lockable tag ∧
      ∃ cause, i.FileFault tag cause ∧ e = .lockFailed cause) ∧
    (∀ e, i.lock tag = .error e →
      (i.create tag size).1 = .error e ∧ (i.openOrCreate tag size).1 = .error e) ∧
    (¬Nameable tag i.self →
      (Reported (i.create tag size).1 ↔
        '/' ∈ tag.toList ∨ 252 < tag.utf8ByteSize ∨ ∃ locked, i.lock tag = .ok locked) ∧
      (Reported (i.openOrCreate tag size).1 ↔
        '/' ∈ tag.toList ∨ 252 < tag.utf8ByteSize ∨ ∃ locked, i.lock tag = .ok locked ∧
          ((locked.seek tag size).1 = .ok none ∨ Reported (locked.seek tag size).1))) :=
  ⟨fun _ => lock_eq_error_iff, fun _ => create_of_refused, fun illegal =>
    ⟨reported_create_iff illegal, reported_openOrCreate_iff illegal⟩⟩

/-- A process without any files. -/
def bare : Image where
  self := 7
  isAlive _ := false

/-- A tag of any length. -/
def plainTag (n : Nat) : String := String.ofList (List.replicate n 'x')

theorem utf8ByteSize_plainTag (n : Nat) : (plainTag n).utf8ByteSize = n := by
  induction n with
  | zero => rfl
  | succ n ih =>
    rw [plainTag, List.replicate_succ', String.ofList_append, String.utf8ByteSize_append,
      ← plainTag, ih]
    rfl

theorem eq_of_mem_plainTag {n : Nat} {c : Char} (h : c ∈ (plainTag n).toList) : c = 'x' := by
  rw [plainTag, String.toList_ofList] at h
  exact List.eq_of_mem_replicate h

/-- With a NUL, and with 251 bytes, a tag is not nameable, and not reported as an invalid name. -/
theorem illegal_reported_iff_bare :
    (¬Nameable "a\x00b" 7 ∧ (bare.create "a\x00b" 64).1 = .error (.lockFailed .interiorNul) ∧
      ¬Reported (bare.create "a\x00b" 64).1) ∧
    (¬Nameable (plainTag 251) 7 ∧
      (bare.openOrCreate (plainTag 251) 64).1 = .error (.lockFailed .nameTooLong) ∧
      ¬Reported (bare.openOrCreate (plainTag 251) 64).1) := by
  constructor
  · obtain ⟨herror, hrefused, hreported⟩ := illegal_reported_iff bare "a\x00b" 64
    have illegal : ¬Nameable "a\x00b" bare.self := fun h =>
      h.nul (Char.ofNat 0) (by decide) (by decide)
    have hlock : bare.lock "a\x00b" = .error (.lockFailed .interiorNul) :=
      (herror _).mpr (.inl (.nul (by decide) (by decide) ⟨Char.ofNat 0, by decide, by decide⟩))
    refine ⟨illegal, (hrefused _ hlock).1, ?_⟩
    rw [(hreported illegal).1, hlock]
    rintro (hslash | hlong | ⟨_, htaken⟩)
    · exact absurd hslash (by decide)
    · exact absurd hlong (by decide)
    · cases htaken
  · obtain ⟨herror, hrefused, hreported⟩ := illegal_reported_iff bare (plainTag 251) 64
    have illegal : ¬Nameable (plainTag 251) bare.self := fun h => by
      have hlock := h.lock
      rw [utf8ByteSize_lockName, utf8ByteSize_plainTag] at hlock
      exact absurd hlock (by decide)
    have hlock : bare.lock (plainTag 251) = .error (.lockFailed .nameTooLong) := by
      refine (herror _).mpr (.inl (.lock (fun hslash => ?_) (fun c hc => ?_) ?_ ?_))
      · cases eq_of_mem_plainTag hslash
      · rw [eq_of_mem_plainTag hc]
        decide
      · rw [utf8ByteSize_plainTag]
        decide
      · rw [utf8ByteSize_plainTag]
        decide
    refine ⟨illegal, (hrefused _ hlock).2, ?_⟩
    rw [(hreported illegal).2, hlock, utf8ByteSize_plainTag]
    rintro (hslash | hlong | ⟨_, htaken, -⟩)
    · cases eq_of_mem_plainTag hslash
    · exact absurd hlong (by decide)
    · cases htaken

end Image

end RunOnce.Region
