import RunOnce.Proofs.Region.Name

/-!
# What a sweep removes

**Lookups.** `find?` is the view of a directory: each operation is described by what it does to
`find?` (`find?_linkFile`, `find?_unlink`).

**Theorem (`find?_sweep`).** A sweep removes exactly the names of the stale regions that it was
given, apart from directories, which cannot be unlinked. It changes nothing else: not the names
owned here, and not the processes.

**Theorem (`find?_clean`).** A sweep of the regions of a tag spares the file of a region of this
process if the tag is another one or if the region's name is owned here.
-/

namespace RunOnce.Region

open Text

/-! ## Lookups -/

namespace Directory

theorem find?_link (d : Directory) (name other : FileName) (node : Node) :
    (d.link name node).find? other = if name = other then some node else d.find? other := by
  by_cases h : name = other <;> simp [link, find?, h]

/-- A new name stands for a new file. -/
theorem find?_linkFile (d : Directory) (name other : FileName) (size : Nat) :
    (d.linkFile name size).2.find? other =
      if name = other then some (.file d.nextObject) else d.find? other :=
  find?_link d name other _

theorem find?_remove (d : Directory) (name other : FileName) :
    (d.remove name).find? other = if name = other then none else d.find? other := by
  have hfilter : ∀ entries : List (FileName × Node),
      (entries.filter fun e => !decide (e.1 = name)).find? (fun e => e.1 = other) =
        if name = other then none else entries.find? fun e => e.1 = other := by
    intro entries
    induction entries with
    | nil => simp
    | cons e rest ih =>
      by_cases hname : e.1 = name
      · by_cases h : name = other <;> simp_all
      · by_cases hother : e.1 = other
        · have hne : ¬ name = other := fun h => hname (hother.trans h.symm)
          simp [hother, hne, Ne.symm hne]
        · simp [hname, hother, ih]
  simp only [find?, remove, hfilter]
  split <;> rfl

/-- Unlinking takes a name away unless a directory has it. -/
theorem find?_unlink (d : Directory) (name other : FileName) :
    (d.unlink name).2.find? other =
      if name = other ∧ d.find? name ≠ some .directory then none else d.find? other := by
  unfold unlink
  split
  next h => simp [find?_remove, h]
  next h => simp [find?_remove, h]
  next h => simp [h]
  next h =>
    split
    next h' => rw [← h'.1, h]
    next => rfl

end Directory

/-! ## Sweeping -/

namespace Image

@[simp] theorem find?_unlink (i : Image) (name : String) (file : FileName) :
    (i.unlink name).2.directory.find? file =
      if fileOf name = file ∧ i.directory.find? file ≠ some .directory then none
      else i.directory.find? file := by
  rw [show (i.unlink name).2.directory = (i.directory.unlink (fileOf name)).2 from rfl,
    Directory.find?_unlink]
  by_cases h : fileOf name = file <;> simp [h]

/-- What a sweep does to the image at its first region. -/
theorem image_sweep_cons (name : String) (pid : UInt32) (rest : List (String × UInt32))
    (i : Image) :
    (sweep ((name, pid) :: rest) i).2.1 =
      if i.isStale name pid then (sweep rest (i.unlink name).2).2.1 else (sweep rest i).2.1 := by
  rw [sweep]
  split
  · simp only
    split <;> rfl
  · rfl

@[simp] theorem sweep_self (regions : List (String × UInt32)) (i : Image) :
    (sweep regions i).2.1.self = i.self := by
  induction regions generalizing i with
  | nil => rfl
  | cons e rest ih =>
    rw [image_sweep_cons]
    split
    · exact ih _
    · exact ih i

@[simp] theorem sweep_isAlive (regions : List (String × UInt32)) (i : Image) :
    (sweep regions i).2.1.isAlive = i.isAlive := by
  induction regions generalizing i with
  | nil => rfl
  | cons e rest ih =>
    rw [image_sweep_cons]
    split
    · exact ih _
    · exact ih i

@[simp] theorem sweep_owned (regions : List (String × UInt32)) (i : Image) :
    (sweep regions i).2.1.owned = i.owned := by
  induction regions generalizing i with
  | nil => rfl
  | cons e rest ih =>
    rw [image_sweep_cons]
    split
    · exact ih _
    · exact ih i

/-- Whether a file belongs to a stale region among the given ones. -/
def condemns (i : Image) (regions : List (String × UInt32)) (file : FileName) : Bool :=
  regions.any fun e => decide (fileOf e.1 = file) && i.isStale e.1 e.2

theorem condemns_cons (i : Image) (name : String) (pid : UInt32)
    (rest : List (String × UInt32)) (file : FileName) :
    i.condemns ((name, pid) :: rest) file =
      (decide (fileOf name = file) && i.isStale name pid || i.condemns rest file) := rfl

/-- Whether a region is stale does not depend on the directory. -/
@[simp] theorem condemns_unlink (i : Image) (name : String) (regions : List (String × UInt32))
    (file : FileName) : (i.unlink name).2.condemns regions file = i.condemns regions file := rfl

/-- A sweep removes the names of the stale regions that it was given, apart from directories. -/
theorem find?_sweep (regions : List (String × UInt32)) (i : Image) (file : FileName) :
    (sweep regions i).2.1.directory.find? file =
      if i.condemns regions file = true ∧ i.directory.find? file ≠ some .directory then none
      else i.directory.find? file := by
  induction regions generalizing i with
  | nil => simp [sweep, condemns]
  | cons e rest ih =>
    obtain ⟨name, pid⟩ := e
    rw [image_sweep_cons, condemns_cons]
    by_cases hstale : i.isStale name pid = true
    · rw [if_pos hstale, ih, condemns_unlink, find?_unlink]
      by_cases hname : fileOf name = file
      · by_cases hdir : i.directory.find? file = some .directory <;> simp [hname, hdir, hstale]
      · simp [hname]
    · rw [if_neg hstale, ih]
      simp [hstale]

/-- The regions of a tag are the files in the directory that count as such. -/
theorem mem_list {i : Image} {tag name : String} {pid : UInt32} :
    (name, pid) ∈ i.list tag ↔
      ∃ file, (∃ node, (.text file, node) ∈ i.directory.entries) ∧ creator? tag file = some pid ∧
        name = "/" ++ file := by
  simp only [list, List.mem_filterMap]
  constructor
  · rintro ⟨⟨file | bytes, node⟩, hmem, hname⟩
    · obtain ⟨found, hfound, heq⟩ := Option.map_eq_some_iff.mp hname
      cases heq
      exact ⟨file, ⟨node, hmem⟩, hfound, rfl⟩
    · cases hname
  · rintro ⟨file, ⟨node, hmem⟩, hfound, rfl⟩
    exact ⟨(.text file, node), hmem, by simp [hfound]⟩

/-- The image after the stale regions of a tag are removed. -/
def clean (i : Image) (tag : String) : Image := (sweep (i.list tag) i).2.1

@[simp] theorem clean_self (i : Image) (tag : String) : (i.clean tag).self = i.self :=
  sweep_self _ _

@[simp] theorem clean_isAlive (i : Image) (tag : String) : (i.clean tag).isAlive = i.isAlive :=
  sweep_isAlive _ _

@[simp] theorem clean_owned (i : Image) (tag : String) : (i.clean tag).owned = i.owned :=
  sweep_owned _ _

/-- The sweep of a tag spares the regions that this process made for other tags, and those whose
names are owned here. -/
theorem find?_clean {i : Image} {tag other : String}
    (spared : other ≠ tag ∨ regionName other i.self ∈ i.owned) :
    (i.clean tag).directory.find? (fileOf (regionName other i.self)) =
      i.directory.find? (fileOf (regionName other i.self)) := by
  rw [clean, find?_sweep, if_neg]
  rintro ⟨hcondemned, -⟩
  obtain ⟨⟨name, pid⟩, hmem, hregion⟩ := List.any_eq_true.mp hcondemned
  obtain ⟨hfile, hstale⟩ := Bool.and_eq_true_iff.mp hregion
  obtain ⟨file, -, hcreator, rfl⟩ := mem_list.mp hmem
  rw [fileOf_slash, fileOf_regionName, decide_eq_true_eq, FileName.text.injEq] at hfile
  subst hfile
  obtain ⟨htag, hpid⟩ := creator?_regionFile.mp hcreator
  rcases spared with hne | howned
  · exact hne htag
  · rw [isStale, if_pos hpid.symm, ← regionName_eq] at hstale
    simp [howned] at hstale

end Image

end RunOnce.Region
