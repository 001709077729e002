import RunOnce.Region.Image
import RunOnce.Proofs.Text.Numeral

/-!
# Names of regions, read back

**Theorem (`creator?_regionFile`).** The file that a process makes for a tag counts as a region of
this tag, made by this process, and of no other tag.

A tag may hold underscores and digits, so a name can be cut in several places. Only the last
underscore is followed by a numeral, because a numeral has no underscore in it
(`underscore_notMem_of_parse`): this is the one place where a name is read back. What is read there
are the decimal digits of an id (`parseUInt32_toDigits`).
-/

namespace RunOnce.Region

open Text

/-- The file that a process makes for a tag. -/
def regionFile (tag : String) (pid : UInt32) : String := tag ++ "_" ++ toString pid.toNat

theorem toList_regionFile (tag : String) (pid : UInt32) :
    (regionFile tag pid).toList = tag.toList ++ '_' :: Nat.toDigits 10 pid.toNat := by
  simp [regionFile]

@[simp] theorem fileOf_slash (file : String) : fileOf ("/" ++ file) = .text file := by
  simp [fileOf]

theorem regionName_eq (tag : String) (pid : UInt32) :
    regionName tag pid = "/" ++ regionFile tag pid := by
  simp only [regionName, regionFile, String.append_assoc]

@[simp] theorem fileOf_regionName (tag : String) (pid : UInt32) :
    fileOf (regionName tag pid) = .text (regionFile tag pid) := by
  rw [regionName_eq, fileOf_slash]

/-- A cut before a part without underscores is the cut at the last underscore. -/
theorem append_underscore_inj {xs ys ds es : List Char} (hd : '_' ∉ ds) (he : '_' ∉ es)
    (h : xs ++ '_' :: ds = ys ++ '_' :: es) : xs = ys ∧ ds = es := by
  rcases List.append_eq_append_iff.mp h with ⟨zs, rfl, hz⟩ | ⟨zs, rfl, hz⟩
  all_goals
    cases zs with
    | nil => simpa [eq_comm] using hz
    | cons z rest =>
      obtain ⟨rfl, rfl⟩ := List.cons.inj hz
      simp at hd he

theorem creator?_eq_some_iff {tag file : String} {pid : UInt32} :
    creator? tag file = some pid ↔
      ∃ digits, file.toList = tag.toList ++ '_' :: digits ∧ parseUInt32 digits = .ok pid := by
  unfold creator?
  cases h : (tag.toList ++ ['_']).isPrefixOf? file.toList with
  | none =>
    simp only [reduceCtorEq, false_iff, not_exists, not_and]
    intro digits hfile
    have : (tag.toList ++ ['_']).isPrefixOf? file.toList = some digits := by
      rw [List.isPrefixOf?_eq_some_iff_append_eq, hfile]
      simp
    simp [this] at h
  | some digits =>
    have hfile := List.append_eq_of_isPrefixOf?_eq_some h
    have hparse : (parseUInt32 digits).toOption = some pid ↔ parseUInt32 digits = .ok pid := by
      cases parseUInt32 digits <;> simp [Except.toOption]
    simp only [hparse, ← hfile, List.append_assoc, List.singleton_append,
      List.append_cancel_left_eq, List.cons.injEq, true_and, exists_eq_left']

/-- The file of a tag and a process belongs to this tag and this process only. -/
theorem creator?_regionFile {tag other : String} {pid found : UInt32} :
    creator? tag (regionFile other pid) = some found ↔ other = tag ∧ pid = found := by
  rw [creator?_eq_some_iff, toList_regionFile]
  constructor
  · intro ⟨digits, hcut, hparse⟩
    obtain ⟨htag, hdigits⟩ :=
      append_underscore_inj Nat.underscore_not_in_toDigits (underscore_notMem_of_parse hparse) hcut
    rw [← hdigits, parseUInt32_toDigits] at hparse
    exact ⟨String.toList_inj.mp htag, Except.ok.inj hparse⟩
  · rintro ⟨rfl, rfl⟩
    exact ⟨_, rfl, parseUInt32_toDigits pid⟩

/-- The file of a lock is no region, whatever the tag: it ends in a letter. -/
theorem creator?_lockName (tag other : String) : creator? tag (lockName other) = none := by
  cases h : creator? tag (lockName other) with
  | none => rfl
  | some pid =>
    obtain ⟨digits, hfile, hparse⟩ := creator?_eq_some_iff.mp h
    have hne : digits ≠ [] := by
      rintro rfl
      cases hparse
    have hlast : (lockName other).toList.getLast? = some 'k' := by
      rw [lockName, String.toList_append, List.getLast?_append_of_ne_nil _ (by decide)]
      rfl
    rw [hfile, List.getLast?_append_of_ne_nil _ (List.cons_ne_nil _ _),
      List.getLast?_cons_of_ne_nil hne] at hlast
    cases isDigit_getLast_of_parse hparse 'k' hlast

theorem regionFile_inj {tag other : String} {pid pid' : UInt32} :
    regionFile tag pid = regionFile other pid' ↔ tag = other ∧ pid = pid' := by
  constructor
  · intro h
    have hread : creator? tag (regionFile tag pid) = some pid := creator?_regionFile.mpr ⟨rfl, rfl⟩
    rw [h, creator?_regionFile] at hread
    exact ⟨hread.1.symm, hread.2.symm⟩
  · rintro ⟨rfl, rfl⟩
    rfl

end RunOnce.Region
