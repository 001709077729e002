import RunOnce.Proofs.Region.Sweep
import Mathlib.Logic.Relation

/-!
# Where links end

**The way** (`Meets`). From a name, links lead to further names of the directory. Where they end
depends on the names on the way only, and on those only as far as they are links (`follow_congr`).

**Opening a file** (`openFile_eq_ok_iff`). The links end elsewhere, or at a file, and nothing
changes; or they end at a name that is missing, and an empty file is made there. Opened a second
time, the file is there (`openFile_openFile`).
-/

namespace RunOnce.Region.Directory

variable {d d' : Directory} {start name file : FileName} {n : Nat}

/-- A name is a link to another one. -/
def LeadsTo (d : Directory) (name next : FileName) : Prop := d.linkAt? name = some (.entry next)

/-- A name is met when the links are followed from another one. -/
abbrev Meets (d : Directory) : FileName → FileName → Prop := Relation.ReflTransGen d.LeadsTo

/-- What a name stands for decides whether it is a link. -/
theorem linkAt?_congr (same : d'.find? name = d.find? name) : d'.linkAt? name = d.linkAt? name := by
  rw [linkAt?, same]
  rfl

theorem linkAt?_eq_none_iff : d.linkAt? name = none ↔
    ∀ destination, d.find? name ≠ some (.link destination) := by
  unfold linkAt?
  split
  next destination found => simp [found]
  next other => simpa using other

/-- A file in place of nothing is no link. -/
theorem linkAt?_linkFile (free : d.find? file = none) (size : Nat) (name : FileName) :
    (d.linkFile file size).2.linkAt? name = d.linkAt? name := by
  by_cases hname : file = name
  · subst hname
    simp [linkAt?, find?_linkFile, free]
  · exact linkAt?_congr (by rw [find?_linkFile, if_neg hname])

theorem Meets.congr (same : ∀ name, d.Meets start name → d'.linkAt? name = d.linkAt? name)
    (meets : d'.Meets start name) : d.Meets start name := by
  induction meets with
  | refl => exact .refl
  | tail _ leads ih => exact ih.tail ((same _ ih).symm.trans leads)

/-! ## Following links -/

/-- Where links end depends on the names on the way. -/
theorem follow_congr (same : ∀ name, d.Meets start name → d'.linkAt? name = d.linkAt? name) :
    d'.follow n (.entry start) = d.follow n (.entry start) := by
  induction n generalizing start with
  | zero => rw [follow, follow, same start .refl]
  | succ n ih =>
    rw [follow, follow, same start .refl]
    cases hlink : d.linkAt? start with
    | none => rfl
    | some destination =>
      cases destination with
      | elsewhere fault => cases fault <;> simp only [follow]
      | entry next =>
        have hnext := ih fun name meets => same name (meets.head hlink)
        simp only [hnext]

/-- The name at which links end is on the way, is no link, and is no longer than names are. -/
theorem follow_ends (h : d.follow n (.entry start) = .ok (some file)) :
    d.Meets start file ∧ d.linkAt? file = none ∧ file.size ≤ maxNameBytes := by
  induction n generalizing start with
  | zero =>
    rw [follow] at h
    split at h
    · cases h
    next short =>
      split at h
      next plain =>
        cases h
        exact ⟨.refl, plain, Nat.le_of_not_lt short⟩
      · cases h
  | succ n ih =>
    rw [follow] at h
    split at h
    · cases h
    next short =>
      split at h
      next plain =>
        cases h
        exact ⟨.refl, plain, Nat.le_of_not_lt short⟩
      next destination link =>
        cases destination with
        | elsewhere fault => cases fault <;> simp [follow] at h
        | entry next =>
          obtain ⟨meets, hend⟩ := ih h
          exact ⟨meets.head link, hend⟩

/-- Who follows links from a name has looked at the length of this name. -/
theorem size_of_follow {result : Option FileName} (h : d.follow n (.entry start) = .ok result) :
    start.size ≤ maxNameBytes := by
  rw [follow] at h
  split at h
  · cases h
  next short => exact Nat.le_of_not_lt short

/-- A name that is too long is followed nowhere. -/
theorem follow_of_long (long : maxNameBytes < start.size) (n : Nat) :
    d.follow n (.entry start) = .error .nameTooLong := by
  rw [follow, if_pos long]

/-- What is no link is a file, a directory, or missing. -/
theorem find?_of_linkAt? (plain : d.linkAt? name = none) : d.find? name = none ∨
    d.find? name = some .directory ∨ ∃ o, d.find? name = some (.file o) := by
  cases hfind : d.find? name with
  | none => exact .inl rfl
  | some node =>
    cases node with
    | file o => exact .inr (.inr ⟨o, rfl⟩)
    | directory => exact .inr (.inl rfl)
    | link destination => exact absurd hfind (linkAt?_eq_none_iff.mp plain destination)

/-- **What opening a file does.** -/
theorem openFile_eq_ok_iff : d.openFile start = .ok d' ↔
    d.follow linkLimit (.entry start) = .ok none ∧ d' = d ∨
    ∃ file, d.follow linkLimit (.entry start) = .ok (some file) ∧
      ((∃ o, d.find? file = some (.file o)) ∧ d' = d ∨
        d.find? file = none ∧ d' = (d.linkFile file 0).2) := by
  unfold openFile
  cases hfollow : d.follow linkLimit (.entry start) with
  | error fault => simp
  | ok result =>
    cases result with
    | none => simp [eq_comm]
    | some file =>
      obtain ⟨-, plain, -⟩ := follow_ends hfollow
      rcases find?_of_linkAt? plain with hnone | hdirectory | ⟨o, hfile⟩
      · simp [hnone, eq_comm]
      · simp [hdirectory]
      · simp [hfile, eq_comm]

/-- Why a file is not opened: links end nowhere, or at a directory. -/
theorem openFile_eq_error_iff {fault : OsError} : d.openFile start = .error fault ↔
    d.follow linkLimit (.entry start) = .error fault ∨
    ∃ file, d.follow linkLimit (.entry start) = .ok (some file) ∧
      d.find? file = some .directory ∧ fault = .isDirectory := by
  unfold openFile
  cases hfollow : d.follow linkLimit (.entry start) with
  | error fault => simp
  | ok result =>
    cases result with
    | none => simp
    | some file =>
      obtain ⟨-, plain, -⟩ := follow_ends hfollow
      rcases find?_of_linkAt? plain with hnone | hdirectory | ⟨o, hfile⟩
      · simp [hnone]
      · simp [hdirectory, eq_comm]
      · simp [hfile]

/-- A new file at the end of the way does not change the way. -/
theorem follow_linkFile (free : d.find? file = none) (size n : Nat) :
    (d.linkFile file size).2.follow n (.entry start) = d.follow n (.entry start) :=
  follow_congr fun name _ => linkAt?_linkFile free size name

/-- A file that was opened is there to be opened. -/
theorem openFile_openFile (h : d.openFile start = .ok d') : d'.openFile start = .ok d' := by
  rcases openFile_eq_ok_iff.mp h with ⟨-, rfl⟩ | ⟨file, hfollow, ⟨-, rfl⟩ | ⟨hnone, rfl⟩⟩
  · exact h
  · exact h
  · refine openFile_eq_ok_iff.mpr (.inr ⟨file, ?_, .inl ⟨⟨d.nextObject, ?_⟩, rfl⟩⟩)
    · rw [follow_linkFile hnone, hfollow]
    · rw [find?_linkFile, if_pos rfl]

/-- Whether a file can be opened depends on what the names on the way stand for. -/
theorem openFile_congr {opened : Directory} (h : d.openFile start = .ok opened)
    (same : ∀ name, d.Meets start name → d'.find? name = d.find? name) :
    ∃ opened', d'.openFile start = .ok opened' := by
  have hfollow : d'.follow linkLimit (.entry start) = d.follow linkLimit (.entry start) :=
    follow_congr fun name meets => linkAt?_congr (same name meets)
  rcases openFile_eq_ok_iff.mp h with ⟨haway, -⟩ | ⟨file, hfile, hend⟩
  · exact ⟨d', openFile_eq_ok_iff.mpr (.inl ⟨hfollow.trans haway, rfl⟩)⟩
  · have hsame := same file (follow_ends hfile).1
    rcases hend with ⟨⟨o, ho⟩, -⟩ | ⟨hnone, -⟩
    · exact ⟨d', openFile_eq_ok_iff.mpr
        (.inr ⟨file, hfollow.trans hfile, .inl ⟨⟨o, hsame.trans ho⟩, rfl⟩⟩)⟩
    · exact ⟨_, openFile_eq_ok_iff.mpr
        (.inr ⟨file, hfollow.trans hfile, .inr ⟨hsame.trans hnone, rfl⟩⟩)⟩

end RunOnce.Region.Directory
