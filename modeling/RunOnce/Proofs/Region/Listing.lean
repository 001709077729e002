import RunOnce.Proofs.Region.Failed

/-!
# What a scan takes for a region

**Spelled names** (`spelledName`). The name of a region ends in the id of its creator, which is
written plainly. It is read back as a numeral, and a numeral may have a sign and zeros in front. So a
scan lists every name that ends in some spelling of an id (`mem_list_iff`).

**Theorem (`listed_iff_own_tag`).** A name that a process has made is listed for its own tag only,
with this process, and once. The file of a lock is listed for no tag.

**Theorem (`touched_iff_spelled`).** What is listed, opened, and swept away are the spelled names,
all of them. A name that is not spelled plainly could not have been made by any process for any tag,
but it is taken for a region like the others. So the listed names are those that can be made exactly
if all the spelled names that are there are plain.
-/

namespace RunOnce.Region

open Text

/-! ## Spelled names -/

/-- The name of a region whose creator's id is written in a spelling. -/
def spelledName (tag : String) (s : Spelling) (pid : UInt32) : String :=
  "/" ++ (tag ++ "_" ++ String.ofList (s.write pid))

theorem spelledName_plain (tag : String) (pid : UInt32) :
    spelledName tag .plain pid = regionName tag pid := by
  rw [regionName_eq, spelledName, regionFile, Spelling.write_plain, Nat.toString_eq_ofList_toDigits]

/-- A name is spelled in one way: by its last underscore, what follows is a numeral. -/
theorem spelledName_inj {tag other : String} {s t : Spelling} {pid pid' : UInt32} :
    spelledName tag s pid = spelledName other t pid' ↔ tag = other ∧ s = t ∧ pid = pid' := by
  constructor
  · intro h
    have hlist : tag.toList ++ '_' :: s.write pid = other.toList ++ '_' :: t.write pid' := by
      simpa [spelledName] using congrArg String.toList h
    obtain ⟨htag, hwrite⟩ := append_underscore_inj (s.underscore_notMem_write pid)
      (t.underscore_notMem_write pid') hlist
    exact ⟨String.toList_inj.mp htag, Spelling.write_inj.mp hwrite⟩
  · rintro ⟨rfl, rfl, rfl⟩
    rfl

/-- Only what is spelled plainly can be made. -/
theorem spelledName_eq_regionName {tag other : String} {s : Spelling} {pid pid' : UInt32} :
    spelledName tag s pid = regionName other pid' ↔ tag = other ∧ s = .plain ∧ pid = pid' := by
  rw [← spelledName_plain, spelledName_inj]

/-- A file counts as a region of a tag if its name is spelled for the tag. -/
theorem creator?_eq_some_iff_spelled {tag file : String} {pid : UInt32} :
    creator? tag file = some pid ↔ ∃ s : Spelling, "/" ++ file = spelledName tag s pid := by
  have hname (s : Spelling) : "/" ++ file = spelledName tag s pid ↔
      file.toList = tag.toList ++ '_' :: s.write pid := by
    rw [spelledName, String.append_right_inj, ← String.toList_inj]
    simp
  simp only [creator?_eq_some_iff, parseUInt32_eq_ok_iff, hname]
  constructor
  · rintro ⟨_, hfile, s, rfl⟩
    exact ⟨s, hfile⟩
  · rintro ⟨s, hfile⟩
    exact ⟨_, hfile, s, rfl⟩

namespace Image

variable {i locked : Image} {tag other name : String} {pid : UInt32} {size : Nat} {m : Mapping}
  {file : FileName} {node : Node}

/-- Whether there is something of the name. -/
def IsLinked (i : Image) (name : String) : Prop := i.directory.find? (fileOf name) ≠ none

/-- **A scan lists the spelled names that are there**, each with the id that it spells. -/
theorem mem_list_iff : (name, pid) ∈ i.list tag ↔
    ∃ s : Spelling, name = spelledName tag s pid ∧ i.IsLinked name := by
  constructor
  · intro h
    have hlinked : i.IsLinked name := find?_of_mem_list (e := (name, pid)) h
    obtain ⟨file, -, hcreator, rfl⟩ := mem_list.mp h
    obtain ⟨s, hs⟩ := creator?_eq_some_iff_spelled.mp hcreator
    exact ⟨s, hs, hlinked⟩
  · rintro ⟨s, rfl, hlinked⟩
    obtain ⟨node, hnode⟩ := Option.ne_none_iff_exists'.mp hlinked
    obtain ⟨⟨found, node'⟩, hfind, -⟩ := Option.map_eq_some_iff.mp hnode
    have hfound := List.find?_some hfind
    rw [decide_eq_true_eq] at hfound
    subst hfound
    rw [spelledName, fileOf_slash] at hfind
    exact mem_list.mpr ⟨_, ⟨node', List.mem_of_find?_eq_some hfind⟩,
      creator?_eq_some_iff_spelled.mpr ⟨s, rfl⟩, rfl⟩

/-- In a directory where names are distinct, no region is listed twice. -/
theorem nodup_list (distinct : i.directory.Distinct) (tag : String) :
    ((i.list tag).map (·.1)).Nodup := by
  have hnames : i.directory.entries.Pairwise fun e e' => e.1 ≠ e'.1 := List.pairwise_map.mp distinct
  show (((i.directory.entries.filterMap (regionOf? tag))).map (·.1)).Nodup
  rw [List.Nodup, List.pairwise_map, List.pairwise_filterMap]
  refine hnames.imp fun {e e'} hne region hregion region' hregion' heq => hne ?_
  obtain ⟨file, hfile, -, hname⟩ := regionOf?_eq_some_iff.mp hregion
  obtain ⟨file', hfile', -, hname'⟩ := regionOf?_eq_some_iff.mp hregion'
  rw [hname, hname', String.append_right_inj] at heq
  rw [hfile, hfile', heq]

/-- **A region is listed for its own tag only**, with its creator, and once. The names of two regions
differ, and the file of a lock is no region. -/
theorem listed_iff_own_tag (i : Image) (tag other : String) (pid : UInt32) :
    (∀ found, (regionName other pid, found) ∈ i.list tag ↔
      tag = other ∧ found = pid ∧ i.IsLinked (regionName other pid)) ∧
    (i.directory.Distinct → ((i.list tag).map (·.1)).Nodup) ∧
    (∀ pid', regionName tag pid = regionName other pid' ↔ tag = other ∧ pid = pid') ∧
    ∀ found, ("/" ++ lockName other, found) ∉ i.list tag := by
  refine ⟨fun found => ?_, fun distinct => nodup_list distinct tag, fun pid' => ?_,
    fun found hlock => ?_⟩
  · rw [mem_list_iff]
    constructor
    · rintro ⟨s, hname, hlinked⟩
      obtain ⟨htag, -, hpid⟩ := spelledName_eq_regionName.mp hname.symm
      exact ⟨htag, hpid, hlinked⟩
    · rintro ⟨rfl, rfl, hlinked⟩
      exact ⟨.plain, (spelledName_plain ..).symm, hlinked⟩
  · rw [regionName_eq, regionName_eq, String.append_right_inj, regionFile_inj]
  · obtain ⟨file, -, hcreator, hname⟩ := mem_list.mp hlock
    rw [String.append_right_inj] at hname
    rw [← hname, creator?_lockName] at hcreator
    cases hcreator

/-- One tag is a prefix of the other, and the region of the longer one is not listed for it. -/
theorem listed_iff_own_tag_prefix : littered.directory.Distinct ∧
    ("/t_1_5", 5) ∈ littered.list "t_1" ∧ (∀ found, ("/t_1_5", found) ∉ littered.list "t") ∧
    ((littered.list "t").map (·.1)).Nodup := by
  have hdistinct : littered.directory.Distinct := by
    rw [Directory.Distinct]
    decide
  have hname : regionName "t_1" 5 = "/t_1_5" := by rfl
  have hlinked : littered.IsLinked (regionName "t_1" 5) := by
    rw [IsLinked, hname]
    decide
  obtain ⟨hown, -, -, -⟩ := listed_iff_own_tag littered "t_1" "t_1" 5
  obtain ⟨hother, hnodup, -, -⟩ := listed_iff_own_tag littered "t" "t_1" 5
  rw [hname] at hown hother hlinked
  refine ⟨hdistinct, (hown 5).mpr ⟨rfl, rfl, hlinked⟩, fun found h => ?_, hnodup hdistinct⟩
  exact absurd ((hother found).mp h).1 (by decide)

/-! ## What is mapped -/

/-- What can be opened under a name is a mapping of this name. -/
theorem serves_of_mapExisting (h : i.mapExisting name size = .ok (some m)) :
    i.Serves name size m := by
  have hlinked : i.directory.find? (fileOf name) ≠ none := by
    simp [(mapExisting_found h).2.2]
  rcases serves_or_refuses hlinked size with ⟨m', serves⟩ | ⟨e, refuses⟩
  · cases h.symm.trans serves.mapExisting
    exact serves
  · cases h.symm.trans refuses.mapExisting

/-- What is found in a scan is listed under its name, and not stale. -/
theorem mapFirst_serves {failure : Option RegionError} {regions : List (String × UInt32)}
    (h : (i.mapFirst size failure regions).1 = .ok (some m)) :
    ∃ e ∈ regions, i.isStale e.1 e.2 = false ∧ i.Serves e.1 size m := by
  have hrest {e : String × UInt32} {rest : List (String × UInt32)}
      (found : ∃ e ∈ rest, i.isStale e.1 e.2 = false ∧ i.Serves e.1 size m) :
      ∃ e' ∈ e :: rest, i.isStale e'.1 e'.2 = false ∧ i.Serves e'.1 size m := by
    obtain ⟨e', he', hserves⟩ := found
    exact ⟨e', List.mem_cons_of_mem _ he', hserves⟩
  induction regions generalizing failure with
  | nil => cases failure <;> cases h
  | cons e rest ih =>
    unfold mapFirst at h
    split at h
    · exact hrest (ih h)
    next live =>
      split at h
      next hmap =>
        cases h
        exact ⟨e, List.mem_cons_self, Bool.eq_false_iff.mpr live, serves_of_mapExisting hmap⟩
      next => exact hrest (ih h)
      next => exact hrest (ih h)

/-- What can be opened under the lock was listed before: the file of the lock is empty when it is
made, and nothing is mapped at no size. -/
theorem mem_list_of_serves (lock : i.lock tag = .ok locked) {e : String × UInt32}
    (he : e ∈ locked.list tag) (serves : locked.Serves e.1 size m) : e ∈ i.list tag := by
  rcases lock_cases lock with rfl | ⟨file, -, -, rfl⟩
  · exact he
  · obtain ⟨name, ⟨node, hmem⟩, hcreator, hname⟩ := mem_list.mp he
    rcases List.mem_cons.mp hmem with hnew | hold
    · obtain ⟨rfl, -⟩ := Prod.mk.inj hnew
      have hlinked := serves.linked
      rw [hname, fileOf_slash, Directory.find?_linkFile, if_pos rfl] at hlinked
      obtain ⟨o, -, ho, hempty⟩ := Directory.isHollow_linkFile i.directory (.text name)
      rw [Directory.find?_linkFile, if_pos rfl, hlinked] at ho
      cases ho
      obtain rfl : size = 0 := Nat.eq_zero_of_le_zero (hempty ▸ serves.fits)
      cases i.space.fault?_zero.symm.trans serves.fault
    · exact mem_list.mpr ⟨name, ⟨node, hold⟩, hcreator, hname⟩

/-- What is found under the lock is a live region that is listed for the tag. -/
theorem seek_listed (lock : i.lock tag = .ok locked)
    (h : (locked.seek tag size).1 = .ok (some m)) :
    ∃ pid, (m.name, pid) ∈ i.list tag ∧ i.isStale m.name pid = false ∧
      i.directory.find? (fileOf m.name) = some (.file m.object) := by
  obtain ⟨⟨name, pid⟩, hmem, hlive, hserves⟩ := mapFirst_serves h
  obtain rfl : m.name = name := hserves.name
  replace hmem := mem_list_of_serves lock hmem hserves
  have hsame := takesLock lock
  have hstale : locked.isStale m.name pid = i.isStale m.name pid :=
    isStale_congr i locked hsame.self hsame.isAlive (by rw [hsame.owned])
  obtain ⟨node, hnode⟩ := Option.ne_none_iff_exists'.mp (find?_of_mem_list hmem)
  have hlocked := find?_lock lock hnode
  rw [hserves.linked] at hlocked
  exact ⟨pid, hmem, hstale ▸ hlive, hlocked ▸ hnode⟩

/-! ## What is taken away -/

/-- Making a region leaves what is not a stale region of its tag. -/
theorem find?_make (found : i.directory.find? file = some node)
    (spared : i.discards tag (file, node) = false) (size : Nat) :
    (i.make tag size).2.1.directory.find? file = some node := by
  have hclean := (clean_leaves i tag none).kept file node found spared
  have makes := make_makes i tag size
  generalize (i.make tag size).1 = result at makes
  generalize (i.make tag size).2.1 = i' at makes ⊢
  cases makes with
  | refused e => exact found
  | taken e => exact hclean
  | undone e free =>
    have hundone : (i.clean tag).LeavesNothing tag none _ := undo_leaves free
    refine hundone.kept file node hclean ?_
    rwa [discards_congr (clean_self ..) (clean_isAlive ..) (clean_owned ..)]
  | @made object linked link free =>
    obtain rfl : _ = linked := congrArg Prod.snd link
    show ((i.clean tag).link (regionName tag i.self)).2.directory.find? file = some node
    rw [find?_link, if_neg, hclean]
    rintro rfl
    rw [free] at hclean
    cases hclean

end Image

namespace Holdings.Operation

variable {i : Image} {op : Operation} {m : Mapping} {file : FileName} {node : Node}

/-- An operation that drops nothing leaves what is not a stale region of its tag. -/
theorem find?_answer (holds : ∀ tag m, op ≠ .drop tag m) (found : i.directory.find? file = some node)
    (spared : i.discards op.tag (file, node) = false) :
    (op.answer i).2.directory.find? file = some node := by
  have hlocked {locked : Image} (h : i.lock op.tag = .ok locked) :
      locked.directory.find? file = some node ∧ locked.discards op.tag (file, node) = false :=
    ⟨Image.find?_lock h found, by rw [Image.discards_lock h, spared]⟩
  cases op with
  | create tag size =>
    simp only [answer, Image.create]
    cases h : i.lock tag with
    | error e => exact found
    | ok locked => exact Image.find?_make (hlocked h).1 (hlocked h).2 size
  | openOrCreate tag size =>
    simp only [answer, Image.openOrCreate]
    cases h : i.lock tag with
    | error e => exact found
    | ok locked =>
      dsimp only
      cases hseek : locked.seek tag size with
      | mk result records =>
        rcases result with e | (_ | m)
        · exact (hlocked h).1
        · exact Image.find?_make (hlocked h).1 (hlocked h).2 size
        · exact (hlocked h).1
  | open? tag size =>
    simp only [answer, Image.open?]
    cases h : i.lock tag with
    | error e => exact found
    | ok locked =>
      dsimp only
      cases hseek : locked.seek tag size with
      | mk result records =>
        cases result with
        | error e => exact (hlocked h).1
        | ok found? => exact (hlocked h).1
  | cleanup tag =>
    simp only [answer, Image.cleanup]
    cases h : i.lock tag with
    | error e => exact found
    | ok locked => exact (Image.clean_leaves locked tag none).kept file node (hlocked h).1 (hlocked h).2
  | drop tag m => exact absurd rfl (holds tag m)

/-- What an operation opens is a live region that is listed for its tag. -/
theorem answer_listed (h : (op.answer i).1 = .ok (some m)) (guest : m.isOwner = false) :
    ∃ pid, (m.name, pid) ∈ i.list op.tag ∧ i.isStale m.name pid = false ∧
      i.directory.find? (fileOf m.name) = some (.file m.object) := by
  have hmake {locked : Image} {tag : String} {size : Nat}
      (h : (locked.make tag size).1.map some = .ok (some m)) : False := by
    have hmade := (Image.make_extends locked tag size).2
    generalize (locked.make tag size).1 = result at h hmade
    cases result with
    | error e => cases h
    | ok m' =>
      cases h
      cases (hmade m rfl).owner.symm.trans guest
  cases op with
  | create tag size =>
    simp only [answer, Image.create] at h
    cases hlock : i.lock tag with
    | error e => simp [hlock, Except.map] at h
    | ok locked =>
      rw [hlock] at h
      exact (hmake h).elim
  | openOrCreate tag size =>
    simp only [answer, Image.openOrCreate] at h
    cases hlock : i.lock tag with
    | error e => simp [hlock, Except.map] at h
    | ok locked =>
      simp only [hlock] at h
      cases hseek : locked.seek tag size with
      | mk result records =>
        rw [hseek] at h
        rcases result with e | (_ | m')
        · cases h
        · exact (hmake h).elim
        · cases h
          exact Image.seek_listed hlock (congrArg Prod.fst hseek)
  | open? tag size =>
    simp only [answer, Image.open?] at h
    cases hlock : i.lock tag with
    | error e => simp [hlock] at h
    | ok locked =>
      simp only [hlock] at h
      cases hseek : locked.seek tag size with
      | mk result records =>
        rw [hseek] at h
        cases result with
        | error e => cases h
        | ok found? =>
          cases h
          exact Image.seek_listed hlock (congrArg Prod.fst hseek)
  | cleanup tag => cases h
  | drop tag m' => cases h

/-- What an operation opens or takes away is spelled for its tag: a live region is opened, and a
stale one is taken away. -/
structure Touches (op : Operation) (i : Image) : Prop where
  opens : ∀ m, (op.answer i).1 = .ok (some m) → m.isOwner = false →
    ∃ s pid, m.name = spelledName op.tag s pid ∧ i.isStale m.name pid = false ∧
      i.directory.find? (fileOf m.name) = some (.file m.object)
  removes : ∀ file node, i.directory.find? file = some node →
    (op.answer i).2.directory.find? file ≠ some node →
    ∃ s pid, file = fileOf (spelledName op.tag s pid) ∧
      i.isStale (spelledName op.tag s pid) pid = true ∧ node ≠ .directory

theorem touches (op : Operation) (holds : ∀ tag m, op ≠ .drop tag m) : op.Touches i where
  opens m h guest := by
    obtain ⟨pid, hmem, hlive, hlinked⟩ := answer_listed h guest
    obtain ⟨s, hname, -⟩ := Image.mem_list_iff.mp hmem
    exact ⟨s, pid, hname, hlive, hlinked⟩
  removes file node found gone := by
    have hdiscards : i.discards op.tag (file, node) = true := by
      by_contra hspared
      exact gone (find?_answer holds found (Bool.eq_false_iff.mpr hspared))
    obtain ⟨name, pid, rfl, hcreator, hstale, hplain⟩ := Image.discards_iff.mp hdiscards
    obtain ⟨s, hs⟩ := creator?_eq_some_iff_spelled.mp hcreator
    rw [hs] at hstale
    exact ⟨s, pid, by rw [← hs, fileOf_slash], hstale, hplain⟩

end Holdings.Operation

namespace Image

variable {i locked : Image} {tag : String} {s : Spelling} {pid : UInt32}

/-- A name is taken for that of a region: if it is stale it is swept away, and if it is the only live
one of its tag it is opened. -/
structure Regards (i locked : Image) (tag : String) (s : Spelling) (pid : UInt32) : Prop where
  sweeps : ∀ node, i.directory.find? (fileOf (spelledName tag s pid)) = some node →
    node ≠ .directory → i.isStale (spelledName tag s pid) pid = true →
    (i.cleanup tag).2.1.directory.find? (fileOf (spelledName tag s pid)) = none
  opens : ∀ size m, locked.live tag = [(spelledName tag s pid, pid)] →
    locked.Serves (spelledName tag s pid) size m →
    (i.openOrCreate tag size).1 = .ok m ∧ (i.open? tag size).1 = some m

/-- However the id of its creator is spelled, a region is taken for one. -/
theorem regards (lock : i.lock tag = .ok locked) (s : Spelling) (pid : UInt32) :
    i.Regards locked tag s pid where
  sweeps node found plain stale := by
    have hlinked : i.IsLinked (spelledName tag s pid) := by simp [IsLinked, found]
    have hmem := mem_list_iff.mpr ⟨s, rfl, hlinked⟩
    have hsame := takesLock lock
    rw [← isStale_congr i locked hsame.self hsame.isAlive (by rw [hsame.owned])] at stale
    replace hmem := mem_list_lock lock hmem
    simp only [cleanup, lock]
    rw [find?_sweep, find?_lock lock found]
    refine if_pos ⟨List.any_eq_true.mpr ⟨_, hmem, ?_⟩, fun h => plain (Option.some.inj h)⟩
    rw [decide_eq_true rfl, stale, Bool.and_self]
  opens size m live serves := by
    have hlinked : ∀ e ∈ locked.list tag, locked.directory.find? (fileOf e.1) ≠ none :=
      fun e he => find?_of_mem_list he
    have hlively : locked.lively (locked.list tag) = [] ++ [(spelledName tag s pid, pid)] := live
    obtain ⟨records, hseek⟩ : ∃ records, locked.seek tag size = (.ok (some m), records) :=
      ⟨_, Prod.ext (mapFirst_of_serves hlinked hlively (by simp) serves) rfl⟩
    simp [openOrCreate, open?, lock, hseek]

/-- **Every spelled name is taken for that of a region**, and no other name is. Those that are not
spelled plainly are no process's, so all that is listed can have been made if and only if all that is
there is spelled plainly. -/
theorem touched_iff_spelled (i : Image) (tag : String) :
    (∀ name pid, (name, pid) ∈ i.list tag ↔
      ∃ s : Spelling, name = spelledName tag s pid ∧ i.IsLinked name) ∧
    (∀ s pid, (∃ other creator, spelledName tag s pid = regionName other creator) ↔ s = .plain) ∧
    ((∀ e ∈ i.list tag, e.1 = regionName tag e.2) ↔
      ∀ s pid, i.IsLinked (spelledName tag s pid) → s = .plain) ∧
    (∀ op : Holdings.Operation, op.tag = tag → (∀ t m, op ≠ .drop t m) → op.Touches i) ∧
    ∀ locked, i.lock tag = .ok locked → ∀ s pid, i.Regards locked tag s pid := by
  refine ⟨fun name pid => mem_list_iff, fun s pid => ?_, ?_, fun op _ holds => op.touches holds,
    fun locked lock s pid => regards lock s pid⟩
  · constructor
    · rintro ⟨other, creator, h⟩
      exact (spelledName_eq_regionName.mp h).2.1
    · rintro rfl
      exact ⟨tag, pid, spelledName_plain tag pid⟩
  · constructor
    · intro h s pid hlinked
      have hname := h (spelledName tag s pid, pid) (mem_list_iff.mpr ⟨s, rfl, hlinked⟩)
      exact (spelledName_eq_regionName.mp hname).2.1
    · rintro h ⟨name, pid⟩ hmem
      obtain ⟨s, rfl, hlinked⟩ := mem_list_iff.mp hmem
      rw [h s pid hlinked]
      exact spelledName_plain tag pid

/-- A directory with what an ended process has left and with a live region. The id of the one has a
sign, that of the other has zeros in front. -/
def disguised : Image where
  self := 7
  isAlive pid := pid = 9
  directory :=
    { entries := [(.text "t.lock", .file 0), (.text "t_+5", .file 1), (.text "t_0009", .file 2)]
      objects := ⟨[(0, { size := 0 }), (1, { size := 64 }), (2, { size := 64 })]⟩
      nextObject := 3 }

/-- No process can have made either of the two. The one is swept away, the other is opened. -/
theorem touched_iff_spelled_disguised : disguised.lock "t" = .ok disguised ∧
    ("/t_+5", 5) ∈ disguised.list "t" ∧ (∀ other creator, "/t_+5" ≠ regionName other creator) ∧
    (disguised.cleanup "t").2.1.directory.find? (.text "t_+5") = none ∧
    (disguised.openOrCreate "t" 64).1 =
      .ok { object := 2, size := 64, name := "/t_0009", isOwner := false } := by
  have htaken : disguised.lock "t" = .ok disguised := by rfl
  have hsigned : spelledName "t" { signed := true } 5 = "/t_+5" := by rfl
  have hzeros : spelledName "t" { zeros := 3 } 9 = "/t_0009" := by rfl
  have hlinked : disguised.IsLinked "/t_+5" := by
    rw [IsLinked]
    decide
  obtain ⟨hlist, hmade, -, -, hregards⟩ := touched_iff_spelled disguised "t"
  refine ⟨htaken, (hlist _ _).mpr ⟨_, hsigned.symm, hlinked⟩, fun other creator h => ?_, ?_, ?_⟩
  · exact absurd ((hmade _ _).mp ⟨other, creator, hsigned.trans h⟩) (by decide)
  · have hsweeps := (hregards _ htaken { signed := true } 5).sweeps
    rw [hsigned] at hsweeps
    exact hsweeps (.file 1) rfl nofun rfl
  · have hopens := (hregards _ htaken { zeros := 3 } 9).opens
    rw [hzeros] at hopens
    exact (hopens 64 _ rfl ⟨rfl, rfl, by decide, rfl, rfl, rfl, rfl⟩).1

end Image

end RunOnce.Region
