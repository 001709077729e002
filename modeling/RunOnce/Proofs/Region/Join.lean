import RunOnce.Proofs.Region.Attach
import RunOnce.Proofs.Region.Holdings

/-!
# Whose table an image joins

**Theorem (`Image.attach_joins`).** An image that attaches is refused; or it maps what a live region
of the tag stands for; or it makes a region of its own, with an object that was not there before,
and then no region of the tag was linked and owned here (`Image.Joins`). Whatever comes out of it,
the regions that are owned here stay linked (`Image.Spares`), old objects stay as they are, and
nothing new is linked but the own region and an empty file, that of the lock (`Image.Extends`).
-/

namespace RunOnce.Region

/-! ## What stays of a directory -/

namespace Directory

variable {d d' d'' : Directory}

/-- Every object has a key that was given out. -/
def Drawn (d : Directory) : Prop := ∀ o object, d.objects.get? o = some object → o < d.nextObject

/-- The objects of a directory are the same in the other one, where there may be new ones. -/
structure Extends (d d' : Directory) : Prop where
  next : d.nextObject ≤ d'.nextObject
  objects : ∀ o < d.nextObject, d'.objects.get? o = d.objects.get? o
  drawn : d.Drawn → d'.Drawn

theorem Extends.refl (d : Directory) : d.Extends d := ⟨Nat.le_refl _, fun _ _ => rfl, id⟩

theorem Extends.trans (h : d.Extends d') (h' : d'.Extends d'') : d.Extends d'' where
  next := Nat.le_trans h.next h'.next
  objects o ho := (h'.objects o (Nat.lt_of_lt_of_le ho h.next)).trans (h.objects o ho)
  drawn := h'.drawn ∘ h.drawn

theorem linkFile_extends (d : Directory) (name : FileName) (size : Nat) :
    d.Extends (d.linkFile name size).2 where
  next := Nat.le_succ _
  objects _ ho := Store.get?_set_of_ne _ (Nat.ne_of_gt ho) _
  drawn h o object ho := by
    by_cases hnew : d.nextObject = o
    · subst hnew
      exact Nat.lt_succ_self _
    · rw [show (d.linkFile name size).2.objects.get? o = d.objects.get? o from
        Store.get?_set_of_ne _ hnew _] at ho
      exact Nat.lt_succ_of_lt (h o object ho)

theorem unlink_extends (d : Directory) (name : FileName) : d.Extends (d.unlink name).2 := by
  unfold unlink
  split
  · exact ⟨Nat.le_refl _, fun _ _ => rfl, id⟩
  · exact ⟨Nat.le_refl _, fun _ _ => rfl, id⟩
  · exact .refl d
  · exact .refl d

/-- A new object may be changed. -/
theorem Extends.modify (h : d.Extends d') {key : Nat} (new : d.nextObject ≤ key)
    (f : Object → Object) : d.Extends { d' with objects := d'.objects.modify key f } where
  next := h.next
  objects o ho := by
    show (d'.objects.modify key f).get? o = _
    rw [Store.get?_modify, if_neg, h.objects o ho]
    rintro rfl
    exact absurd ho (Nat.not_lt_of_le new)
  drawn hd o object ho := by
    have hmodify : (d'.objects.modify key f).get? o = some object := ho
    rw [Store.get?_modify] at hmodify
    split at hmodify
    · obtain ⟨old, hold, -⟩ := Option.map_eq_some_iff.mp hmodify
      exact h.drawn hd o old hold
    · exact h.drawn hd o object hmodify

/-- A name stands for an empty file. -/
def IsHollow (d : Directory) (name : FileName) : Prop :=
  ∃ o < d.nextObject, d.find? name = some (.file o) ∧ d.sizeOf (.file o) = 0

theorem isHollow_linkFile (d : Directory) (name : FileName) : (d.linkFile name 0).2.IsHollow name :=
  ⟨d.nextObject, Nat.lt_succ_self _, by rw [find?_linkFile, if_pos rfl], by simp [sizeOf, linkFile]⟩

/-- An empty file stays one as long as its name does. -/
theorem IsHollow.of_extends {name : FileName} (h : d.IsHollow name) (extended : d.Extends d')
    (same : d'.find? name = d.find? name) : d'.IsHollow name := by
  obtain ⟨o, ho, hfile, hsize⟩ := h
  refine ⟨o, Nat.lt_of_lt_of_le ho extended.next, same.trans hfile, ?_⟩
  rw [← hsize, sizeOf, sizeOf, extended.objects o ho]

theorem sizeOf_modify (d : Directory) {f : Object → Object}
    (sized : ∀ object, (f object).size = object.size) {key o : Nat} :
    sizeOf { d with objects := d.objects.modify key f } (.file o) = d.sizeOf (.file o) := by
  simp only [sizeOf, Store.get?_modify]
  split
  · cases d.objects.get? o <;> simp [sized]
  · rfl

end Directory

namespace Image

variable {i i' i'' locked : Image} {tag : String} {size : Nat}

/-! ## What stays of an image -/

/-- The objects of an image are still there in the other one. What is linked there was linked before,
or it is an empty file, or the own region of the tag. -/
structure Extends (i i' : Image) (tag : String) : Prop where
  self : i'.self = i.self
  directory : i.directory.Extends i'.directory
  named : ∀ file ≠ fileOf (regionName tag i.self), i'.directory.find? file ≠ none →
    i'.directory.find? file = i.directory.find? file ∨ i'.directory.IsHollow file

theorem Extends.refl (i : Image) (tag : String) : i.Extends i tag :=
  ⟨rfl, .refl _, fun _ _ _ => .inl rfl⟩

theorem Extends.trans (h : i.Extends i' tag) (h' : i'.Extends i'' tag) : i.Extends i'' tag where
  self := h'.self.trans h.self
  directory := h.directory.trans h'.directory
  named file other linked := by
    have hother : file ≠ fileOf (regionName tag i'.self) := by rwa [h.self]
    rcases h'.named file hother linked with hsame | hhollow
    · rw [hsame] at linked ⊢
      rcases h.named file other linked with hold | hhollow
      · exact .inl hold
      · exact .inr (hhollow.of_extends h'.directory hsame)
    · exact .inr hhollow

/-- Names that go are no new ones. -/
theorem extends_of_names (self : i'.self = i.self) (directory : i.directory.Extends i'.directory)
    (names : ∀ file, i'.directory.find? file = none ∨
      i'.directory.find? file = i.directory.find? file) : i.Extends i' tag where
  self := self
  directory := directory
  named file _ linked := .inl ((names file).resolve_left linked)

theorem lock_extends (h : i.lock tag = .ok locked) : i.Extends locked tag where
  self := (lock_spares h).self
  directory := by
    rcases lock_cases h with rfl | ⟨_, -, -, rfl⟩
    · exact .refl _
    · exact Directory.linkFile_extends ..
  named file _ _ := by
    rcases lock_cases h with rfl | ⟨lockFile, -, -, rfl⟩
    · exact .inl rfl
    · by_cases hfile : lockFile = file
      · subst hfile
        exact .inr (Directory.isHollow_linkFile ..)
      · exact .inl (by rw [Directory.find?_linkFile, if_neg hfile])

theorem unlink_extends (i : Image) (name : String) : i.Extends (i.unlink name).2 tag := by
  refine extends_of_names rfl (Directory.unlink_extends ..) fun file => ?_
  rw [find?_unlink]
  split
  · exact .inl rfl
  · exact .inr rfl

theorem sweep_extends (regions : List (String × UInt32)) (i : Image) :
    i.Extends (sweep regions i).2.1 tag := by
  refine extends_of_names (sweep_self ..) ?_ fun file => ?_
  rotate_left
  · rw [find?_sweep]
    split
    · exact .inl rfl
    · exact .inr rfl
  induction regions generalizing i with
  | nil => exact .refl _
  | cons e rest ih =>
    rw [image_sweep_cons]
    split
    · have hunlink : i.directory.Extends (i.unlink e.1).2.directory := Directory.unlink_extends ..
      exact hunlink.trans (ih _)
    · exact ih i

theorem clean_extends (i : Image) (tag : String) : i.Extends (i.clean tag) tag := sweep_extends ..

/-- A region of this process gets a name and then a size. -/
theorem link_extends (i : Image) (tag : String) :
    i.Extends (i.link (regionName tag i.self)).2 tag ∧
    ∀ size, i.Extends { (i.link (regionName tag i.self)).2 with
      directory := (i.link (regionName tag i.self)).2.directory.resize
        (i.link (regionName tag i.self)).1 size } tag := by
  have hdirectory : i.directory.Extends (i.link (regionName tag i.self)).2.directory :=
    Directory.linkFile_extends ..
  have hnamed : ∀ file ≠ fileOf (regionName tag i.self),
      (i.link (regionName tag i.self)).2.directory.find? file = i.directory.find? file :=
    fun file other => by rw [find?_link, if_neg other.symm]
  exact ⟨⟨rfl, hdirectory, fun file other _ => .inl (hnamed file other)⟩, fun size =>
    ⟨rfl, hdirectory.modify (Nat.le_refl _) _, fun file other _ => .inl (hnamed file other)⟩⟩

/-- Changing a new object, but not its size. -/
theorem Extends.modify (h : i.Extends i' tag) {key : Nat} (new : i.directory.nextObject ≤ key)
    {f : Object → Object} (sized : ∀ object, (f object).size = object.size) :
    i.Extends { i' with directory :=
      { i'.directory with objects := i'.directory.objects.modify key f } } tag where
  self := h.self
  directory := h.directory.modify new f
  named file other linked := (h.named file other linked).imp_right fun ⟨o, ho, hfile, hsize⟩ =>
    ⟨o, ho, hfile, by rw [← hsize, Directory.sizeOf_modify _ sized]⟩

/-- Writing a name down. -/
theorem Extends.own (h : i.Extends i' tag) (name : String) : i.Extends (i'.own name) tag :=
  ⟨h.self, h.directory, h.named⟩

/-- What a process makes for a tag: an owner with a new object. -/
structure IsMade (i i' : Image) (size : Nat) (m : Mapping) : Prop where
  owner : m.isOwner = true
  size : m.size = size
  fresh : i.directory.nextObject ≤ m.object
  object : ∃ object, i'.directory.objects.get? m.object = some object

theorem make_extends (i : Image) (tag : String) (size : Nat) :
    i.Extends (i.make tag size).2.1 tag ∧
      ∀ m, (i.make tag size).1 = .ok m → i.IsMade (i.make tag size).2.1 size m := by
  have hclean := clean_extends i tag
  obtain ⟨hlink, hresize⟩ := link_extends (i.clean tag) tag
  rw [clean_self] at hlink hresize
  have makes := make_makes i tag size
  generalize (i.make tag size).1 = result at makes ⊢
  generalize (i.make tag size).2.1 = i' at makes ⊢
  cases makes with
  | refused e => exact ⟨.refl i tag, nofun⟩
  | taken e => exact ⟨hclean, nofun⟩
  | undone e => exact ⟨(hclean.trans hlink).trans (unlink_extends ..), nofun⟩
  | @made object linked link =>
    obtain rfl : (i.clean tag).directory.nextObject = object := congrArg Prod.fst link
    obtain rfl : _ = linked := congrArg Prod.snd link
    refine ⟨(hclean.trans (hresize size)).own _, fun m hm => ?_⟩
    cases hm
    refine ⟨rfl, rfl, hclean.directory.next, ?_⟩
    simp [Image.link, Directory.linkFile, Directory.resize, Store.get?_modify, own]

/-- What is found in a scan: a mapping of what a live region stands for. -/
structure IsFound (i : Image) (regions : List (String × UInt32)) (size : Nat) (m : Mapping) :
    Prop where
  guest : m.isOwner = false
  fits : size ≤ i.directory.sizeOf (.file m.object)
  size : m.size = size
  met : ∃ e ∈ regions, i.isStale e.1 e.2 = false ∧
    i.directory.find? (fileOf e.1) = some (.file m.object)

theorem mapExisting_found {name : String} {m : Mapping}
    (h : i.mapExisting name size = .ok (some m)) :
    m.isOwner = false ∧ m.size = size ∧
      i.directory.find? (fileOf name) = some (.file m.object) ∧
      size ≤ i.directory.sizeOf (.file m.object) := by
  unfold mapExisting at h
  split at h
  · cases h
  · split at h
    · cases h
    · cases h
    · cases h
    next found =>
      dsimp only at h
      split at h
      · cases h
      next large =>
        split at h
        · cases h
        · cases h
          exact ⟨rfl, rfl, found, Nat.le_of_not_lt large⟩

theorem mapFirst_found {failure : Option RegionError} {regions : List (String × UInt32)}
    {m : Mapping} (h : (i.mapFirst size failure regions).1 = .ok (some m)) :
    i.IsFound regions size m := by
  have hrest {e : String × UInt32} {rest : List (String × UInt32)} (found : i.IsFound rest size m) :
      i.IsFound (e :: rest) size m := by
    obtain ⟨e', he', hmet⟩ := found.met
    exact ⟨found.guest, found.fits, found.size, e', List.mem_cons_of_mem _ he', hmet⟩
  induction regions generalizing failure with
  | nil => cases failure <;> cases h
  | cons e rest ih =>
    unfold mapFirst at h
    split at h
    · exact hrest (ih h)
    next live =>
      split at h
      next hmap =>
        cases h
        obtain ⟨guest, hsize, found, fits⟩ := mapExisting_found hmap
        exact ⟨guest, fits, hsize, e, List.mem_cons_self, Bool.eq_false_iff.mpr live, found⟩
      next => exact hrest (ih h)
      next => exact hrest (ih h)

theorem openOrCreate_extends (i : Image) (tag : String) (size : Nat) :
    i.Extends (i.openOrCreate tag size).2.1 tag ∧
      ∀ m, (i.openOrCreate tag size).1 = .ok m →
        (i.openOrCreate tag size).2.1.IsFound ((i.openOrCreate tag size).2.1.list tag) size m ∨
        i.IsMade (i.openOrCreate tag size).2.1 size m := by
  unfold openOrCreate
  cases hlock : i.lock tag with
  | error e => exact ⟨.refl i tag, nofun⟩
  | ok locked =>
    have hlocked := lock_extends hlock
    dsimp only
    cases hseek : locked.seek tag size with
    | mk result records =>
      match result with
      | .error e => exact ⟨hlocked, nofun⟩
      | .ok none =>
        obtain ⟨hmake, hmade⟩ := make_extends locked tag size
        refine ⟨hlocked.trans hmake, fun m hm => .inr ?_⟩
        obtain ⟨owner, hsize, fresh, hobject⟩ := hmade m hm
        exact ⟨owner, hsize, Nat.le_trans hlocked.directory.next fresh, hobject⟩
      | .ok (some m) =>
        refine ⟨hlocked, fun m' hm => .inl ?_⟩
        cases hm
        exact mapFirst_found (congrArg Prod.fst hseek)

/-! ## Attaching -/

/-- What an image that attaches can get: nothing; a mapping of what a live region of the tag stands
for; or a region of its own, with an object that was not there. -/
inductive Joins (i : Image) (c : Config) (i' : Image) : Except RegionError SlotTable → Prop
  | refused (e : RegionError) (owned : i'.owned = i.owned) : Joins i c i' (.error e)
  | opens {t : SlotTable} (bare : t.claims = [] ∧ t.guard? = none)
      (found : i'.IsFound (i'.list c.regionTag) (regionSize c.slotCount) t.mapping)
      (owned : i'.owned = i.owned) : Joins i c i' (.ok t)
  | makes {t : SlotTable} (bare : t.claims = [] ∧ t.guard? = none)
      (made : i.IsMade i' (regionSize c.slotCount) t.mapping)
      (named : t.mapping.name = regionName c.regionTag i.self)
      (free : t.mapping.name ∈ i.owned → i.directory.find? (fileOf t.mapping.name) = none)
      (linked : i'.directory.find? (fileOf t.mapping.name) = some (.file t.mapping.object))
      (owned : i'.owned = i.owned ++ [t.mapping.name]) : Joins i c i' (.ok t)

/-- A table begins without claims and with its lock free. -/
theorem Joins.bare {c : Config} {t : SlotTable} (joins : i.Joins c i' (.ok t)) :
    t.claims = [] ∧ t.guard? = none := by
  cases joins with
  | opens bare => exact bare
  | makes bare => exact bare

/-- A mapping of the right size is taken as a table. Its creator writes the header. -/
theorem attach_eq (i : Image) (c : Config) :
    ((SlotTable.attach i c).1, (SlotTable.attach i c).2.1) =
      if Config.isTag c.regionTag then
        match (i.openOrCreate c.regionTag (regionSize c.slotCount)).1 with
        | .error e => (.error e, (i.openOrCreate c.regionTag (regionSize c.slotCount)).2.1)
        | .ok m => (.ok { mapping := m, slotCount := c.slotCount, pollSpins := c.pollSpins },
            if m.isOwner then
              { (i.openOrCreate c.regionTag (regionSize c.slotCount)).2.1 with
                directory := (i.openOrCreate c.regionTag
                  (regionSize c.slotCount)).2.1.directory.writeWord m.object 0
                    (UInt32.ofNat headerWords) }
            else (i.openOrCreate c.regionTag (regionSize c.slotCount)).2.1)
      else (.error (.invalidName c.regionTag), i) := by
  unfold SlotTable.attach
  by_cases htag : Config.isTag c.regionTag = true
  · have hsizes := (openOrCreate_extends i c.regionTag (regionSize c.slotCount)).2
    cases hopen : i.openOrCreate c.regionTag (regionSize c.slotCount) with
    | mk result rest =>
      rw [hopen] at hsizes
      cases result with
      | error e => simp [htag]
      | ok m =>
        have hsize : m.size = regionSize c.slotCount := by
          rcases hsizes m rfl with found | made
          · exact found.size
          · exact made.size
        simp [htag, SlotTable.ofMapping, hsize]
  · simp [htag]

/-- **Whatever comes out of attaching**, the owned regions stay, old objects stay, and nothing new is
linked but the own region and an empty file. -/
theorem attach_joins (i : Image) (c : Config) :
    i.Spares (SlotTable.attach i c).2.1 ∧ i.Extends (SlotTable.attach i c).2.1 c.regionTag ∧
      i.Joins c (SlotTable.attach i c).2.1 (SlotTable.attach i c).1 := by
  have hresult := congrArg Prod.fst (attach_eq i c)
  have himage := congrArg Prod.snd (attach_eq i c)
  dsimp only at hresult himage
  rw [hresult, himage]
  split
  · have houtcome := i.openOrCreate_outcome c.regionTag (regionSize c.slotCount)
    obtain ⟨hextends, hsource⟩ := i.openOrCreate_extends c.regionTag (regionSize c.slotCount)
    generalize (i.openOrCreate c.regionTag (regionSize c.slotCount)).1 = result at *
    generalize (i.openOrCreate c.regionTag (regionSize c.slotCount)).2.1 = i' at *
    cases result with
    | error e =>
      simp only [Except.map] at houtcome
      cases houtcome with
      | same spares owned => exact ⟨spares, hextends, .refused e owned⟩
    | ok m =>
      simp only [Except.map] at houtcome
      cases houtcome with
      | same spares owned guest =>
        have hguest := guest m rfl
        have hfound := (hsource m rfl).resolve_right fun made => by
          cases made.owner.symm.trans hguest
        simp only [hguest, Bool.false_eq_true, if_false]
        exact ⟨spares, hextends, .opens ⟨rfl, rfl⟩ hfound owned⟩
      | made spares owner named free linked owned =>
        have hmade := (hsource m rfl).resolve_left fun found => by
          cases owner.symm.trans found.guest
        obtain ⟨object, hobject⟩ := hmade.object
        simp only [owner, if_true]
        refine ⟨⟨spares.self, spares.linked⟩, hextends.modify hmade.fresh fun _ => rfl,
          .makes ⟨rfl, rfl⟩ ⟨owner, hmade.size, hmade.fresh, ?_⟩ named free linked owned⟩
        simp [Directory.writeWord, Store.get?_modify, hobject]
  · exact ⟨.refl i, .refl i _, .refused _ rfl⟩

end Image

end RunOnce.Region
