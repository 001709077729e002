import RunOnce.Proofs.Region.Links
import RunOnce.Proofs.Region.Threads

/-!
# Which names are owned while regions are made and dropped

The names owned by an image are a list of plain texts, and a drop strikes its name without a lock.
A drop that has unlinked its name but not struck it can be overtaken (`Overtaken`): the next owner
for the tag links and writes down the same name, and then the strike takes that name away. From
then on the new owner's region counts as stale, and the next creation for the tag unlinks it.

**Theorem (`secure_iff`).** In a run, every owner stays written down and linked if and only if no
drop is overtaken when it strikes its name. There is no other way to lose an owner, whatever the
order of the steps and the number of requests and tags.

The proof keeps an invariant (`Order`): the lock of a tag has one holder, the region of a tag has
one maker, its file is linked, and an owner's name is written down. Each step is described by what
it does to the file of a tag (`find?_step`, `region_step`).
-/

namespace RunOnce.Region

/-! ## What one step does -/

namespace Image

variable {i : Image} {s : Stage} {tag : String}

/-- A tag whose lock can be named. -/
structure Lockable (tag : String) : Prop where
  valid : checkName (regionName tag 0) = .ok ()
  plain : (tag.toList.any fun c => c.toNat = 0) = false
  short : (lockName tag).utf8ByteSize ≤ maxNameBytes

/-- The name in the directory of the file that the lock of a tag is on: the lock's name, or the name
at which its links end. There is none if they lead elsewhere or nowhere. -/
def lockFile? (i : Image) (tag : String) : Option FileName :=
  (i.directory.follow linkLimit (.entry (.text (lockName tag)))).toOption.join

/-- The lock of a tag is taken if it can be named and its file can be opened. -/
theorem lock_eq_ok_iff {locked : Image} : i.lock tag = .ok locked ↔ Lockable tag ∧
    ∃ d, i.directory.openFile (.text (lockName tag)) = .ok d ∧
      locked = { i with directory := d } := by
  constructor
  · intro h
    unfold lock at h
    split at h
    · cases h
    next hvalid =>
      split at h
      · cases h
      next hplain =>
        split at h
        · cases h
        next d hopen =>
          have hshort : (lockName tag).utf8ByteSize ≤ maxNameBytes := by
            rcases Directory.openFile_eq_ok_iff.mp hopen with ⟨hfollow, -⟩ | ⟨file, hfollow, -⟩
            · exact Directory.size_of_follow hfollow
            · exact Directory.size_of_follow hfollow
          exact ⟨⟨hvalid, Bool.eq_false_iff.mpr hplain, hshort⟩, d, hopen,
            (Except.ok.inj h).symm⟩
  · rintro ⟨⟨valid, plain, -⟩, d, hopen, rfl⟩
    simp only [lock, valid, plain, hopen, Bool.false_eq_true, if_false]

/-- The links of a lock end at its file. -/
theorem lockFile?_eq_some_iff {file : FileName} : i.lockFile? tag = some file ↔
    i.directory.follow linkLimit (.entry (.text (lockName tag))) = .ok (some file) := by
  unfold lockFile?
  cases i.directory.follow linkLimit (.entry (.text (lockName tag))) <;> simp [Except.toOption]

/-- Taking a lock changes nothing, or makes the lock's file. -/
theorem lock_cases {locked : Image} (h : i.lock tag = .ok locked) :
    locked = i ∨ ∃ file, i.lockFile? tag = some file ∧ i.directory.find? file = none ∧
      locked = { i with directory := (i.directory.linkFile file 0).2 } := by
  obtain ⟨-, d, hopen, rfl⟩ := lock_eq_ok_iff.mp h
  rcases Directory.openFile_eq_ok_iff.mp hopen with
    ⟨-, rfl⟩ | ⟨file, hfollow, ⟨-, rfl⟩ | ⟨hnone, rfl⟩⟩
  · exact .inl rfl
  · exact .inl rfl
  · exact .inr ⟨file, lockFile?_eq_some_iff.mpr hfollow, hnone, rfl⟩

/-- A lock that was taken once is there to be taken. -/
theorem lock_lock {locked : Image} (h : i.lock tag = .ok locked) :
    locked.lock tag = .ok locked := by
  obtain ⟨lockable, d, hopen, rfl⟩ := lock_eq_ok_iff.mp h
  exact lock_eq_ok_iff.mpr ⟨lockable, d, Directory.openFile_openFile hopen, rfl⟩

/-- Only what is not there yet is linked when a lock is taken. -/
theorem find?_lock {locked : Image} (h : i.lock tag = .ok locked) {file : FileName} {node : Node}
    (found : i.directory.find? file = some node) : locked.directory.find? file = some node := by
  rcases lock_cases h with rfl | ⟨lockFile, -, hnone, rfl⟩
  · exact found
  · rw [Directory.find?_linkFile, if_neg]
    · exact found
    · rintro rfl
      simp [hnone] at found

theorem find?_link (i : Image) (name : String) (file : FileName) :
    (i.link name).2.directory.find? file =
      if fileOf name = file then some (.file (i.link name).1) else i.directory.find? file :=
  Directory.find?_linkFile ..

/-- What a step can do: the stage before, the stage after, and the image after. -/
inductive Move (i : Image) : Stage → Stage → Image → Prop
  | refuse (r : Request) (e : RegionError) : Move i (.arriving r) (.ended (.error e)) i
  | lock {r : Request} {locked : Image} (ok : i.lock r.tag = .ok locked) :
      Move i (.arriving r) (.holding r) locked
  | release (r : Request) (result : Except RegionError (Option Mapping)) :
      Move i (.holding r) (.ended result) i
  | miss (tag : String) (size : Nat) :
      Move i (.holding (.openOrCreate tag size)) (.holding (.create tag size)) i
  | cleanup (tag : String) : Move i (.holding (.cleanup tag)) (.ended (.ok none)) (i.clean tag)
  | sweep (tag : String) (size : Nat) :
      Move i (.holding (.create tag size)) (.swept tag size) (i.clean tag)
  | meet (tag : String) (size : Nat) (e : RegionError) :
      Move i (.swept tag size) (.ended (.error e)) i
  | link {tag : String} (size : Nat)
      (free : i.directory.find? (fileOf (regionName tag i.self)) = none) :
      Move i (.swept tag size) (.linked tag size (i.link (regionName tag i.self)).1)
        (i.link (regionName tag i.self)).2
  | undo (tag : String) (size object : Nat) (e : RegionError) :
      Move i (.linked tag size object) (.ended (.error e)) (i.unlink (regionName tag i.self)).2
  | map (tag : String) (size object : Nat) :
      Move i (.linked tag size object)
        (.mapped tag { object, size, name := regionName tag i.self, isOwner := true })
        { i with directory := i.directory.resize object size }
  | own (tag : String) (m : Mapping) : Move i (.mapped tag m) (.owning tag m) (i.own m.name)
  | unlink (tag : String) (m : Mapping) :
      Move i (.owning tag m) (.leaving tag m) (i.unlink m.name).2
  | strike (tag : String) (m : Mapping) :
      Move i (.leaving tag m) (.ended (.ok none)) (i.disown m.name)
  | rest (result : Except RegionError (Option Mapping)) : Move i (.ended result) (.ended result) i

theorem move_step (i : Image) (s : Stage) : Move i s (i.step s).1 (i.step s).2 := by
  cases s with
  | arriving r =>
    simp only [step]
    split
    · exact .refuse r _
    next ok => exact .lock ok
  | holding r =>
    cases r with
    | create tag size =>
      simp only [step]
      split
      · exact .release _ _
      · exact .sweep tag size
    | openOrCreate tag size =>
      simp only [step]
      split
      · exact .miss tag size
      · exact .release _ _
    | cleanup tag => exact .cleanup tag
  | swept tag size =>
    simp only [step]
    split
    · exact .meet tag size _
    next free => exact .link size free
  | linked tag size object =>
    simp only [step]
    split
    next hequip =>
      rw [equip_error hequip]
      exact .undo tag size object _
    next hequip =>
      obtain ⟨rfl, rfl⟩ := equip_ok hequip
      exact .map tag size object
  | mapped tag m => exact .own tag m
  | owning tag m => exact .unlink tag m
  | leaving tag m => exact .strike tag m
  | ended result => exact .rest result

variable {s' : Stage} {i' : Image}

theorem self_move (move : Move i s s' i') : i'.self = i.self := by
  cases move with
  | lock ok => rcases lock_cases ok with rfl | ⟨_, -, -, rfl⟩ <;> rfl
  | sweep | cleanup => exact clean_self ..
  | _ => rfl

/-- Who holds a lock held it before, or has taken it. -/
theorem lock_move (move : Move i s s' i') (h : s'.lock? = some tag) :
    s.lock? = some tag ∨ s.waits? = some tag := by
  cases move with
  | lock ok => exact .inr h
  | miss | sweep | link | map => exact .inl h
  | _ => cases h

/-- A mapping is named for its tag when it is made, and keeps its name. -/
theorem mapping_move (move : Move i s s' i') {m : Mapping} (h : s'.mapping? = some (tag, m)) :
    s.mapping? = some (tag, m) ∨ m.name = regionName tag i.self := by
  cases move with
  | map =>
    cases h
    exact .inr rfl
  | own | unlink => exact .inl h
  | _ => cases h

/-- A region was there before and its file stays, or it is new and so is its file. -/
theorem region_move (move : Move i s s' i') {object : Nat} (h : s'.region? = some (tag, object)) :
    (s.region? = some (tag, object) ∧ ∀ file, i'.directory.find? file = i.directory.find? file) ∨
      (i.directory.find? (fileOf (regionName tag i.self)) = none ∧
        i'.directory.find? (fileOf (regionName tag i.self)) = some (.file object)) := by
  cases move with
  | link size free =>
    cases h
    exact .inr ⟨free, by rw [find?_link, if_pos rfl]⟩
  | map | own => exact .inl ⟨h, fun _ => rfl⟩
  | _ => cases h

/-- Who becomes an owner has written its name down. -/
theorem recorded_move {m : Mapping} (move : Move i s (.owning tag m) i') : m.name ∈ i'.owned := by
  cases move with
  | own => exact List.mem_append_right _ (List.mem_singleton_self _)

/-- Only a strike takes a name away from those that are owned. -/
theorem owned_move (move : Move i s s' i') {name : String} (owned : name ∈ i.owned)
    (kept : ∀ t m, s = .leaving t m → m.name ≠ name) : name ∈ i'.owned := by
  cases move with
  | lock ok => rcases lock_cases ok with rfl | ⟨_, -, -, rfl⟩ <;> exact owned
  | sweep | cleanup => rwa [clean_owned]
  | own => exact List.mem_append_left _ owned
  | strike t m =>
    have hne : name ≠ m.name := (kept t m rfl).symm
    simpa [disown, hne] using owned
  | _ => exact owned

theorem fileOf_regionName_inj {t : String} {pid : UInt32} :
    fileOf (regionName t pid) = fileOf (regionName tag pid) ↔ t = tag := by
  simp [regionFile_inj]

/-- The file of a tag stays through a step of a request that has no region for the tag, if a sweep
under the tag's lock finds the name written down. -/
theorem find?_move (move : Move i s s' i') {node : Node}
    (named : ∀ t m, s.mapping? = some (t, m) → m.name = regionName t i.self)
    (apart : ∀ object, s.region? ≠ some (tag, object))
    (spared : s.lock? = some tag → regionName tag i.self ∈ i.owned)
    (found : i.directory.find? (fileOf (regionName tag i.self)) = some node) :
    i'.directory.find? (fileOf (regionName tag i.self)) = some node := by
  have hclean : ∀ t, (t = tag → regionName tag i.self ∈ i.owned) →
      (i.clean t).directory.find? (fileOf (regionName tag i.self)) = some node := by
    intro t ht
    rw [find?_clean, found]
    by_cases htag : tag = t
    · exact .inr (ht htag.symm)
    · exact .inl htag
  have hunlink : ∀ t, t ≠ tag → (i.unlink (regionName t i.self)).2.directory.find?
      (fileOf (regionName tag i.self)) = some node := by
    intro t ht
    rw [find?_unlink, if_neg, found]
    exact fun h => ht (fileOf_regionName_inj.mp h.1)
  cases move with
  | lock ok => exact find?_lock ok found
  | sweep t => exact hclean t fun ht => spared (congrArg some ht)
  | cleanup t => exact hclean t fun ht => spared (congrArg some ht)
  | @link t size free =>
    rw [find?_link, if_neg, found]
    intro h
    rw [fileOf_regionName_inj.mp h, found] at free
    cases free
  | undo t size object => exact hunlink t fun ht => apart object (by rw [ht]; rfl)
  | unlink t m =>
    rw [named t m rfl]
    exact hunlink t fun ht => apart m.object (by rw [ht]; rfl)
  | _ => exact found

end Image

/-! ## What a run keeps -/

namespace Process

variable {p : Process} {k : Nat}

/-- The stage and the image after a step, as a move. -/
theorem move_advance (p : Process) (k : Nat) :
    p.image.Move (p.stage k) ((p.advance k).stage k) (p.advance k).image := by
  rw [stage_advance_self]
  exact Image.move_step p.image (p.stage k)

theorem self_advance (p : Process) (k : Nat) : (p.advance k).image.self = p.image.self :=
  Image.self_move (move_advance p k)

/-- What one request has alone, one has alone after a step, unless the step gives it to a second. -/
theorem unique_advance (holds : Stage → Prop)
    (alone : ∀ j l, holds (p.stage j) → holds (p.stage l) → j = l)
    (taken : ∀ l, l ≠ k → holds (p.stage l) → ¬ holds ((p.advance k).stage k)) (j l : Nat)
    (hj : holds ((p.advance k).stage j)) (hl : holds ((p.advance k).stage l)) : j = l := by
  by_cases hjk : j = k
  · subst hjk
    by_contra hne
    rw [stage_advance_of_ne p (Ne.symm hne)] at hl
    exact taken l (Ne.symm hne) hl hj
  · rw [stage_advance_of_ne p hjk] at hj
    by_cases hlk : l = k
    · subst hlk
      exact absurd hl (taken j hjk hj)
    · rw [stage_advance_of_ne p hlk] at hl
      exact alone j l hj hl

/-- A drop is about to strike a name that a newer owner for the tag has written down. -/
def Overtaken (p : Process) (k : Nat) : Prop :=
  ∃ tag m, p.stage k = .leaving tag m ∧ ∃ j m', p.stage j = .owning tag m'

/-- Every owner is written down, its object is linked, and its tag has no second owner. -/
structure Secure (p : Process) : Prop where
  recorded : ∀ k tag m, p.stage k = .owning tag m → m.name ∈ p.image.owned
  linked : ∀ k tag m, p.stage k = .owning tag m →
    p.image.directory.find? (fileOf m.name) = some (.file m.object)
  sole : ∀ j k tag m m', p.stage j = .owning tag m → p.stage k = .owning tag m' → j = k

/-- A region that is written down is not stale. -/
theorem Secure.isStale_eq_false (h : p.Secure) {tag : String} {m : Mapping}
    (hk : p.stage k = .owning tag m) : p.image.isStale m.name p.image.self = false := by
  simp [Image.isStale, h.recorded k tag m hk]

/-- Locks and regions have one holder each; regions are linked, and owners are written down. -/
structure Order (p : Process) : Prop where
  alone : ∀ j k tag, (p.stage j).lock? = some tag → (p.stage k).lock? = some tag → j = k
  named : ∀ k tag m, (p.stage k).mapping? = some (tag, m) → m.name = regionName tag p.image.self
  sole : ∀ j k tag o o', (p.stage j).region? = some (tag, o) →
    (p.stage k).region? = some (tag, o') → j = k
  linked : ∀ k tag o, (p.stage k).region? = some (tag, o) →
    p.image.directory.find? (fileOf (regionName tag p.image.self)) = some (.file o)
  recorded : ∀ k tag m, p.stage k = .owning tag m → m.name ∈ p.image.owned

theorem IsFresh.order (fresh : p.IsFresh) : p.Order := by
  constructor
  all_goals
    intro j
    obtain ⟨r, hr⟩ := fresh j
    simp [hr, Stage.lock?, Stage.mapping?, Stage.region?]

namespace Order

theorem secure (h : p.Order) : p.Secure where
  recorded := h.recorded
  linked k tag m hk := by
    rw [h.named k tag m (by rw [hk]; rfl)]
    exact h.linked k tag m.object (by rw [hk]; rfl)
  sole j k tag m m' hj hk :=
    h.sole j k tag m.object m'.object (by rw [hj]; rfl) (by rw [hk]; rfl)

theorem alone_advance (h : p.Order) (possible : p.Possible k) (j l : Nat) (tag : String)
    (hj : ((p.advance k).stage j).lock? = some tag)
    (hl : ((p.advance k).stage l).lock? = some tag) : j = l := by
  apply unique_advance (fun s => s.lock? = some tag) (fun j l => h.alone j l tag) _ j l hj hl
  intro l hne hl hk
  rcases Image.lock_move (move_advance p k) hk with hheld | hwaits
  · exact hne (h.alone l k tag hl hheld)
  · exact possible tag hwaits l hl

theorem named_advance (h : p.Order) (j : Nat) (tag : String) (m : Mapping)
    (hj : ((p.advance k).stage j).mapping? = some (tag, m)) :
    m.name = regionName tag (p.advance k).image.self := by
  rw [self_advance]
  by_cases hjk : j = k
  · subst hjk
    rcases Image.mapping_move (move_advance p j) hj with hold | hnew
    · exact h.named j tag m hold
    · exact hnew
  · rw [stage_advance_of_ne p hjk] at hj
    exact h.named j tag m hj

theorem sole_advance (h : p.Order) (j l : Nat) (tag : String) (o o' : Nat)
    (hj : ((p.advance k).stage j).region? = some (tag, o))
    (hl : ((p.advance k).stage l).region? = some (tag, o')) : j = l := by
  apply unique_advance (fun s => ∃ o, s.region? = some (tag, o))
    (fun j l ⟨o, hj⟩ ⟨o', hl⟩ => h.sole j l tag o o' hj hl) _ j l ⟨o, hj⟩ ⟨o', hl⟩
  intro l hne ⟨o, hl⟩ ⟨o', hk⟩
  rcases Image.region_move (move_advance p k) hk with ⟨hheld, -⟩ | ⟨hfree, -⟩
  · exact hne (h.sole l k tag o o' hl hheld)
  · -- The file of the other region is there, so no new one can be linked.
    rw [h.linked l tag o hl] at hfree
    cases hfree

theorem linked_advance (h : p.Order) (j : Nat) (tag : String) (o : Nat)
    (hj : ((p.advance k).stage j).region? = some (tag, o)) :
    (p.advance k).image.directory.find? (fileOf (regionName tag (p.advance k).image.self)) =
      some (.file o) := by
  rw [self_advance]
  by_cases hjk : j = k
  · subst hjk
    rcases Image.region_move (move_advance p j) hj with ⟨hold, hsame⟩ | ⟨-, hnew⟩
    · rw [hsame]
      exact h.linked j tag o hold
    · exact hnew
  · rw [stage_advance_of_ne p hjk] at hj
    apply Image.find?_move (move_advance p k) (h.named k) _ _ (h.linked j tag o hj)
    · intro o' hk
      exact hjk (h.sole j k tag o o' hj hk)
    · -- The lock is held elsewhere, so this region's maker is done with it: an owner.
      intro hk
      cases hstage : p.stage j with
      | owning t m =>
        rw [hstage] at hj
        cases hj
        rw [← h.named j tag m (by rw [hstage]; rfl)]
        exact h.recorded j tag m hstage
      | linked t size object =>
        rw [hstage] at hj
        cases hj
        exact absurd (h.alone j k tag (by rw [hstage]; rfl) hk) hjk
      | mapped t m =>
        rw [hstage] at hj
        cases hj
        exact absurd (h.alone j k tag (by rw [hstage]; rfl) hk) hjk
      | _ =>
        rw [hstage] at hj
        cases hj

theorem recorded_advance (h : p.Order) (clear : ¬ p.Overtaken k) (j : Nat) (tag : String)
    (m : Mapping) (hj : (p.advance k).stage j = .owning tag m) :
    m.name ∈ (p.advance k).image.owned := by
  by_cases hjk : j = k
  · subst hjk
    have hmove := move_advance p j
    rw [hj] at hmove
    exact Image.recorded_move hmove
  · rw [stage_advance_of_ne p hjk] at hj
    apply Image.owned_move (move_advance p k) (h.recorded j tag m hj)
    intro t leaver hk hsame
    rw [h.named k t leaver (by rw [hk]; rfl), h.named j tag m (by rw [hj]; rfl)] at hsame
    have htag : t = tag := Image.fileOf_regionName_inj.mp (congrArg fileOf hsame)
    subst htag
    exact clear ⟨t, leaver, hk, j, m, hj⟩

/-- A step that is no overtaken strike keeps the order. -/
theorem advance (h : p.Order) (possible : p.Possible k) (clear : ¬ p.Overtaken k) :
    (p.advance k).Order where
  alone := h.alone_advance possible
  named := h.named_advance
  sole := h.sole_advance
  linked := h.linked_advance
  recorded := h.recorded_advance clear

end Order

/-- An overtaken strike loses an owner. -/
theorem Overtaken.not_secure (h : p.Order) (overtaken : p.Overtaken k) :
    ¬ (p.advance k).Secure := by
  obtain ⟨tag, leaver, hk, j, m, hj⟩ := overtaken
  intro hsecure
  have hne : j ≠ k := by
    rintro rfl
    rw [hj] at hk
    cases hk
  have hname : leaver.name = m.name := by
    rw [h.named k tag leaver (by rw [hk]; rfl), h.named j tag m (by rw [hj]; rfl)]
  have howned : m.name ∈ (p.image.disown leaver.name).owned := by
    have hadvance : (p.advance k).image = p.image.disown leaver.name := by
      rw [Process.advance, hk]
      rfl
    rw [← hadvance]
    exact hsecure.recorded j tag m (by rw [stage_advance_of_ne p hne, hj])
  simp [Image.disown, hname] at howned

/-- Without overtaken strikes, a run keeps the order. -/
theorem Run.order {p₀ : Process} {past : List (Process × Nat)} (run : Run p₀ past p)
    (fresh : p₀.IsFresh) (clear : ∀ x ∈ past, ¬ x.1.Overtaken x.2) : p.Order := by
  induction run with
  | start => exact fresh.order
  | step run possible ih =>
    have hpast := ih fun x hx => clear x (List.mem_append_left _ hx)
    exact hpast.advance possible (clear _ (List.mem_append_right _ (List.mem_singleton_self _)))

/-- **Owners are kept if and only if no drop is overtaken.** At every time of a run every owner is
written down, linked and without a rival, exactly if no step of the run strikes the name of a newer
owner. -/
theorem Run.secure_iff {p₀ : Process} {past : List (Process × Nat)} (run : Run p₀ past p)
    (fresh : p₀.IsFresh) :
    ((∀ x ∈ past, x.1.Secure) ∧ p.Secure) ↔ ∀ x ∈ past, ¬ x.1.Overtaken x.2 := by
  induction run with
  | start => simpa using fresh.order.secure
  | @step past p k run possible ih =>
    simp only [List.mem_append, List.mem_singleton, or_imp, forall_and, forall_eq]
    constructor
    · rintro ⟨⟨hpast, hlast⟩, hnext⟩
      have hclear := ih.mp ⟨hpast, hlast⟩
      exact ⟨hclear, fun overtaken => overtaken.not_secure (run.order fresh hclear) hnext⟩
    · rintro ⟨hclear, hk⟩
      have horder := run.order fresh hclear
      obtain ⟨hpast, hlast⟩ := ih.mpr hclear
      exact ⟨⟨hpast, hlast⟩, (horder.advance possible hk).secure⟩

/-! ## An overtaken drop -/

/-- The process after steps of a single request. -/
def turns (p : Process) (k n : Nat) : Process where
  image := (turn^[n] (p.stage k, p.image)).2
  stage := Function.update p.stage k (turn^[n] (p.stage k, p.image)).1

theorem turns_succ (p : Process) (k n : Nat) : p.turns k (n + 1) = (p.turns k n).advance k := by
  simp [turns, advance, Function.iterate_succ_apply', turn]

/-- No request holds a lock. -/
def IsFree (p : Process) : Prop := ∀ j, (p.stage j).lock? = none

theorem IsFree.turns (free : p.IsFree) {k n : Nat} (done : ((p.turns k n).stage k).lock? = none) :
    (p.turns k n).IsFree := by
  intro j
  by_cases hjk : j = k
  · rw [hjk, done]
  · have hkept : (p.turns k n).stage j = p.stage j := Function.update_of_ne hjk ..
    rw [hkept, free j]

/-- While no lock is held, a request can go on alone. -/
theorem Run.turns {p₀ : Process} {past : List (Process × Nat)} (run : Run p₀ past p)
    (free : p.IsFree) (k n : Nat) : ∃ later, Run p₀ later (p.turns k n) := by
  induction n with
  | zero =>
    have hsame : p.turns k 0 = p := by simp [Process.turns]
    rw [hsame]
    exact ⟨past, run⟩
  | succ n ih =>
    obtain ⟨later, hlater⟩ := ih
    rw [turns_succ]
    refine ⟨_, hlater.step fun tag hwaits j hj => ?_⟩
    by_cases hjk : j = k
    · -- Who waits for a lock has none.
      subst hjk
      cases hstage : (p.turns j n).stage j with
      | arriving r =>
        rw [hstage] at hj
        cases hj
      | _ =>
        rw [hstage] at hwaits
        cases hwaits
    · have hkept : (p.turns k n).stage j = p.stage j := Function.update_of_ne hjk ..
      rw [hkept, free j] at hj
      cases hj

/-- A process whose requests all create a region for the same tag. -/
def contended : Process where
  image := { self := 7, isAlive := fun _ => false }
  stage _ := .arriving (.create "t" 64)

/-- The first request makes its region and unlinks the name; the second one makes its own; then the
first one strikes the name. -/
def overtaken : Process := ((contended.turns 0 6).turns 1 5).turns 0 1

/-- Two owners for one tag: the first of them was made between the two steps of a drop, the second
one after them. -/
theorem exists_rivals : ∃ past p, Run contended past p ∧
    ∃ tag m m', p.stage 1 = .owning tag m ∧ p.stage 2 = .owning tag m' ∧ m.object ≠ m'.object := by
  have hfree₀ : contended.IsFree := fun _ => rfl
  have hfree₁ : (contended.turns 0 6).IsFree := hfree₀.turns rfl
  have hfree₂ : ((contended.turns 0 6).turns 1 5).IsFree := hfree₁.turns rfl
  have hfree₃ : overtaken.IsFree := hfree₂.turns rfl
  obtain ⟨_, hrun₁⟩ := Run.start.turns hfree₀ 0 6
  obtain ⟨_, hrun₂⟩ := hrun₁.turns hfree₁ 1 5
  obtain ⟨_, hrun₃⟩ := hrun₂.turns hfree₂ 0 1
  obtain ⟨past, hrun⟩ := hrun₃.turns hfree₃ 2 5
  exact ⟨past, _, hrun, "t", { object := 2, size := 64, name := "/t_7", isOwner := true },
    { object := 3, size := 64, name := "/t_7", isOwner := true }, rfl, rfl, by decide⟩

end Process

end RunOnce.Region
