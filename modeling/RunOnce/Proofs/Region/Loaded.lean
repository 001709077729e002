import RunOnce.Proofs.Region.Attach

/-!
# Images loaded into one process

**A host** (`Host`) is a process with several copies of the library in it. They share the process
id and the directory of shared objects, but each has its own list of the names that it owns.

**Theorem (`agree_iff_one_image`).** Let images of one process attach to the table of a tag, one
after another, with slot counts that fit. An image that attaches for the first time counts the table
of the others as a leftover: it unlinks the object and makes one of its own. So no two images own
the same table, only the newest one can still be found, and all attaches map one object if and only
if they are all made by one image.

The ledger of a run (`Ledger`) says which image has the name written down: those that have attached
(`joined`). One attach keeps it, whether its image has attached before (`Ledger.rejoin`) or not
(`Ledger.join`).
-/

namespace RunOnce.Region

/-- A process with images loaded into it. -/
structure Host where
  self : UInt32
  isAlive : UInt32 → Bool
  directory : Directory := {}
  space : AddressSpace := .roomy
  /-- The names that each image owns. -/
  owned : Nat → List String := fun _ => []

/-- Images that have attached, in order, each with what it got. -/
abbrev Attaches := List (Nat × Except RegionError SlotTable)

namespace Host

/-- What an image sees. -/
def image (h : Host) (k : Nat) : Image where
  self := h.self
  isAlive := h.isAlive
  directory := h.directory
  owned := h.owned k
  space := h.space

/-- An image attaches to the table that its settings name. -/
def attach (h : Host) (k : Nat) (c : Config) : Except RegionError SlotTable × Host :=
  let (result, image, _) := SlotTable.attach (h.image k) c
  (result, { h with
    directory := image.directory
    owned := Function.update h.owned k image.owned })

/-- Images attach to the table of a tag, the first with `n` slots and the others with no more. -/
inductive Run (h₀ : Host) (tag : String) (n : UInt32) : Attaches → Host → Prop
  | start : Run h₀ tag n [] h₀
  | step {past : Attaches} {h : Host} (run : Run h₀ tag n past h) (k : Nat) (c : Config)
      (tagged : c.regionTag = tag) (fits : c.slotCount ≤ n) (first : past = [] → c.slotCount = n) :
      Run h₀ tag n (past ++ [(k, (h.attach k c).1)]) (h.attach k c).2

/-- No image has a live table for a tag, and neither has another process. The tag can be locked, and
the links of its lock, if there are any, lead to no region of the tag. -/
structure IsFree (h : Host) (tag : String) : Prop where
  usable : Usable tag h.self
  lockable : ∃ d, h.directory.openFile (.text (lockName tag)) = .ok d
  apart : h.directory.IsApart tag tag
  plain : h.directory.find? (fileOf (regionName tag h.self)) ≠ some .directory
  stale : ∀ k, ∀ e ∈ (h.image k).list tag, (h.image k).isStale e.1 e.2 = true
  unowned : ∀ k, regionName tag h.self ∉ h.owned k

/-- An image has made a table with an object. -/
def Owns (past : Attaches) (k o : Nat) : Prop :=
  ∃ t, (k, .ok t) ∈ past ∧ t.mapping.isOwner = true ∧ t.mapping.object = o

/-- The name of the table stands for an object. -/
def IsLinked (h : Host) (tag : String) (o : Nat) : Prop :=
  h.directory.find? (fileOf (regionName tag h.self)) = some (.file o)

/-- What holds of a host after images have attached to the table of a tag. -/
structure Ledger (h : Host) (tag : String) (n : UInt32) (past : Attaches) : Prop where
  lockable : ∃ d, h.directory.openFile (.text (lockName tag)) = .ok d
  apart : h.directory.IsApart tag tag
  plain : h.directory.find? (fileOf (regionName tag h.self)) ≠ some .directory
  stale : ∀ k, ∀ e ∈ (h.image k).list tag, e.1 ≠ regionName tag h.self →
    (h.image k).isStale e.1 e.2 = true
  /-- Those that have attached have the name written down. -/
  joined : ∀ k, regionName tag h.self ∈ h.owned k ↔ ∃ r, (k, r) ∈ past
  owner : ∀ k r, (k, r) ∈ past → ∃ o, Owns past k o
  sole : ∀ k k' o o', Owns past k o → Owns past k' o' → (k = k' ↔ o = o')
  bounded : ∀ k o, Owns past k o → o < h.directory.nextObject
  linked : past ≠ [] → ∃ k o, Owns past k o ∧ h.IsLinked tag o
  /-- With one image it is as it should be. -/
  agreed : ∀ k o, (∀ e ∈ past, e.1 = k) → past ≠ [] → h.IsLinked tag o →
    h.directory.sizeOf (.file o) = regionSize n ∧
      ∀ e ∈ past, ∃ t, e.2 = .ok t ∧ t.mapping.object = o

variable {h h₀ : Host} {tag : String} {n : UInt32} {past : Attaches} {k o : Nat}
  {r : Except RegionError SlotTable} {c : Config}

/-- The host after an image has attached, given the image afterwards. -/
theorem host_attach {image : Image} (h : Host)
    (same : (SlotTable.attach (h.image k) c).2.1 = image) :
    (h.attach k c).2 = { h with
      directory := image.directory
      owned := Function.update h.owned k image.owned } := by
  subst same
  rfl

theorem nextObject_clean (h : Host) (k : Nat) (tag : String) :
    ((h.image k).clean tag).directory.nextObject = h.directory.nextObject :=
  Image.nextObject_sweep _ _

theorem owns_concat {j : Nat} : Owns (past ++ [(k, r)]) j o ↔ Owns past j o ∨
    j = k ∧ ∃ t, r = .ok t ∧ t.mapping.isOwner = true ∧ t.mapping.object = o := by
  constructor
  · rintro ⟨t, hmem, howner, hobject⟩
    rcases List.mem_append.mp hmem with hold | hnew
    · exact Or.inl ⟨t, hold, howner, hobject⟩
    · cases List.mem_singleton.mp hnew
      exact Or.inr ⟨rfl, t, rfl, howner, hobject⟩
  · rintro (⟨t, hmem, howner, hobject⟩ | ⟨rfl, t, rfl, howner, hobject⟩)
    · exact ⟨t, List.mem_append_left _ hmem, howner, hobject⟩
    · exact ⟨t, List.mem_append_right _ (List.mem_singleton_self _), howner, hobject⟩

theorem mem_concat {j : Nat} : (∃ r', (j, r') ∈ past ++ [(k, r)]) ↔
    (∃ r', (j, r') ∈ past) ∨ j = k := by
  simp only [List.mem_append, List.mem_singleton, Prod.mk.injEq, exists_or, exists_and_left,
    exists_eq, and_true]

/-- What it does to the host that image `k` attaches and makes a table: the object is a new one,
the name stands for it, and the image has the name written down. -/
structure Makes (h : Host) (k : Nat) (c : Config) : Prop where
  made : ∃ t, (h.attach k c).1 = .ok t ∧ t.mapping.object = h.directory.nextObject ∧
    t.mapping.isOwner = true
  directory : (h.attach k c).2.directory = ((h.image k).clean c.regionTag).directory.linkTable
    (fileOf (regionName c.regionTag h.self)) (regionSize c.slotCount)
  owned : ∀ j, (h.attach k c).2.owned j =
    if j = k then h.owned k ++ [regionName c.regionTag h.self] else h.owned j

namespace Makes

theorem nextObject (m : h.Makes k c) :
    (h.attach k c).2.directory.nextObject = h.directory.nextObject + 1 := by
  rw [m.directory]
  show ((h.image k).clean c.regionTag).directory.nextObject + 1 = _
  rw [nextObject_clean]

theorem isLinked (m : h.Makes k c) :
    (h.attach k c).2.IsLinked c.regionTag h.directory.nextObject := by
  show (h.attach k c).2.directory.find? (fileOf (regionName c.regionTag h.self)) = _
  rw [m.directory, Directory.find?_linkTable, if_pos rfl, nextObject_clean]

theorem sizeOf (m : h.Makes k c) :
    (h.attach k c).2.directory.sizeOf (.file h.directory.nextObject) = regionSize c.slotCount := by
  rw [m.directory, ← nextObject_clean h k c.regionTag, Directory.sizeOf_linkTable]

/-- The names on the way to the lock stay. -/
theorem find?_of_meets (m : h.Makes k c) (apart : h.directory.IsApart c.regionTag c.regionTag)
    {name : FileName} (meets : h.directory.Meets (.text (lockName c.regionTag)) name) :
    (h.attach k c).2.directory.find? name = h.directory.find? name := by
  have hclean : ((h.image k).clean c.regionTag).directory.find? name = h.directory.find? name :=
    Image.find?_clean_of_apart (i := h.image k) apart meets
  rw [m.directory, Directory.find?_linkTable, if_neg, hclean]
  rintro rfl
  rw [fileOf_regionName] at meets
  cases (apart _ meets).symm.trans (creator?_regionFile.mpr ⟨rfl, rfl⟩)

/-- Other names are leftovers or not as before. -/
theorem isStale (m : h.Makes k c) {name : String} {pid : UInt32} {j : Nat}
    (hname : name ≠ regionName c.regionTag h.self) :
    ((h.attach k c).2.image j).isStale name pid = (h.image j).isStale name pid := by
  refine Image.isStale_congr (h.image j) ((h.attach k c).2.image j) rfl rfl ?_
  show name ∈ (h.attach k c).2.owned j ↔ name ∈ h.owned j
  rw [m.owned]
  by_cases hj : j = k
  · simp [hj, hname]
  · rw [if_neg hj]

theorem owns (m : h.Makes k c) {j : Nat} : Owns (past ++ [(k, (h.attach k c).1)]) j o ↔
    Owns past j o ∨ j = k ∧ o = h.directory.nextObject := by
  obtain ⟨t, ht, hobject, howner⟩ := m.made
  rw [owns_concat]
  refine or_congr_right (and_congr_right fun _ => ⟨?_, ?_⟩)
  · rintro ⟨t', ht', -, rfl⟩
    cases ht.symm.trans ht'
    exact hobject
  · rintro rfl
    exact ⟨t, ht, howner, hobject⟩

end Makes

namespace Ledger

/-- In the beginning nobody has attached. -/
theorem of_isFree (free : h.IsFree tag) : h.Ledger tag n [] where
  lockable := free.lockable
  apart := free.apart
  plain := free.plain
  stale k e he _ := free.stale k e he
  joined k := by simp [free.unowned k]
  owner := nofun
  sole := by
    rintro k k' o o' ⟨t, ht, -⟩
    cases ht
  bounded := by
    rintro k o ⟨t, ht, -⟩
    cases ht
  linked hpast := absurd rfl hpast
  agreed k o _ hpast := absurd rfl hpast

/-- An object that is linked is that of some image that has attached. -/
theorem lt_of_linked (g : h.Ledger tag n past) (hpast : past ≠ []) (linked : h.IsLinked tag o) :
    o < h.directory.nextObject := by
  obtain ⟨k, o', howns, hlinked⟩ := g.linked hpast
  rw [IsLinked, linked] at hlinked
  cases hlinked
  exact g.bounded k o howns

/-- Taking the lock keeps the ledger. -/
theorem lock (g : h.Ledger tag n past) {locked : Image}
    (taken : (h.image k).lock tag = .ok locked) :
    ({ h with directory := locked.directory } : Host).Ledger tag n past where
  lockable := by
    obtain ⟨-, d, hopen, -⟩ := Image.lock_eq_ok_iff.mp (Image.lock_lock taken)
    exact ⟨d, hopen⟩
  apart := g.apart.congr fun name _ => Image.linkAt?_lock taken name
  plain := Image.plain_lock taken g.plain
  stale j e he := by
    have hmem : e ∈ locked.list tag := he
    rw [Image.list_lock taken g.apart] at hmem
    exact g.stale j e hmem
  joined := g.joined
  owner := g.owner
  sole := g.sole
  bounded j o howns := Nat.lt_of_lt_of_le (g.bounded j o howns) (Image.nextObject_le_lock taken)
  linked hpast := by
    obtain ⟨j, o, howns, hlinked⟩ := g.linked hpast
    exact ⟨j, o, howns, Image.find?_lock taken hlinked⟩
  agreed j o hone hpast hlinked := by
    obtain ⟨-, o', -, hbefore⟩ := g.linked hpast
    have hkept : locked.directory.find? (fileOf (regionName tag h.self)) = some (.file o') :=
      Image.find?_lock taken hbefore
    obtain rfl : o' = o := Node.file.inj (Option.some.inj (hkept.symm.trans hlinked))
    obtain ⟨hsize, hall⟩ := g.agreed j o' hone hpast hbefore
    exact ⟨(Image.sizeOf_lock taken (g.lt_of_linked hpast hbefore)).trans hsize, hall⟩

/-- An image that has attached before maps what the name stands for. -/
theorem rejoin (g : h.Ledger c.regionTag n past) (usable : Usable c.regionTag h.self)
    (taken : (h.image k).lock c.regionTag = .ok (h.image k)) (fits : c.slotCount ≤ n)
    (owned : regionName c.regionTag h.self ∈ h.owned k) :
    (h.attach k c).2.Ledger c.regionTag n (past ++ [(k, (h.attach k c).1)]) := by
  have hpast : past ≠ [] := by
    obtain ⟨r, hr⟩ := (g.joined k).mp owned
    exact List.ne_nil_of_mem hr
  obtain ⟨k₀, o₀, howns₀, hlinked⟩ := g.linked hpast
  obtain ⟨hsame, hresult, hfits⟩ := Image.attach_of_owned (i := h.image k) usable taken (g.stale k)
    owned hlinked
  have hhost : (h.attach k c).2 = h := by
    rw [host_attach h hsame]
    show { h with owned := Function.update h.owned k (h.owned k) } = h
    rw [Function.update_eq_self]
  have howns {j o : Nat} : Owns (past ++ [(k, (h.attach k c).1)]) j o ↔ Owns past j o := by
    rw [owns_concat, or_iff_left]
    rintro ⟨-, t, ht, howner, -⟩
    rw [(hresult t ht).2] at howner
    cases howner
  have hjoined {j : Nat} : regionName c.regionTag h.self ∈ h.owned j ↔
      ∃ r, (j, r) ∈ past ++ [(k, (h.attach k c).1)] := by
    rw [mem_concat, ← g.joined j, or_iff_left_of_imp]
    rintro rfl
    exact owned
  rw [hhost]
  exact
    { lockable := g.lockable
      apart := g.apart
      plain := g.plain
      stale := g.stale
      joined := fun _ => hjoined
      owner := fun j r hmem => by
        obtain ⟨r', hr'⟩ := (g.joined j).mp (hjoined.mpr ⟨r, hmem⟩)
        obtain ⟨o, ho⟩ := g.owner j r' hr'
        exact ⟨o, howns.mpr ho⟩
      sole := fun j j' o o' hj hj' => g.sole j j' o o' (howns.mp hj) (howns.mp hj')
      bounded := fun j o hj => g.bounded j o (howns.mp hj)
      linked := fun _ => ⟨k₀, o₀, howns.mpr howns₀, hlinked⟩
      agreed := fun j o hone _ ho => by
        obtain ⟨hsize, hall⟩ :=
          g.agreed j o (fun e he => hone e (List.mem_append_left _ he)) hpast ho
        obtain rfl : o₀ = o := Node.file.inj (Option.some.inj (hlinked.symm.trans ho))
        refine ⟨hsize, fun e he => ?_⟩
        rcases List.mem_append.mp he with hold | hnew
        · exact hall e hold
        · cases List.mem_singleton.mp hnew
          obtain ⟨t, ht⟩ := hfits (by
            rw [show (h.image k).directory = h.directory from rfl, hsize]
            exact regionSize_mono fits)
          exact ⟨t, ht, (hresult t ht).1⟩ }

/-- To an image that has not attached yet, everything listed is a leftover. -/
theorem isStale_of_unowned (g : h.Ledger tag n past) (unowned : regionName tag h.self ∉ h.owned k)
    {e : String × UInt32} (he : e ∈ (h.image k).list tag) : (h.image k).isStale e.1 e.2 = true := by
  by_cases hname : e.1 = regionName tag h.self
  · obtain ⟨name, pid⟩ := e
    obtain rfl : name = regionName tag h.self := hname
    rw [show pid = h.self from Image.creator_of_mem_list (i := h.image k) he]
    simp [Image.isStale, image, unowned]
  · exact g.stale k e he hname

/-- An image that attaches for the first time makes a table of its own. -/
theorem makes (g : h.Ledger c.regionTag n past) (usable : Usable c.regionTag h.self)
    (taken : (h.image k).lock c.regionTag = .ok (h.image k))
    (unowned : regionName c.regionTag h.self ∉ h.owned k) : h.Makes k c := by
  obtain ⟨hmade, hsame⟩ := Image.attach_of_unowned (i := h.image k) usable taken
    (fun _ he => g.isStale_of_unowned unowned he) unowned g.plain
  have hhost := host_attach h hsame
  refine ⟨hmade, by rw [hhost]; rfl, fun j => ?_⟩
  rw [hhost]
  exact Function.update_apply ..

/-- The table that an image makes is no other image's. -/
theorem sole_join (g : h.Ledger tag n past) (hnew : ∀ r, (k, r) ∉ past) {j j' o o' : Nat}
    (hj : Owns past j o ∨ j = k ∧ o = h.directory.nextObject)
    (hj' : Owns past j' o' ∨ j' = k ∧ o' = h.directory.nextObject) : j = j' ↔ o = o' := by
  have hother {i p : Nat} (hi : Owns past i p) : i ≠ k ∧ p ≠ h.directory.nextObject := by
    refine ⟨fun hik => ?_, Nat.ne_of_lt (g.bounded i p hi)⟩
    obtain ⟨t, ht, -⟩ := hi
    exact hnew _ (hik ▸ ht)
  rcases hj with hold | ⟨rfl, rfl⟩
  · rcases hj' with hold' | ⟨rfl, rfl⟩
    · exact g.sole j j' o o' hold hold'
    · exact iff_of_false (hother hold).1 (hother hold).2
  · rcases hj' with hold' | ⟨rfl, rfl⟩
    · exact iff_of_false (hother hold').1.symm (hother hold').2.symm
    · exact iff_of_true rfl rfl

/-- An image that attaches for the first time keeps the ledger. -/
theorem join (g : h.Ledger c.regionTag n past) (usable : Usable c.regionTag h.self)
    (taken : (h.image k).lock c.regionTag = .ok (h.image k)) (first : past = [] → c.slotCount = n)
    (unowned : regionName c.regionTag h.self ∉ h.owned k) :
    (h.attach k c).2.Ledger c.regionTag n (past ++ [(k, (h.attach k c).1)]) := by
  have m := g.makes usable taken unowned
  have hnew (r : Except RegionError SlotTable) : (k, r) ∉ past := fun hr =>
    unowned ((g.joined k).mpr ⟨r, hr⟩)
  exact
    { lockable := by
        obtain ⟨d, hopen⟩ := g.lockable
        exact Directory.openFile_congr hopen fun name meets => m.find?_of_meets g.apart meets
      apart := g.apart.congr fun name meets =>
        Directory.linkAt?_congr (m.find?_of_meets g.apart meets)
      plain := by
        rw [m.directory]
        exact Image.plain_linkTable (i := h.image k) g.plain
      stale := fun j e he hname => by
        rw [m.isStale hname]
        have hmem := Image.mem_list_linkTable (i := h.image k) m.directory he
        exact g.stale j e (hmem.resolve_left hname) hname
      joined := fun j => by
        rw [mem_concat, ← g.joined j, m.owned]
        show regionName c.regionTag h.self ∈ _ ↔ _
        by_cases hj : j = k
        · simp [hj]
        · simp [hj]
      owner := fun j r hmem => by
        rcases mem_concat.mp ⟨r, hmem⟩ with ⟨r', hr'⟩ | rfl
        · obtain ⟨o, ho⟩ := g.owner j r' hr'
          exact ⟨o, m.owns.mpr (Or.inl ho)⟩
        · exact ⟨_, m.owns.mpr (Or.inr ⟨rfl, rfl⟩)⟩
      sole := fun j j' o o' hj hj' => g.sole_join hnew (m.owns.mp hj) (m.owns.mp hj')
      bounded := fun j o hj => by
        rw [m.nextObject]
        rcases m.owns.mp hj with hold | ⟨-, rfl⟩
        · exact Nat.lt_succ_of_lt (g.bounded j o hold)
        · exact Nat.lt_succ_self _
      linked := fun _ => ⟨k, _, m.owns.mpr (Or.inr ⟨rfl, rfl⟩), m.isLinked⟩
      agreed := fun j o hone _ ho => by
        obtain rfl : k = j := hone _ (List.mem_append_right _ (List.mem_singleton_self _))
        have hpast : past = [] := List.eq_nil_iff_forall_not_mem.mpr fun e he => by
          obtain ⟨j, r⟩ := e
          obtain rfl : j = k := hone _ (List.mem_append_left _ he)
          exact hnew r he
        obtain rfl : h.directory.nextObject = o :=
          Node.file.inj (Option.some.inj (m.isLinked.symm.trans ho))
        refine ⟨m.sizeOf.trans (by rw [first hpast]), fun e he => ?_⟩
        rw [hpast, List.nil_append, List.mem_singleton] at he
        subst he
        obtain ⟨t, ht, hobject, -⟩ := m.made
        exact ⟨t, ht, hobject⟩ }

/-- **One attach keeps the ledger.** -/
theorem attach (g : h.Ledger tag n past) (usable : Usable tag h.self) (tagged : c.regionTag = tag)
    (fits : c.slotCount ≤ n) (first : past = [] → c.slotCount = n) (k : Nat) :
    (h.attach k c).2.Ledger tag n (past ++ [(k, (h.attach k c).1)]) := by
  subst tagged
  obtain ⟨locked, taken⟩ := usable.exists_lock (i := h.image k) g.lockable
  have glocked := g.lock taken
  have himage : image { h with directory := locked.directory } k = locked :=
    (Image.lock_eq taken).symm
  have hattach : h.attach k c = Host.attach { h with directory := locked.directory } k c := by
    simp only [Host.attach, himage, Image.attach_lock usable taken]
  have htaken := Image.lock_lock taken
  rw [← himage] at htaken
  rw [hattach]
  by_cases owned : regionName c.regionTag h.self ∈ h.owned k
  · exact glocked.rejoin usable htaken fits owned
  · exact glocked.join usable htaken first owned

end Ledger

theorem Run.self_eq (run : Run h₀ tag n past h) : h.self = h₀.self := by
  induction run with
  | start => rfl
  | step _ _ _ _ _ _ ih => exact ih

/-- Every run keeps the ledger. -/
theorem Run.ledger (run : Run h₀ tag n past h) (free : h₀.IsFree tag) : h.Ledger tag n past := by
  induction run with
  | start => exact .of_isFree free
  | step run k c tagged fits first ih =>
    refine ih.attach ?_ tagged fits first k
    rw [run.self_eq]
    exact free.usable

/-- **Images of one process agree on a table if and only if they are one image.** Every image that
attaches makes a table of its own, so no two of them own the same one, and the name stands for one
of these tables only. -/
theorem agree_iff_one_image (run : Run h₀ tag n past h) (free : h₀.IsFree tag) :
    (∀ k r, (k, r) ∈ past → ∃ o, Owns past k o) ∧
    (∀ k k' o o', Owns past k o → Owns past k' o' → (k = k' ↔ o = o')) ∧
    (past ≠ [] → ∃ k o, Owns past k o ∧ h.IsLinked tag o) ∧
    ((∃ o, ∀ e ∈ past, ∃ t, e.2 = .ok t ∧ t.mapping.object = o) ↔
      ∀ e ∈ past, ∀ e' ∈ past, e.1 = e'.1) := by
  have g := run.ledger free
  refine ⟨g.owner, g.sole, g.linked, ?_, ?_⟩
  · rintro ⟨o, hall⟩ e he e' he'
    have howns {e : Nat × Except RegionError SlotTable} (he : e ∈ past) : Owns past e.1 o := by
      obtain ⟨o', t, hmem, howner, hobject⟩ := g.owner e.1 e.2 he
      obtain ⟨t', ht', rfl⟩ := hall _ hmem
      cases ht'
      exact ⟨t, hmem, howner, rfl⟩
    exact (g.sole _ _ o o (howns he) (howns he')).mpr rfl
  · intro hone
    by_cases hpast : past = []
    · exact ⟨0, by simp [hpast]⟩
    · obtain ⟨k, o, ⟨t, hmem, -⟩, hlinked⟩ := g.linked hpast
      exact ⟨o, (g.agreed k o (fun e he => hone e he _ hmem) hpast hlinked).2⟩

/-- A process with nothing in its directory. -/
def emptyHost : Host where
  self := 7
  isAlive _ := false

/-- Settings for a small table. -/
def smallTable : Config where
  regionTag := "t"
  slotCount := 8

theorem emptyHost_isFree : emptyHost.IsFree "t" where
  usable := ⟨by decide, by decide, by decide⟩
  lockable := ⟨_, rfl⟩
  apart := Directory.isApart_of_plain rfl "t"
  plain := by decide
  stale := nofun
  unowned := nofun

/-- Two images attach, one after the other. -/
def twoAttaches : Attaches :=
  [(0, (emptyHost.attach 0 smallTable).1),
    (1, ((emptyHost.attach 0 smallTable).2.attach 1 smallTable).1)]

theorem twoAttaches_run : Run emptyHost "t" 8 twoAttaches
    ((emptyHost.attach 0 smallTable).2.attach 1 smallTable).2 :=
  (Run.start.step 0 smallTable rfl (UInt32.le_refl 8) fun _ => rfl).step 1 smallTable rfl
    (UInt32.le_refl 8) nofun

/-- The second image unlinks the table of the first one and makes its own. -/
theorem agree_iff_one_image_two : Owns twoAttaches 0 1 ∧ Owns twoAttaches 1 2 ∧
    ((emptyHost.attach 0 smallTable).2.attach 1 smallTable).2.IsLinked "t" 2 ∧
    ¬∃ o, ∀ e ∈ twoAttaches, ∃ t, e.2 = .ok t ∧ t.mapping.object = o := by
  refine ⟨⟨_, List.mem_cons_self, rfl, rfl⟩,
    ⟨_, List.mem_cons_of_mem _ List.mem_cons_self, rfl, rfl⟩, rfl, ?_⟩
  rw [(agree_iff_one_image twoAttaches_run emptyHost_isFree).2.2.2]
  intro hone
  cases hone _ List.mem_cons_self _ (List.mem_cons_of_mem _ List.mem_cons_self)

end Host

end RunOnce.Region
