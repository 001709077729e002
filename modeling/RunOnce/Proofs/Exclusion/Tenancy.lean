import RunOnce.Proofs.Exclusion.Targets

/-!
# The name of a table goes with its creator

**Changes** (`Change`). Calls take their steps, executors attach to the table of a tag with any
number of slots, and an executor is dropped once nobody calls through it any more. A course
(`Course`) is any sequence of these in one process that starts without a region of the tag.

**Theorem (`Course.tenancy`).** At all times of a course the name of the region is owned and stands
for an object exactly as long as the creator of that object is there, and there is one creator at
most (`Tenancy`). Executors that map the object without having made it neither hold the name nor
take it away.

Attaching and dropping exchange a target through which nothing is in flight, so they keep the
invariant of the board too (`inv_attach`, `inv_drop`).
-/

namespace RunOnce.Protocol

open Function Region

variable {α : Type}

/-- One thing that happens to the tables of a process. -/
inductive Change (α : Type)
  | act (a : Action α)
  | attach (c : Config)
  | drop (t : Nat)

namespace State

/-- An executor attaches to the table that its settings name. -/
def attach (s : State α) (c : Config) : State α :=
  match SlotTable.attach s.image c with
  | (.error _, image, _) => { s with image }
  | (.ok table, image, _) => ({ s with image }.newTarget (.ofTable table)).2

/-- The state after a change. -/
def change (s : State α) : Change α → State α
  | .act a => s.act a
  | .attach c => s.attach c
  | .drop t => (s.dropTarget t).1

/-- Nobody calls through a target any more. -/
def IsUnused (s : State α) (t : Nat) : Prop :=
  ∀ c call, s.calls.get? c = some call → call.target = t → call.phase.isOver = true

/-- What may happen next: all executors attach with one tag. -/
def Permits (s : State α) (tag : String) : Change α → Prop
  | .act a => s.Possible a
  | .attach c => c.regionTag = tag
  | .drop t => s.IsUnused t

/-- A target is the creator of an object and its table. -/
def Creates (s : State α) (t o : Nat) : Prop :=
  ∃ m, s.mapping? t = some m ∧ m.isOwner = true ∧ m.object = o

/-- A process without a region of the tag, in which nothing is in flight. -/
structure IsVacant (s : State α) (tag : String) : Prop where
  calls : ∀ c, s.calls.get? c = none
  registries : ∀ t target, s.targets.get? t = some target → t < s.nextKey ∧
    ∃ r, target.executor = .registry r ∧ r.operations = []
  violation : s.violation = none
  drawn : s.image.directory.Drawn
  free : s.image.list tag = []
  unowned : regionName tag s.image.self ∉ s.image.owned

end State

/-- The changes from one state to another, each with the state in which it happens. -/
abbrev Changes (α : Type) := List (State α × Change α)

/-- Changes in any order. Nothing comes after a violation. -/
inductive Course (tag : String) (s₀ : State α) : Changes α → State α → Prop
  | start : Course tag s₀ [] s₀
  | step {past : Changes α} {s : State α} {x : Change α} (course : Course tag s₀ past s)
      (alive : s.violation = none) (permitted : s.Permits tag x) :
      Course tag s₀ (past ++ [(s, x)]) (s.change x)

variable {s s₀ : State α} {tag : String} {past : Changes α} {t o : Nat} {c : Config}

/-! ## Attaching and dropping -/

namespace State

theorem attach_of_error {e : RegionError} (h : (SlotTable.attach s.image c).1 = .error e) :
    s.attach c = { s with image := (SlotTable.attach s.image c).2.1 } := by
  unfold attach
  split
  next hattach => rw [hattach]
  next hattach =>
    rw [hattach] at h
    cases h

theorem attach_of_ok {table : SlotTable} (h : (SlotTable.attach s.image c).1 = .ok table) :
    s.attach c = { s with
      image := (SlotTable.attach s.image c).2.1
      nextKey := s.nextKey + 1
      targets := s.targets.set s.nextKey (.ofTable table) } := by
  unfold attach
  split
  next hattach =>
    rw [hattach] at h
    cases h
  next hattach =>
    rw [hattach] at h ⊢
    cases h
    rfl

theorem image_attach (s : State α) (c : Config) :
    (s.attach c).image = (SlotTable.attach s.image c).2.1 := by
  cases h : (SlotTable.attach s.image c).1 with
  | error e => rw [attach_of_error h]
  | ok table => rw [attach_of_ok h]

theorem mapping?_attach {table : SlotTable} (h : (SlotTable.attach s.image c).1 = .ok table) :
    (s.attach c).mapping? = update s.mapping? s.nextKey (some table.mapping) := by
  rw [attach_of_ok h]
  funext t
  show ((s.targets.set s.nextKey (Target.ofTable table)).get? t).bind _ = _
  by_cases ht : t = s.nextKey
  · subst ht
    simp [Target.ofTable, Executor.mapping?]
  · rw [update_of_ne ht, Store.get?_set_of_ne _ (Ne.symm ht)]
    rfl

/-- A drop takes a target away, and may change the image. -/
theorem dropTarget_eq (s : State α) (t : Nat) : ∃ targets image,
    (s.dropTarget t).1 = { s with targets, image } ∧
      ∀ k, targets.get? k = if k = t then none else s.targets.get? k := by
  have herase (k : Nat) :
      (s.targets.erase t).get? k = if k = t then none else s.targets.get? k := by
    split
    next hk => rw [hk, Store.get?_erase_self]
    next hk => rw [Store.get?_erase_of_ne _ (Ne.symm hk)]
  unfold dropTarget
  split
  next hnone =>
    refine ⟨s.targets, s.image, rfl, fun k => ?_⟩
    split
    next hk => rw [hk, hnone]
    next => rfl
  next target htarget =>
    dsimp only
    split
    · exact ⟨_, s.image, rfl, herase⟩
    · exact ⟨_, _, rfl, herase⟩

theorem mapping?_dropTarget (s : State α) (t : Nat) :
    (s.dropTarget t).1.mapping? = update s.mapping? t none := by
  obtain ⟨targets, image, hdrop, hget⟩ := s.dropTarget_eq t
  rw [hdrop]
  funext k
  show (targets.get? k).bind _ = _
  rw [hget, update_apply]
  split
  · rfl
  · rfl

/-- A mapping goes with its table. -/
theorem image_dropTarget (s : State α) (t : Nat) :
    (s.dropTarget t).1.image =
      match s.mapping? t with
      | some m => (s.image.release m).1
      | none => s.image := by
  unfold dropTarget mapping?
  cases s.targets.get? t with
  | none => rfl
  | some target =>
    obtain ⟨executor, capabilities⟩ := target
    cases executor with
    | registry r => rfl
    | table table => rfl

theorem objectOf?_of_mapping? {m : Mapping} (h : s.mapping? t = some m) :
    s.objectOf? t = some m.object := by
  rw [objectOf?_eq_mapping?, h]
  rfl

theorem exists_mapping? (h : s.objectOf? t = some o) :
    ∃ m, s.mapping? t = some m ∧ m.object = o := by
  rw [objectOf?_eq_mapping?] at h
  exact Option.map_eq_some_iff.mp h

/-- What a table maps stands on the board. -/
theorem table?_of_mapping? {m : Mapping} (h : s.mapping? t = some m) :
    ∃ n, s.board.table? t = some (m.object, n) := by
  have hobject := objectOf?_of_mapping? h
  rw [objectOf?_eq] at hobject
  obtain ⟨⟨object, n⟩, htable, rfl⟩ := Option.map_eq_some_iff.mp hobject
  exact ⟨n, htable⟩

/-- Through a target that nobody calls through, no slot waits for the flag to follow. -/
theorem IsUnused.unsettled (unused : s.IsUnused t) (k : Nat) (card : Card)
    (here : s.board.card? k = some card) (target : card.target = t) : card.stage ≠ .settled := by
  obtain ⟨call, hcall, rfl⟩ := Option.map_eq_some_iff.mp here
  have hover := unused k call hcall target
  intro hsettled
  have hstage : call.stage = .settled := hsettled
  cases hphase : call.phase with
  | ended outcome =>
    rw [Call.stage, hphase] at hstage
    split at hstage <;> contradiction
  | _ =>
    rw [hphase] at hover
    cases hover

/-- Through a target that is not there, or that nobody calls through, nothing is in flight. -/
theorem IsUnused.idle (unused : s.IsUnused t) (k : Nat) (id : FlagId) (who : Initiator) :
    s.board.claim? k ≠ some (t, id, who) := by
  intro hk
  obtain ⟨card, hcard, hclaim⟩ := Option.bind_eq_some_iff.mp hk
  obtain ⟨call, hcall, rfl⟩ := Option.map_eq_some_iff.mp hcard
  obtain ⟨holder, hholder, hflag⟩ := Option.bind_eq_some_iff.mp hclaim
  obtain ⟨flag, -, hpair⟩ := Option.map_eq_some_iff.mp hflag
  have hover := unused k call hcall (congrArg Prod.fst hpair)
  cases hphase : call.phase with
  | ended outcome =>
    have hstage : call.card.stage.holder? = none := by
      simp only [Call.card, Call.stage, hphase]
      split <;> first | rfl | contradiction
    rw [hstage] at hholder
    cases hholder
  | _ =>
    rw [hphase] at hover
    cases hover

end State

/-! ## What holds of the tables of a tag -/

/-- The region of a tag has its name as long as its creator is there, and there is one creator. -/
structure Tenancy (tag : String) (s : State α) : Prop where
  inv : s.board.Inv
  keyed : ∀ t target, s.targets.get? t = some target → t < s.nextKey
  drawn : s.image.directory.Drawn
  /-- Nobody else has a region of the tag, unless it is the empty file of a lock. -/
  named : ∀ file pid, creator? tag file = some pid →
    .text file ≠ fileOf (regionName tag s.image.self) →
    s.image.directory.find? (.text file) ≠ none → s.image.directory.IsHollow (.text file)
  linked : ∀ t m, s.mapping? t = some m → m.isOwner = true →
    m.name = regionName tag s.image.self ∧
      s.image.directory.find? (fileOf m.name) = some (.file m.object)
  owned_iff : regionName tag s.image.self ∈ s.image.owned ↔ ∃ t o, s.Creates t o
  sole : ∀ t t' o o', s.Creates t o → s.Creates t' o' → t = t'

namespace State

theorem IsVacant.mapping?_eq (vacant : s.IsVacant tag) (t : Nat) : s.mapping? t = none := by
  unfold mapping?
  cases ht : s.targets.get? t with
  | none => rfl
  | some target =>
    obtain ⟨-, r, hr, -⟩ := vacant.registries t target ht
    simp [hr, Executor.mapping?]

theorem IsVacant.isFresh (vacant : s.IsVacant tag) : s.IsFresh where
  calls := vacant.calls
  registries t target r ht he := by
    obtain ⟨-, r', hr', hempty⟩ := vacant.registries t target ht
    cases he.symm.trans hr'
    exact hempty
  tables t target table ht he := by
    obtain ⟨-, r, hr, -⟩ := vacant.registries t target ht
    cases he.symm.trans hr
  locks t target ht := by
    obtain ⟨-, r, hr, -⟩ := vacant.registries t target ht
    rw [hr]
    rfl
  violation := vacant.violation

theorem IsVacant.tenancy (vacant : s.IsVacant tag) : Tenancy tag s where
  inv := inv_fresh vacant.isFresh
  keyed t target ht := (vacant.registries t target ht).1
  drawn := vacant.drawn
  named file pid hcreator _ linked := by
    obtain ⟨node, hnode⟩ := Option.ne_none_iff_exists'.mp linked
    have hlisted := Image.mem_list_of_creator hcreator hnode
    rw [vacant.free] at hlisted
    cases hlisted
  linked t m hm := by
    rw [vacant.mapping?_eq] at hm
    cases hm
  owned_iff := by
    refine iff_of_false vacant.unowned ?_
    rintro ⟨t, o, m, hm, -⟩
    rw [vacant.mapping?_eq] at hm
    cases hm
  sole := by
    rintro t t' o o' ⟨m, hm, -⟩
    rw [vacant.mapping?_eq] at hm
    cases hm

end State

namespace Tenancy

variable {s' : State α} {m : Mapping}

/-- A creator by its mapping. -/
theorem creates_of_owner (hm : s.mapping? t = some m) (owner : m.isOwner = true) :
    s.Creates t m.object := ⟨m, hm, owner, rfl⟩

/-- What is mapped is an object. -/
theorem exists_object (h : Tenancy tag s) (hm : s.mapping? t = some m) :
    ∃ object, s.image.directory.objects.get? m.object = some object := by
  obtain ⟨n, htable⟩ := State.table?_of_mapping? hm
  obtain ⟨v, hv⟩ := h.inv.mapped t m.object n htable ⟨0⟩
  obtain ⟨object, hobject, -⟩ := Option.map_eq_some_iff.mp hv
  exact ⟨object, hobject⟩

theorem object_lt (h : Tenancy tag s) (hm : s.mapping? t = some m) :
    m.object < s.image.directory.nextObject := by
  obtain ⟨object, hobject⟩ := h.exists_object hm
  exact h.drawn m.object object hobject

/-- Under the next key there is nothing yet. -/
theorem unused_next (h : Tenancy tag s) : s.targets.get? s.nextKey = none := by
  cases ht : s.targets.get? s.nextKey with
  | none => rfl
  | some target => exact absurd (h.keyed _ _ ht) (Nat.lt_irrefl _)

theorem mapping?_next (h : Tenancy tag s) : s.mapping? s.nextKey = none := by
  rw [State.mapping?, h.unused_next]
  rfl

theorem held_next (h : Tenancy tag s) : s.board.held s.nextKey = [] := by
  show ((s.targets.get? s.nextKey).map _).getD [] = []
  rw [h.unused_next]
  rfl

theorem table?_next (h : Tenancy tag s) : s.board.table? s.nextKey = none := by
  show (s.targets.get? s.nextKey).bind _ = none
  rw [h.unused_next]
  rfl

theorem idle_next (h : Tenancy tag s) (k : Nat) (id : FlagId) (who : Initiator) :
    s.board.claim? k ≠ some (s.nextKey, id, who) := by
  intro hk
  have hheld := (h.inv.mem_held s.nextKey id who).mpr ⟨k, hk⟩
  rw [h.held_next] at hheld
  cases hheld

theorem unsettled_next (h : Tenancy tag s) (k : Nat) (card : Card)
    (here : s.board.card? k = some card) (target : card.target = s.nextKey) :
    card.stage ≠ .settled := by
  intro hsettled
  obtain ⟨f, hf⟩ := h.inv.known k card here
  obtain ⟨o, n, htable, -⟩ := h.inv.settled k card f here hsettled hf
  rw [target, h.table?_next] at htable
  cases htable

/-! ### Steps of calls -/

/-- Creators are told by their mappings. -/
theorem creates_congr (owners : ∀ t m, m.isOwner = true →
    (s'.mapping? t = some m ↔ s.mapping? t = some m)) : s'.Creates = s.Creates := by
  funext t o
  refine propext (exists_congr fun m => ?_)
  rw [and_left_comm, and_left_comm (a := s.mapping? t = some m)]
  exact and_congr_right fun owner => and_congr_left' (owners t m owner)

theorem creates_of_houses (houses : s.Houses s') : s'.Creates = s.Creates :=
  creates_congr fun t m _ => by rw [houses.mapping]

/-- Calls leave it as it is. -/
theorem of_houses (h : Tenancy tag s) (inv : s'.board.Inv) (houses : s.Houses s') :
    Tenancy tag s' := by
  obtain ⟨objects, himage, hsizes⟩ := houses.image
  have hcreates := creates_of_houses houses
  refine
    { inv := inv, keyed := ?_, drawn := ?_, named := ?_, linked := ?_, owned_iff := ?_
      sole := ?_ }
  · intro t target ht
    obtain ⟨target', ht'⟩ := houses.known t target ht
    exact Nat.lt_of_lt_of_le (h.keyed t target' ht') houses.next
  · rw [himage]
    intro o object ho
    have hsize : (s.image.directory.objects.get? o).map (·.size) = some object.size := by
      rw [← hsizes o, show objects.get? o = some object from ho]
      rfl
    obtain ⟨old, hget, -⟩ := Option.map_eq_some_iff.mp hsize
    exact h.drawn o old hget
  · rw [himage]
    intro file pid hcreator other linked
    obtain ⟨o, ho, hfile, hsize⟩ := h.named file pid hcreator other linked
    refine ⟨o, ho, hfile, ?_⟩
    rw [← hsize, Directory.sizeOf, Directory.sizeOf, hsizes]
  · intro t m hm
    rw [houses.mapping] at hm
    rw [himage]
    exact h.linked t m hm
  · rw [himage, hcreates]
    exact h.owned_iff
  · rw [hcreates]
    exact h.sole

theorem act {a : Action α} (h : Tenancy tag s) (alive : s.violation = none)
    (possible : s.Possible a) : Tenancy tag (s.act a) :=
  h.of_houses (h.inv.turn (State.turn_act h.inv alive possible)) (State.houses_act alive possible)

/-! ### Attaching -/

/-- Other names of the tag than the own one stay what they are, or come to be empty files. -/
theorem named_of_extends (h : Tenancy tag s) {i' : Image} (extended : s.image.Extends i' tag)
    {file : String} {pid : UInt32} (hcreator : creator? tag file = some pid)
    (other : .text file ≠ fileOf (regionName tag s.image.self))
    (linked : i'.directory.find? (.text file) ≠ none) : i'.directory.IsHollow (.text file) := by
  rcases extended.named _ other linked with hsame | hhollow
  · rw [hsame] at linked
    exact (h.named file pid hcreator other linked).of_extends extended.directory hsame
  · exact hhollow

/-- What is found in a scan is the object of a creator: an empty file is too small. -/
theorem creates_of_found (h : Tenancy tag s) {i' : Image} {n : UInt32} (spares : s.image.Spares i')
    (extended : s.image.Extends i' tag) (owned : i'.owned = s.image.owned)
    (found : i'.IsFound (i'.list tag) (regionSize n) m) : ∃ u, s.Creates u m.object := by
  obtain ⟨⟨name, pid⟩, he, live, hfile⟩ := found.met
  obtain ⟨file, -, hcreator, rfl⟩ := Image.mem_list.mp he
  rw [fileOf_slash] at hfile
  have hown : FileName.text file = fileOf (regionName tag s.image.self) := by
    by_contra hother
    obtain ⟨o, -, ho, hsize⟩ := h.named_of_extends extended hcreator hother (by simp [hfile])
    cases ho.symm.trans hfile
    exact absurd (regionSize_le n).1 (Nat.not_lt_of_le (hsize ▸ found.fits))
  rw [hown] at hfile
  rw [fileOf_regionName, FileName.text.injEq] at hown
  subst hown
  obtain rfl : s.image.self = pid := (creator?_regionFile.mp hcreator).2
  rw [← regionName_eq] at live
  have hmem : regionName tag s.image.self ∈ s.image.owned := by
    rw [← spares.self, Image.isStale_self, owned] at live
    simpa [spares.self] using live
  obtain ⟨u, o, m₀, hm₀, owner, -⟩ := h.owned_iff.mp hmem
  obtain ⟨hname, hlinked⟩ := h.linked u m₀ hm₀ owner
  rw [hname] at hlinked
  have hkept := spares.linked tag _ hmem hlinked
  rw [hfile] at hkept
  exact ⟨u, m₀, hm₀, owner, (Node.file.inj (Option.some.inj hkept)).symm⟩

/-- Who makes a region finds no creator. -/
theorem no_creator (h : Tenancy tag s) (named : m.name = regionName tag s.image.self)
    (free : m.name ∈ s.image.owned → s.image.directory.find? (fileOf m.name) = none) (u o : Nat) :
    ¬s.Creates u o := by
  intro creates
  have hmem := h.owned_iff.mpr ⟨u, o, creates⟩
  obtain ⟨m₀, hm₀, owner, rfl⟩ := creates
  obtain ⟨hname, hlinked⟩ := h.linked u m₀ hm₀ owner
  rw [hname, ← named] at hlinked
  rw [← named] at hmem
  rw [free hmem] at hlinked
  cases hlinked

/-- Attaching does not touch the slots of objects that are there. -/
theorem slot?_attach (h : Tenancy tag s) (c : Config) {id : FlagId} {v : UInt32}
    (hv : s.board.slot? o id = some v) : (s.attach c).board.slot? o = s.board.slot? o := by
  have hextends := (s.image.attach_joins c).2.1
  obtain ⟨object, hobject, -⟩ := Option.map_eq_some_iff.mp hv
  funext id
  show ((s.attach c).image.directory.objects.get? o).map _ =
    (s.image.directory.objects.get? o).map _
  rw [State.image_attach, hextends.directory.objects o (h.drawn o object hobject)]

/-- What a new table maps is an object. -/
theorem exists_object_attach (h : Tenancy tag s) (tagged : c.regionTag = tag) {table : SlotTable}
    (hresult : (SlotTable.attach s.image c).1 = .ok table) :
    ∃ object, (SlotTable.attach s.image c).2.1.directory.objects.get? table.mapping.object =
      some object := by
  obtain ⟨spares, hextends, joins⟩ := s.image.attach_joins c
  rw [hresult] at joins
  cases joins with
  | opens bare found owned =>
    rw [tagged] at found hextends
    obtain ⟨u, m, hm, owner, hsame⟩ := h.creates_of_found spares hextends owned found
    rw [← hsame, hextends.directory.objects _ (h.object_lt hm)]
    exact h.exists_object hm
  | makes bare made => exact made.object

theorem inv_attach (h : Tenancy tag s) (tagged : c.regionTag = tag) : (s.attach c).board.Inv := by
  have hslot (k o : Nat) (n : UInt32) (_ : k ≠ s.nextKey) (hk : s.board.table? k = some (o, n)) :
      (s.attach c).board.slot? o = s.board.slot? o := by
    obtain ⟨v, hv⟩ := h.inv.mapped k o n hk ⟨0⟩
    exact h.slot?_attach c hv
  cases hresult : (SlotTable.attach s.image c).1 with
  | error e =>
    rw [State.attach_of_error hresult] at hslot ⊢
    refine h.inv.retarget h.idle_next h.unsettled_next (Nat.le_refl _) rfl rfl ?_
      (fun _ _ => rfl) hslot ?_
    · rw [← h.held_next, update_eq_self]
      rfl
    · intro o n htable
      cases h.table?_next.symm.trans htable
  | ok table =>
    have joins := (s.image.attach_joins c).2.2
    obtain ⟨object, hobject⟩ := h.exists_object_attach tagged hresult
    rw [hresult] at joins
    rw [State.attach_of_ok hresult] at hslot ⊢
    refine h.inv.retarget h.idle_next h.unsettled_next (Nat.le_succ _) rfl rfl ?_ ?_ hslot ?_
    · funext k
      show (((s.targets.set s.nextKey (.ofTable table)).get? k).map _).getD [] = _
      by_cases hk : k = s.nextKey
      · subst hk
        rw [Store.get?_set_self, update_self]
        obtain ⟨bare, free⟩ := joins.bare
        exact (congrArg SlotTable.claims (SlotTable.unlock_of_free free)).trans bare
      · rw [Store.get?_set_of_ne _ (Ne.symm hk), update_of_ne hk]
        rfl
    · intro k hk
      show ((s.targets.set s.nextKey (.ofTable table)).get? k).bind _ = _
      rw [Store.get?_set_of_ne _ (Ne.symm hk)]
      rfl
    · intro o n htable id
      have htable : ((s.targets.set s.nextKey (.ofTable table)).get? s.nextKey).bind
          (fun target => target.executor.table?) = some (o, n) := htable
      rw [Store.get?_set_self] at htable
      cases htable
      exact ⟨_, congrArg (Option.map _) hobject⟩

theorem keyed_attach (h : Tenancy tag s) (c : Config) {target : Target}
    (ht : (s.attach c).targets.get? t = some target) : t < (s.attach c).nextKey := by
  cases hresult : (SlotTable.attach s.image c).1 with
  | error e =>
    rw [State.attach_of_error hresult] at ht ⊢
    exact h.keyed t target ht
  | ok table =>
    rw [State.attach_of_ok hresult] at ht ⊢
    by_cases hnew : t = s.nextKey
    · rw [hnew]
      exact Nat.lt_succ_self _
    · have ht : (s.targets.set s.nextKey (.ofTable table)).get? t = some target := ht
      rw [Store.get?_set_of_ne _ (Ne.symm hnew)] at ht
      exact Nat.lt_succ_of_lt (h.keyed t target ht)

theorem named_attach (h : Tenancy tag s) (tagged : c.regionTag = tag) (file : String)
    (pid : UInt32) (hcreator : creator? tag file = some pid)
    (other : .text file ≠ fileOf (regionName tag (s.attach c).image.self))
    (linked : (s.attach c).image.directory.find? (.text file) ≠ none) :
    (s.attach c).image.directory.IsHollow (.text file) := by
  obtain ⟨spares, hextends, -⟩ := s.image.attach_joins c
  rw [tagged] at hextends
  rw [State.image_attach] at other linked ⊢
  rw [spares.self] at other
  exact h.named_of_extends hextends hcreator other linked

/-- A creator keeps its name while others attach. -/
theorem linked_attach (h : Tenancy tag s) (c : Config) (hm : s.mapping? t = some m)
    (owner : m.isOwner = true) : m.name = regionName tag (s.attach c).image.self ∧
      (s.attach c).image.directory.find? (fileOf m.name) = some (.file m.object) := by
  have spares := (s.image.attach_joins c).1
  have hmem := h.owned_iff.mpr ⟨t, _, creates_of_owner hm owner⟩
  obtain ⟨hname, hlinked⟩ := h.linked t m hm owner
  rw [hname] at hlinked ⊢
  rw [State.image_attach, spares.self]
  exact ⟨rfl, spares.linked tag _ hmem hlinked⟩

/-- Whoever attaches without making a region leaves the creator as it is. -/
theorem attach_guest (h : Tenancy tag s) (tagged : c.regionTag = tag)
    (owned : (s.attach c).image.owned = s.image.owned)
    (owners : ∀ t m, m.isOwner = true →
      ((s.attach c).mapping? t = some m ↔ s.mapping? t = some m)) :
    Tenancy tag (s.attach c) := by
  have hself : (s.attach c).image.self = s.image.self := by
    rw [State.image_attach]
    exact (s.image.attach_joins c).1.self
  have hcreates := creates_congr owners
  refine
    { inv := h.inv_attach tagged, keyed := fun _ _ => h.keyed_attach c, drawn := ?_
      named := h.named_attach tagged, linked := ?_, owned_iff := ?_, sole := ?_ }
  · rw [State.image_attach]
    exact (s.image.attach_joins c).2.1.directory.drawn h.drawn
  · intro t m hm owner
    exact h.linked_attach c ((owners t m owner).mp hm) owner
  · rw [hself, owned, hcreates]
    exact h.owned_iff
  · rw [hcreates]
    exact h.sole

/-- Attaching leaves one creator. -/
theorem attach (h : Tenancy tag s) (tagged : c.regionTag = tag) : Tenancy tag (s.attach c) := by
  obtain ⟨spares, hextends, joins⟩ := s.image.attach_joins c
  have himage := State.image_attach s c
  cases hresult : (SlotTable.attach s.image c).1 with
  | error e =>
    rw [hresult] at joins
    cases joins with
    | refused _ owned =>
      refine h.attach_guest tagged (by rw [himage, owned]) fun t m _ => ?_
      rw [State.attach_of_error hresult]
      exact Iff.rfl
  | ok table =>
    rw [hresult] at joins
    have hmapping := State.mapping?_attach hresult
    cases joins with
    | opens bare found owned =>
      refine h.attach_guest tagged (by rw [himage, owned]) fun t m owner => ?_
      rw [hmapping]
      by_cases ht : t = s.nextKey
      · subst ht
        rw [update_self, h.mapping?_next]
        constructor
        · intro hm
          cases hm
          cases found.guest.symm.trans owner
        · intro hm
          cases hm
      · rw [update_of_ne ht]
    | makes bare made named free linked owned =>
      rw [tagged] at named
      have halone := h.no_creator named free
      have hnew {t : Nat} {m : Mapping} (hm : (s.attach c).mapping? t = some m)
          (owner : m.isOwner = true) : t = s.nextKey ∧ m = table.mapping := by
        rw [hmapping] at hm
        by_cases ht : t = s.nextKey
        · subst ht
          rw [update_self] at hm
          exact ⟨rfl, (Option.some.inj hm).symm⟩
        · rw [update_of_ne ht] at hm
          exact absurd (creates_of_owner hm owner) (halone _ _)
      refine
        { inv := h.inv_attach tagged, keyed := fun _ _ => h.keyed_attach c, drawn := ?_
          named := h.named_attach tagged, linked := ?_, owned_iff := ?_, sole := ?_ }
      · rw [himage]
        exact hextends.directory.drawn h.drawn
      · intro t m hm owner
        obtain ⟨-, rfl⟩ := hnew hm owner
        rw [himage, spares.self]
        exact ⟨named, linked⟩
      · rw [himage, spares.self, owned, named]
        refine iff_of_true (List.mem_append_right _ (List.mem_singleton_self _)) ?_
        refine ⟨s.nextKey, _, table.mapping, ?_, made.owner, rfl⟩
        rw [hmapping, update_self]
      · intro t t' o o' ⟨m, hm, owner, _⟩ ⟨m', hm', owner', _⟩
        rw [(hnew hm owner).1, (hnew hm' owner').1]

/-! ### Dropping -/

theorem objects_release (i : Image) (m : Mapping) :
    (i.release m).1.directory.objects = i.directory.objects ∧
      (i.release m).1.directory.nextObject = i.directory.nextObject := by
  have hunlink (d : Directory) (name : FileName) : (d.unlink name).2.objects = d.objects := by
    unfold Directory.unlink
    split <;> rfl
  unfold Image.release
  split
  · exact ⟨hunlink .., Directory.nextObject_unlink ..⟩
  · exact ⟨rfl, rfl⟩

theorem objects_drop (s : State α) (t : Nat) :
    (s.dropTarget t).1.image.directory.objects = s.image.directory.objects ∧
      (s.dropTarget t).1.image.directory.nextObject = s.image.directory.nextObject := by
  rw [State.image_dropTarget]
  split
  · exact objects_release ..
  · exact ⟨rfl, rfl⟩

/-- Dropping does not touch the slots of objects. -/
theorem slot?_drop (s : State α) (t : Nat) : (s.dropTarget t).1.board.slot? = s.board.slot? := by
  funext o id
  show ((s.dropTarget t).1.image.directory.objects.get? o).map _ = _
  rw [(objects_drop s t).1]
  rfl

theorem inv_drop (h : Tenancy tag s) (unused : s.IsUnused t) :
    (s.dropTarget t).1.board.Inv := by
  have hslot := slot?_drop s t
  obtain ⟨targets, image, hdrop, hget⟩ := s.dropTarget_eq t
  rw [hdrop] at hslot ⊢
  refine h.inv.retarget unused.idle unused.unsettled (Nat.le_refl _) rfl rfl ?_ ?_ ?_ ?_
  · funext k
    show ((targets.get? k).map _).getD [] = _
    rw [hget, update_apply]
    split
    · rfl
    · rfl
  · intro k hk
    show (targets.get? k).bind _ = _
    rw [hget, if_neg hk]
    rfl
  · intro k o n _ _
    rw [hslot]
  · intro o n htable
    have htable : (targets.get? t).bind (fun target => target.executor.table?) = some (o, n) :=
      htable
    rw [hget, if_pos rfl] at htable
    cases htable

theorem keyed_drop (h : Tenancy tag s) (t : Nat) {k : Nat} {target : Target}
    (hk : (s.dropTarget t).1.targets.get? k = some target) : k < (s.dropTarget t).1.nextKey := by
  obtain ⟨targets, image, hdrop, hget⟩ := s.dropTarget_eq t
  rw [hdrop] at hk ⊢
  have hk : targets.get? k = some target := hk
  rw [hget] at hk
  split at hk
  · cases hk
  · exact h.keyed k target hk

/-- Dropping an executor that has made no region. -/
theorem drop_guest (h : Tenancy tag s) (unused : s.IsUnused t)
    (guest : ∀ m, s.mapping? t = some m → m.isOwner = false) :
    Tenancy tag (s.dropTarget t).1 := by
  have himage : (s.dropTarget t).1.image = s.image := by
    rw [State.image_dropTarget]
    split
    next m hm => simp [Image.release, guest m hm]
    next => rfl
  have howners (k : Nat) (m : Mapping) (owner : m.isOwner = true) :
      (s.dropTarget t).1.mapping? k = some m ↔ s.mapping? k = some m := by
    rw [State.mapping?_dropTarget]
    by_cases hk : k = t
    · subst hk
      rw [update_self]
      constructor
      · intro hnone
        cases hnone
      · intro hm
        cases owner.symm.trans (guest m hm)
    · rw [update_of_ne hk]
  have hcreates := creates_congr howners
  refine
    { inv := h.inv_drop unused, keyed := fun _ _ => h.keyed_drop t, drawn := ?_, named := ?_
      linked := ?_, owned_iff := ?_, sole := ?_ }
  · rw [himage]
    exact h.drawn
  · rw [himage]
    exact h.named
  · intro k m hm owner
    rw [himage]
    exact h.linked k m ((howners k m owner).mp hm) owner
  · rw [himage, hcreates]
    exact h.owned_iff
  · rw [hcreates]
    exact h.sole

/-- Dropping the creator takes its name away, and then there is no creator. -/
theorem drop_creator (h : Tenancy tag s) (unused : s.IsUnused t) (hm : s.mapping? t = some m)
    (owner : m.isOwner = true) : Tenancy tag (s.dropTarget t).1 := by
  have himage : (s.dropTarget t).1.image = (s.image.unlink m.name).2.disown m.name := by
    rw [State.image_dropTarget, hm]
    simp [Image.release, owner]
  have hname := (h.linked t m hm owner).1
  have hextends : s.image.Extends (s.image.unlink m.name).2 tag := Image.unlink_extends ..
  have hnone (k o : Nat) : ¬(s.dropTarget t).1.Creates k o := by
    rintro ⟨m', hm', owner', -⟩
    rw [State.mapping?_dropTarget] at hm'
    by_cases hk : k = t
    · subst hk
      rw [update_self] at hm'
      cases hm'
    · rw [update_of_ne hk] at hm'
      exact hk (h.sole _ _ _ _ (creates_of_owner hm' owner') (creates_of_owner hm owner))
  refine
    { inv := h.inv_drop unused, keyed := fun _ _ => h.keyed_drop t, drawn := ?_, named := ?_
      linked := ?_, owned_iff := ?_, sole := ?_ }
  · rw [himage]
    exact hextends.directory.drawn h.drawn
  · rw [himage]
    exact fun file pid hcreator other linked =>
      h.named_of_extends hextends hcreator other linked
  · intro k m' hm' owner'
    exact absurd (creates_of_owner hm' owner') (hnone _ _)
  · rw [himage]
    constructor
    · show regionName tag s.image.self ∈
        (s.image.owned.filter fun other => !decide (other = m.name)) → _
      simp [hname]
    · rintro ⟨k, o, creates⟩
      exact absurd creates (hnone k o)
  · intro k k' o o' creates
    exact absurd creates (hnone _ _)

theorem drop (h : Tenancy tag s) (unused : s.IsUnused t) : Tenancy tag (s.dropTarget t).1 := by
  by_cases hcreator : ∃ m, s.mapping? t = some m ∧ m.isOwner = true
  · obtain ⟨m, hm, owner⟩ := hcreator
    exact h.drop_creator unused hm owner
  · refine h.drop_guest unused fun m hm => ?_
    rw [Bool.eq_false_iff]
    exact fun owner => hcreator ⟨m, hm, owner⟩

theorem change {x : Change α} (h : Tenancy tag s) (alive : s.violation = none)
    (permitted : s.Permits tag x) : Tenancy tag (s.change x) := by
  cases x with
  | act a => exact h.act alive permitted
  | attach c => exact h.attach permitted
  | drop t => exact h.drop permitted

end Tenancy

/-- The tables of a tag are in order at all times. -/
theorem Course.tenancy (course : Course tag s₀ past s) (vacant : s₀.IsVacant tag) :
    Tenancy tag s := by
  induction course with
  | start => exact vacant.tenancy
  | step course alive permitted ih => exact ih.change alive permitted

end RunOnce.Protocol
