import RunOnce.Proofs.Exclusion.Tenancy

/-!
# One table for as long as its creator stays

**Theorem (`one_table_per_creator`).** Of two executors that are there at the same time, the younger
one maps the object of the older one if and only if the creator of that object was still there when
the younger one attached. So as long as no creator is dropped before the others, all executors map
one object. For each handle at most one initializer starts over all executors that ever map an
object.

An executor that is left behind by the creator goes on with the object, and the next one to attach
makes another table: then two initializers run for one handle (`rivals_after_drop`).

That an initializer starts once needs no more than the slot: a call that starts finds it idle and
leaves it running (`State.slot?_of_starts`), no call makes it idle again, and attaching and dropping
leave the slots of old objects alone.
-/

namespace RunOnce.Protocol

open Function Region

variable {α : Type} {s s₀ : State α} {tag : String} {past : Changes α} {t o : Nat} {id : FlagId}
  {c : Config}

/-! ## Who maps what -/

namespace State

theorem objectOf?_attach {table : SlotTable} (h : (SlotTable.attach s.image c).1 = .ok table) :
    (s.attach c).objectOf? t =
      if t = s.nextKey then some table.mapping.object else s.objectOf? t := by
  rw [objectOf?_eq_mapping?, mapping?_attach h, update_apply, objectOf?_eq_mapping?]
  split
  · rfl
  · rfl

theorem objectOf?_dropTarget (s : State α) (t k : Nat) :
    (s.dropTarget t).1.objectOf? k = if k = t then none else s.objectOf? k := by
  rw [objectOf?_eq_mapping?, mapping?_dropTarget, update_apply, objectOf?_eq_mapping?]
  split
  · rfl
  · rfl

theorem Houses.objectOf? {s' : State α} (houses : s.Houses s') (t : Nat) :
    s'.objectOf? t = s.objectOf? t := by
  rw [objectOf?_eq_mapping?, objectOf?_eq_mapping?, houses.mapping]

/-- What an executor maps it has mapped before, unless it has just attached. -/
theorem objectOf?_of_change {x : Change α} (alive : s.violation = none)
    (permitted : s.Permits tag x) (ht : (s.change x).objectOf? t = some o) :
    s.objectOf? t = some o ∨ ∃ c, x = .attach c ∧ t = s.nextKey := by
  cases x with
  | act a =>
    rw [change, (houses_act alive permitted).objectOf?] at ht
    exact Or.inl ht
  | attach c =>
    rw [change] at ht
    cases hresult : (SlotTable.attach s.image c).1 with
    | error e =>
      rw [attach_of_error hresult] at ht
      exact Or.inl ht
    | ok table =>
      rw [objectOf?_attach hresult] at ht
      split at ht
      next hnew => exact Or.inr ⟨c, rfl, hnew⟩
      next => exact Or.inl ht
  | drop u =>
    rw [change, objectOf?_dropTarget] at ht
    split at ht
    · cases ht
    · exact Or.inl ht

theorem IsVacant.objectOf?_eq (vacant : s.IsVacant tag) (t : Nat) : s.objectOf? t = none := by
  rw [objectOf?_eq_mapping?, vacant.mapping?_eq]
  rfl

end State

namespace Tenancy

variable {o' : Nat}

theorem objectOf?_lt (h : Tenancy tag s) (ht : s.objectOf? t = some o) : t < s.nextKey := by
  obtain ⟨m, hm, -⟩ := State.exists_mapping? ht
  obtain ⟨target, htarget, -⟩ := Option.bind_eq_some_iff.mp hm
  exact h.keyed t target htarget

theorem same_object (h : Tenancy tag s) {t' : Nat} (creates : s.Creates t o)
    (creates' : s.Creates t' o') : o = o' := by
  have hsame := h.sole _ _ _ _ creates creates'
  obtain ⟨m, hm, -, rfl⟩ := creates
  obtain ⟨m', hm', -, rfl⟩ := creates'
  rw [hsame, hm'] at hm
  cases hm
  rfl

/-- **A newcomer joins an older executor** if and only if the creator of the older one's object is
there. -/
theorem joins_iff (h : Tenancy tag s) (tagged : c.regionTag = tag) (older : s.objectOf? t = some o)
    (newer : (s.attach c).objectOf? s.nextKey = some o') : o = o' ↔ ∃ u, s.Creates u o := by
  obtain ⟨spares, hextends, joins⟩ := s.image.attach_joins c
  obtain ⟨m, hm, rfl⟩ := State.exists_mapping? older
  cases hresult : (SlotTable.attach s.image c).1 with
  | error e =>
    rw [State.attach_of_error hresult] at newer
    exact absurd (h.objectOf?_lt newer) (Nat.lt_irrefl _)
  | ok table =>
    rw [State.objectOf?_attach hresult, if_pos rfl] at newer
    cases newer
    rw [hresult] at joins
    cases joins with
    | opens bare found owned =>
      rw [tagged] at found hextends
      obtain ⟨u, creates⟩ := h.creates_of_found spares hextends owned found
      constructor
      · intro hsame
        exact ⟨u, hsame ▸ creates⟩
      · rintro ⟨u', creates'⟩
        exact h.same_object creates' creates
    | makes bare made named free =>
      rw [tagged] at named
      constructor
      · intro hsame
        exact absurd hsame (Nat.ne_of_lt (Nat.lt_of_lt_of_le (h.object_lt hm) made.fresh))
      · rintro ⟨u, creates⟩
        exact absurd creates (h.no_creator named free u _)

theorem creates_attach (h : Tenancy tag s) (c : Config) (creates : s.Creates t o) :
    (s.attach c).Creates t o := by
  obtain ⟨m, hm, owner, rfl⟩ := creates
  refine ⟨m, ?_, owner, rfl⟩
  cases hresult : (SlotTable.attach s.image c).1 with
  | error e =>
    rw [State.attach_of_error hresult]
    exact hm
  | ok table =>
    rw [State.mapping?_attach hresult, update_of_ne, hm]
    rintro rfl
    rw [h.mapping?_next] at hm
    cases hm

/-- If all executors have their creator, then so does the next one, and so do the others. -/
theorem has_creator_attach (h : Tenancy tag s) (tagged : c.regionTag = tag)
    (all : ∀ t o, s.objectOf? t = some o → ∃ u, s.Creates u o)
    (ht : (s.attach c).objectOf? t = some o) : ∃ u, (s.attach c).Creates u o := by
  obtain ⟨spares, hextends, joins⟩ := s.image.attach_joins c
  have hold (hs : s.objectOf? t = some o) : ∃ u, (s.attach c).Creates u o := by
    obtain ⟨u, creates⟩ := all t o hs
    exact ⟨u, h.creates_attach c creates⟩
  cases hresult : (SlotTable.attach s.image c).1 with
  | error e =>
    rw [State.attach_of_error hresult] at ht
    exact hold ht
  | ok table =>
    rw [State.objectOf?_attach hresult] at ht
    split at ht
    · cases ht
      rw [hresult] at joins
      cases joins with
      | opens bare found owned =>
        rw [tagged] at found hextends
        obtain ⟨u, creates⟩ := h.creates_of_found spares hextends owned found
        exact ⟨u, h.creates_attach c creates⟩
      | makes bare made =>
        refine ⟨s.nextKey, table.mapping, ?_, made.owner, rfl⟩
        rw [State.mapping?_attach hresult, update_self]
    · exact hold ht

theorem has_creator_drop {u : Nat}
    (all : ∀ t o, s.objectOf? t = some o → ∃ u, s.Creates u o)
    (kept : (∃ o, s.Creates u o) → ∀ t, t ≠ u → s.objectOf? t = none)
    (ht : (s.dropTarget u).1.objectOf? t = some o) : ∃ w, (s.dropTarget u).1.Creates w o := by
  rw [State.objectOf?_dropTarget] at ht
  split at ht
  · cases ht
  next hne =>
    obtain ⟨w, m, hm, owner, rfl⟩ := all t o ht
    refine ⟨w, m, ?_, owner, rfl⟩
    rw [State.mapping?_dropTarget, update_of_ne, hm]
    rintro rfl
    rw [kept ⟨_, m, hm, owner, rfl⟩ t hne] at ht
    cases ht

end Tenancy

/-- No creator is dropped while others are there. -/
def CreatorsLast (past : Changes α) : Prop :=
  ∀ m u, (m, Change.drop u) ∈ past → (∃ o, m.Creates u o) → ∀ t, t ≠ u → m.objectOf? t = none

/-- If no creator is dropped while others are there, every executor has its creator. -/
theorem Course.has_creator (course : Course tag s₀ past s) (vacant : s₀.IsVacant tag)
    (last : CreatorsLast past) : ∀ t o, s.objectOf? t = some o → ∃ u, s.Creates u o := by
  induction course with
  | start =>
    intro t o ht
    rw [vacant.objectOf?_eq] at ht
    cases ht
  | @step past s x course alive permitted ih =>
    have hall := ih fun m u hm => last m u (List.mem_append_left _ hm)
    intro t o ht
    cases x with
    | act a =>
      have houses := State.houses_act alive permitted
      rw [State.change, houses.objectOf?] at ht
      obtain ⟨u, creates⟩ := hall t o ht
      refine ⟨u, ?_⟩
      rw [State.change, Tenancy.creates_of_houses houses]
      exact creates
    | attach c => exact (course.tenancy vacant).has_creator_attach permitted hall ht
    | drop u =>
      refine Tenancy.has_creator_drop hall (last s u ?_) ht
      exact List.mem_append_right _ (List.mem_singleton_self _)

/-- Of two executors the younger one has attached while the older one was there. -/
theorem Course.attached (course : Course tag s₀ past s) (vacant : s₀.IsVacant tag) {t' o' : Nat}
    (ht : s.objectOf? t = some o) (ht' : s.objectOf? t' = some o') (younger : t < t') :
    ∃ m c, (m, Change.attach c) ∈ past ∧ m.nextKey = t' ∧ m.objectOf? t = some o ∧
      (m.attach c).objectOf? t' = some o' ∧ (o = o' ↔ ∃ u, m.Creates u o) := by
  induction course with
  | start =>
    rw [vacant.objectOf?_eq] at ht
    cases ht
  | @step past s x course alive permitted ih =>
    have htenancy := course.tenancy vacant
    rcases State.objectOf?_of_change alive permitted ht' with hold' | ⟨c, rfl, rfl⟩
    · have hlt := Nat.lt_trans younger (htenancy.objectOf?_lt hold')
      rcases State.objectOf?_of_change alive permitted ht with hold | ⟨-, -, rfl⟩
      · obtain ⟨m, c, hm, hrest⟩ := ih hold hold'
        exact ⟨m, c, List.mem_append_left _ hm, hrest⟩
      · exact absurd hlt (Nat.lt_irrefl _)
    · rcases State.objectOf?_of_change alive permitted ht with hold | ⟨-, -, rfl⟩
      · exact ⟨s, c, List.mem_append_right _ (List.mem_singleton_self _), rfl, hold, ht',
          htenancy.joins_iff permitted hold ht'⟩
      · exact absurd younger (Nat.lt_irrefl _)

/-! ## Who has started -/

/-- The call that starts its initializer for a handle through a table over an object. -/
def startsOver? (o : Nat) (id : FlagId) : State α × Change α → Option Nat
  | (s, .act a) => (Moment.mk s a).starts?.filter (s.picks (s.forSlot o id))
  | (_, .attach _) | (_, .drop _) => none

/-- The calls that have started their initializers for a handle over an object. -/
def startedOver (o : Nat) (id : FlagId) (past : Changes α) : List Nat :=
  past.filterMap (startsOver? o id)

/-- A call that starts at a slot finds it idle and leaves it running. -/
theorem Turn.slot?_of_start {b b' : Board} {k : Nat} {p : Nat → Nat → Bool} (h : b.Inv)
    (turn : Turn b k b') (before : (b.stageOf p k).isInside = false)
    (after : (b'.stageOf p k).isInside = true)
    (picks : ∀ t f, p t f = true →
      (∃ n, b.table? t = some (o, n)) ∧ (b.flag? f).map Flag.id = some id) :
    b.slot? o id = some slotIdle ∧ b'.slot? o id = some slotRunning := by
  constructor
  · obtain ⟨card, flag, -, hp, hflag, hguard⟩ := turn.start_of_stageOf h before after
    obtain ⟨⟨n, htable⟩, hid⟩ := picks _ _ hp
    rw [hflag] at hid
    obtain rfl : flag.id = id := Option.some.inj hid
    rcases hguard with ⟨hbare, -⟩ | ⟨o', n', htable', hidle⟩
    · cases hbare.symm.trans htable
    · cases htable'.symm.trans htable
      exact hidle
  · have hne : b'.stageOf p k ≠ .outside := by
      intro houtside
      rw [houtside] at after
      cases after
    obtain ⟨now, hnow, hp, hstage⟩ := Board.card_of_stageOf hne
    obtain ⟨⟨n, htable⟩, hid⟩ := picks _ _ hp
    rw [← turn.table?_eq] at htable
    rw [← turn.flag_id] at hid
    obtain ⟨flag, hflag, hsame⟩ := Option.map_eq_some_iff.mp hid
    rw [← hstage] at after
    cases hholder : now.stage with
    | inside who =>
      have hclaim : b'.claim? k = some (now.target, flag.id, who) := by
        rw [Board.claim?_of_card hnow]
        exact Board.claimOf_eq_some (by rw [hholder]; rfl) hflag
      rw [← hsame]
      exact ((h.turn turn).running _ _ _ _ _ _ hclaim htable).2
    | outside | leaving | settled | passed =>
      rw [hholder] at after
      cases after

namespace State

/-- A call that starts is outside before, and inside afterwards. -/
theorem stageOf_of_starts {a : Action α} {k : Nat} (inv : s.board.Inv) (alive : s.violation = none)
    (possible : s.Possible a) (starts : startsOver? o id (s, .act a) = some k) :
    (s.board.stageOf (s.forSlot o id) (a.call s)).isInside = false ∧
      ((s.act a).board.stageOf (s.forSlot o id) (a.call s)).isInside = true := by
  obtain ⟨hstarts, hpicks⟩ := Option.filter_eq_some_iff.mp starts
  obtain ⟨hsubject, hinside⟩ := Option.filter_eq_some_iff.mp hstarts
  obtain rfl : a.call s = k := by rw [Action.call, hsubject]; rfl
  obtain ⟨hbefore, hafter⟩ := Bool.and_eq_true_iff.mp hinside
  obtain ⟨call, hcall, -⟩ := (Option.any_eq_true ..).mp hpicks
  obtain ⟨-, -, hpicks'⟩ := picks_act (p := s.forSlot o id) inv alive possible (card?_board hcall)
  rw [isInside_stageOf, isInside_stageOf, hpicks', hpicks, Bool.and_true, Bool.and_true]
  exact ⟨by simpa using hbefore, hafter⟩

/-- A call that starts for a handle over an object finds the slot idle and leaves it running. -/
theorem slot?_of_starts {a : Action α} {k : Nat} (inv : s.board.Inv) (alive : s.violation = none)
    (possible : s.Possible a) (starts : startsOver? o id (s, .act a) = some k) :
    s.board.slot? o id = some slotIdle ∧ (s.act a).board.slot? o id = some slotRunning := by
  obtain ⟨before, after⟩ := stageOf_of_starts inv alive possible starts
  exact (turn_act inv alive possible).slot?_of_start inv before after fun _ _ => forSlot_iff.mp

/-- A slot that is used stays used. -/
theorem used_act {a : Action α} {v : UInt32} (inv : s.board.Inv) (alive : s.violation = none)
    (possible : s.Possible a) (hslot : s.board.slot? o id = some v) (used : v ≠ slotIdle) :
    ∃ v, (s.act a).board.slot? o id = some v ∧ v ≠ slotIdle := by
  rcases (turn_act inv alive possible).slot?_cases o id with
    hsame | ⟨hidle, -⟩ | ⟨_, _, _, _, -, -, -, -, -, -, hdone⟩
  · exact ⟨v, hsame.trans hslot, used⟩
  · cases hslot.symm.trans hidle
    exact absurd rfl used
  · exact ⟨_, hdone, by decide⟩

end State

@[simp] theorem startedOver_concat (o : Nat) (id : FlagId) (past : Changes α)
    (e : State α × Change α) :
    startedOver o id (past ++ [e]) = startedOver o id past ++ (startsOver? o id e).toList := by
  cases h : startsOver? o id e <;> simp [startedOver, h]

/-- Once an initializer has started for a handle over an object, the slot is used. -/
theorem Course.started_once (course : Course tag s₀ past s) (vacant : s₀.IsVacant tag)
    (o : Nat) (id : FlagId) : (startedOver o id past).length ≤ 1 ∧
      (startedOver o id past ≠ [] → ∃ v, s.board.slot? o id = some v ∧ v ≠ slotIdle) := by
  induction course with
  | start => exact ⟨Nat.zero_le _, fun h => absurd rfl h⟩
  | @step past s x course alive permitted ih =>
    have htenancy := course.tenancy vacant
    obtain ⟨hone, hused⟩ := ih
    rw [startedOver_concat]
    cases x with
    | act a =>
      cases hstarts : startsOver? o id (s, .act a) with
      | none =>
        rw [Option.toList_none, List.append_nil]
        refine ⟨hone, fun hne => ?_⟩
        obtain ⟨v, hv, used⟩ := hused hne
        exact State.used_act htenancy.inv alive permitted hv used
      | some k =>
        obtain ⟨hidle, hrunning⟩ := State.slot?_of_starts htenancy.inv alive permitted hstarts
        -- The slot was idle, so nobody has started before.
        have hnone : startedOver o id past = [] := by
          by_contra hne
          obtain ⟨v, hv, used⟩ := hused hne
          cases hv.symm.trans hidle
          exact used rfl
        rw [hnone]
        exact ⟨Nat.le_refl _, fun _ => ⟨_, hrunning, by decide⟩⟩
    | attach c =>
      rw [startsOver?, Option.toList_none, List.append_nil]
      refine ⟨hone, fun hne => ?_⟩
      obtain ⟨v, hv, used⟩ := hused hne
      refine ⟨v, ?_, used⟩
      rw [← hv, State.change, htenancy.slot?_attach c hv]
    | drop t =>
      rw [startsOver?, Option.toList_none, List.append_nil]
      refine ⟨hone, fun hne => ?_⟩
      obtain ⟨v, hv, used⟩ := hused hne
      refine ⟨v, ?_, used⟩
      rw [← hv, State.change, Tenancy.slot?_drop]

/-- **One table for as long as its creator stays.** Of two executors that are there at the same
time, the younger one has attached while the older one was there, and it maps the same object if and
only if the creator of that object was there as well. So all executors map one object if no creator
is dropped before the others. For each handle at most one initializer starts over all executors that
ever map an object. -/
theorem one_table_per_creator (course : Course tag s₀ past s) (vacant : s₀.IsVacant tag) :
    (∀ t t' o o', s.objectOf? t = some o → s.objectOf? t' = some o' → t < t' →
      ∃ m c, (m, Change.attach c) ∈ past ∧ m.nextKey = t' ∧ m.objectOf? t = some o ∧
        (m.attach c).objectOf? t' = some o' ∧ (o = o' ↔ ∃ u, m.Creates u o)) ∧
    (CreatorsLast past → ∀ t t' o o', s.objectOf? t = some o → s.objectOf? t' = some o' → o = o') ∧
    ∀ o id, (startedOver o id past).length ≤ 1 := by
  refine ⟨fun t t' o o' ht ht' younger => course.attached vacant ht ht' younger, ?_,
    fun o id => (course.started_once vacant o id).1⟩
  intro last t t' o o' ht ht'
  obtain ⟨u, creates⟩ := course.has_creator vacant last t o ht
  obtain ⟨u', creates'⟩ := course.has_creator vacant last t' o' ht'
  exact (course.tenancy vacant).same_object creates creates'

/-! ## A table without its creator -/

/-- The state after changes, one after another. -/
def State.changes (s : State α) : List (Change α) → State α
  | [] => s
  | x :: rest => (s.change x).changes rest

/-- Changes, each with the state in which it happens. -/
def State.trail (s : State α) : List (Change α) → Changes α
  | [] => []
  | x :: rest => (s, x) :: (s.change x).trail rest

/-- Changes that may happen, one after another. -/
def State.Admits (s : State α) (tag : String) : List (Change α) → Prop
  | [] => True
  | x :: rest => s.violation = none ∧ s.Permits tag x ∧ (s.change x).Admits tag rest

theorem Course.append (course : Course tag s₀ past s) {changes : List (Change α)}
    (admitted : s.Admits tag changes) :
    Course tag s₀ (past ++ s.trail changes) (s.changes changes) := by
  induction changes generalizing past s with
  | nil => simpa [State.trail, State.changes] using course
  | cons x rest ih =>
    obtain ⟨alive, permitted, admitted⟩ := admitted
    have hnext := ih (course.step alive permitted) admitted
    rwa [List.append_assoc] at hnext

/-- A process without a region, in which there are two flags with one handle. -/
def vacantStart : State Unit where
  flags := ⟨[(0, { id := ⟨3⟩ }), (1, { id := ⟨3⟩ })]⟩
  image := { self := 7, isAlive := fun _ => true }
  nextKey := 2

/-- Settings for the table of the tag. -/
def eightSlots : Config where
  regionTag := "t"
  slotCount := 8

/-- Two executors attach. -/
def pairChanges : List (Change Unit) := [.attach eightSlots, .attach eightSlots]

/-- Of two executors the creator is dropped, another one attaches, and two threads want the handle:
one through the executor that was left behind, the other one through the new one. -/
def rivalChanges : List (Change Unit) :=
  [.attach eightSlots, .attach eightSlots, .drop 2, .attach eightSlots,
    .act (.issue
      { flavour := .blocking, thread := "a", target := 3, flag := 0, phase := .arriving }),
    .act (.advance 5), .act (.advance 5),
    .act (.issue
      { flavour := .blocking, thread := "b", target := 4, flag := 1, phase := .arriving }),
    .act (.advance 6), .act (.advance 6)]

theorem vacantStart_isVacant : vacantStart.IsVacant "t" where
  calls _ := rfl
  registries := nofun
  violation := rfl
  drawn := nofun
  free := rfl
  unowned := nofun

theorem pair_admitted : vacantStart.Admits "t" pairChanges :=
  ⟨rfl, rfl, rfl, rfl, trivial⟩

theorem rival_admitted : vacantStart.Admits "t" rivalChanges :=
  ⟨rfl, rfl, rfl, rfl, rfl, nofun, rfl, rfl,
    rfl, ⟨Or.inr rfl, rfl, ⟨_, rfl⟩, ⟨_, rfl⟩, nofun⟩, rfl, rfl, rfl, rfl,
    rfl, ⟨Or.inr rfl, rfl, ⟨_, rfl⟩, ⟨_, rfl⟩, nofun⟩, rfl, rfl, rfl, rfl, trivial⟩

/-- **A table without its creator has rivals.** The executor that is left behind and the next one
map two objects, and both run an initializer for the handle. -/
theorem rivals_after_drop :
    vacantStart.IsVacant "t" ∧
    Course "t" vacantStart (vacantStart.trail rivalChanges) (vacantStart.changes rivalChanges) ∧
    (vacantStart.changes rivalChanges).objectOf? 3 = some 1 ∧
    (vacantStart.changes rivalChanges).objectOf? 4 = some 2 ∧
    startedOver 1 ⟨3⟩ (vacantStart.trail rivalChanges) = [5] ∧
    startedOver 2 ⟨3⟩ (vacantStart.trail rivalChanges) = [6] ∧
    (vacantStart.changes rivalChanges).isInside 5 = true ∧
    (vacantStart.changes rivalChanges).isInside 6 = true :=
  ⟨vacantStart_isVacant, Course.start.append rival_admitted, rfl, rfl, rfl, rfl, rfl, rfl⟩

theorem pair_creatorsLast : CreatorsLast (vacantStart.trail pairChanges) := by
  intro m u hdrop
  simp [pairChanges, State.trail] at hdrop

/-- The pair maps one object. When the last executor attaches, the object of the one before it has
lost its creator. -/
theorem one_table_per_creator_rivals :
    (vacantStart.changes pairChanges).objectOf? 2 =
      (vacantStart.changes pairChanges).objectOf? 3 ∧
    (∃ m c, (m, Change.attach c) ∈ vacantStart.trail rivalChanges ∧ m.nextKey = 4 ∧
      m.objectOf? 3 = some 1 ∧ (m.attach c).objectOf? 4 = some 2 ∧ ¬∃ u, m.Creates u 1) ∧
    ∀ o id, (startedOver o id (vacantStart.trail rivalChanges)).length ≤ 1 := by
  obtain ⟨-, hone, -⟩ :=
    one_table_per_creator (Course.start.append pair_admitted) vacantStart_isVacant
  obtain ⟨hjoins, -, hstarted⟩ :=
    one_table_per_creator (Course.start.append rival_admitted) vacantStart_isVacant
  refine ⟨?_, ?_, hstarted⟩
  · obtain ⟨o, ho⟩ : ∃ o, (vacantStart.changes pairChanges).objectOf? 2 = some o := ⟨1, rfl⟩
    obtain ⟨o', ho'⟩ : ∃ o, (vacantStart.changes pairChanges).objectOf? 3 = some o := ⟨1, rfl⟩
    rw [ho, ho', hone pair_creatorsLast 2 3 o o' ho ho']
  · obtain ⟨m, c, hattach, hkey, hold, hnew, hsame⟩ := hjoins 3 4 1 2 rfl rfl (by decide)
    refine ⟨m, c, hattach, hkey, hold, hnew, fun hcreator => ?_⟩
    exact absurd (hsame.mpr hcreator) (by decide)

end RunOnce.Protocol
