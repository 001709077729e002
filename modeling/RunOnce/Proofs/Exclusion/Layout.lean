import Mathlib.Order.Interval.Set.Basic
import RunOnce.Proofs.Exclusion.Targets
import RunOnce.Proofs.Reentrancy.Report

/-!
# The words of a slot table

**The layout** (`SlotTable.Layout`). A region that is accepted for a slot table has room for the
header and all slots, so every slot lies inside the mapping, behind the header, and apart from the
other slots. Where a slot lies depends on its handle only, not on how many slots a table has.

**Words in a run.** A word of an object changes only when a call claims or settles a slot, and it is
the slot of its own handle (`wordAt_act`).

**Theorem (`slots_apart`).** The layout, for all counts and handles and without an overflow in 64
bits, and what follows for every run over tables that fit: no call changes the header, or the slot
of another handle, or a byte outside of its mapping.
-/

namespace RunOnce

open Region

/-- The bytes of a word. -/
def bytesOf (word : Nat) : Set Nat := Set.Ico (4 * word) (4 * word + 4)

theorem bytesOf_inter {word word' : Nat} (h : word ≠ word') : bytesOf word ∩ bytesOf word' = ∅ := by
  refine Set.eq_empty_iff_forall_notMem.mpr fun byte ⟨hbyte, hbyte'⟩ => ?_
  simp only [bytesOf, Set.mem_Ico] at hbyte hbyte'
  omega

theorem bytesOf_subset {word size : Nat} (h : 4 * word + 4 ≤ size) :
    bytesOf word ⊆ Set.Ico 0 size := Set.Ico_subset_Ico (Nat.zero_le _) h

/-- The size of a region in 64-bit arithmetic, where neither the sum nor the product overflows. -/
theorem toNat_regionSize (slots : UInt32) :
    ((UInt64.ofNat headerWords + slots.toUInt64) * 4).toNat = regionSize slots := by
  have hslots := slots.toNat_lt
  simp only [UInt64.toNat_mul, UInt64.toNat_add, UInt32.toNat_toUInt64, regionSize, headerWords]
  simp
  omega

theorem regionSize_lt (slots : UInt32) : regionSize slots < UInt64.size := by
  have hslots := slots.toNat_lt
  rw [regionSize, headerWords, UInt64.size]
  omega

/-- Handles whose slots are the same word are the same. -/
theorem FlagId.eq_of_word {id id' : FlagId}
    (same : headerWords + id.index.toNat = headerWords + id'.index.toNat) : id = id' :=
  congrArg FlagId.mk (UInt32.toNat_inj.mp (Nat.add_left_cancel same))

namespace SlotTable

variable {t : SlotTable} {id : FlagId} {word : Nat}

theorem wordOf?_eq_some_iff :
    t.wordOf? id = some word ↔ id.index < t.slotCount ∧ word = headerWords + id.index.toNat := by
  unfold wordOf?
  split
  next within => simp [within, eq_comm]
  next outside => simp [outside]

theorem isSome_wordOf? : (t.wordOf? id).isSome = true ↔ id.index < t.slotCount := by
  unfold wordOf?
  split
  next within => simp [within]
  next outside => simp [outside]

/-- The mapping has room for the header and the slots. -/
def Fits (t : SlotTable) : Prop := regionSize t.slotCount ≤ t.mapping.size

instance (t : SlotTable) : Decidable t.Fits :=
  inferInstanceAs (Decidable (regionSize t.slotCount ≤ t.mapping.size))

theorem Fits.subset (fits : t.Fits) (h : t.wordOf? id = some word) :
    bytesOf word ⊆ Set.Ico 0 t.mapping.size := by
  obtain ⟨within, rfl⟩ := wordOf?_eq_some_iff.mp h
  have hwithin : id.index.toNat < t.slotCount.toNat := UInt32.lt_iff_toNat_lt.mp within
  have hsize : regionSize t.slotCount ≤ t.mapping.size := fits
  rw [regionSize] at hsize
  exact bytesOf_subset (by omega)

/-- Where the slots of a table are. -/
structure Layout (t : SlotTable) : Prop where
  present : ∀ id, (t.wordOf? id).isSome = true ↔ id.index < t.slotCount
  header : bytesOf 0 ⊆ Set.Ico 0 t.mapping.size
  inside : ∀ id word, t.wordOf? id = some word → bytesOf word ⊆ Set.Ico 0 t.mapping.size
  behind : ∀ id word, t.wordOf? id = some word → bytesOf word ∩ bytesOf 0 = ∅
  apart : ∀ id id' word word', id ≠ id' → t.wordOf? id = some word → t.wordOf? id' = some word' →
    bytesOf word ∩ bytesOf word' = ∅

theorem word_ne_zero (h : t.wordOf? id = some word) : word ≠ 0 := by
  obtain ⟨-, rfl⟩ := wordOf?_eq_some_iff.mp h
  rw [headerWords]
  omega

theorem Fits.layout (fits : t.Fits) : t.Layout where
  present _ := isSome_wordOf?
  header := by
    have hsize : regionSize t.slotCount ≤ t.mapping.size := fits
    rw [regionSize, headerWords] at hsize
    exact bytesOf_subset (by omega)
  inside _ _ h := fits.subset h
  behind _ _ h := bytesOf_inter (word_ne_zero h)
  apart id id' word word' hne h h' := by
    obtain ⟨-, rfl⟩ := wordOf?_eq_some_iff.mp h
    obtain ⟨-, rfl⟩ := wordOf?_eq_some_iff.mp h'
    exact bytesOf_inter fun hsame => hne (FlagId.eq_of_word hsame)

/-- A region is accepted if and only if it has room for the slots, and the table then fits. -/
theorem ofMapping_eq_ok {i i' : Image} {m : Mapping} {c : Config} {records : List Record}
    (h : ofMapping i m c = (.ok t, i', records)) :
    t.mapping = m ∧ t.slotCount = c.slotCount ∧ t.Fits := by
  unfold ofMapping at h
  dsimp only at h
  split at h
  · cases h
  next fits =>
    cases h
    exact ⟨rfl, rfl, Nat.le_of_not_lt fits⟩

theorem ofMapping_ok_iff {i : Image} {m : Mapping} {c : Config} :
    (∃ t, (ofMapping i m c).1 = .ok t) ↔ regionSize c.slotCount ≤ m.size := by
  unfold ofMapping
  dsimp only
  split
  next small => simp [Nat.not_le.mpr small]
  next fits => simp [Nat.le_of_not_lt fits]

end SlotTable

namespace Region.Directory

variable {d : Directory} {o o' word word' : Nat}

/-- A word that is written leaves the others as they are. -/
theorem readWord_writeWord_of_ne (v : UInt32) (other : ¬(o = o' ∧ word = word')) :
    (d.writeWord o word v).readWord o' word' = d.readWord o' word' := by
  rw [readWord, writeWord, Store.get?_modify]
  split
  next same =>
    have hword : word ≠ word' := fun h => other ⟨same, h⟩
    rw [readWord, Option.map_map]
    congr 2
    funext object
    exact Object.read_write_of_ne object hword v
  next => rfl

end Region.Directory

end RunOnce

namespace RunOnce.Protocol

open Region

variable {α : Type} {s s' s₀ : State α} {a : Action α} {c : Nat} {call : Call α}
  {past : List (Moment α)} {rule : State α → Action α → Prop}

/-- A word of an object. -/
def State.wordAt (s : State α) (o word : Nat) : UInt32 := s.image.directory.readWord o word

/-- The slot tables have room in their mappings. -/
def State.TablesFit (s : State α) : Prop :=
  ∀ t target table, s.targets.get? t = some target → target.executor = .table table → table.Fits

/-- At a moment a call through a slot table goes for the slot of its handle, which is a word of an
object. -/
def Moment.Writes (m : Moment α) (o word : Nat) : Prop :=
  ∃ c call table, m.action = .advance c ∧ m.state.calls.get? c = some call ∧
    m.state.executorOf call = some (.table table) ∧ table.mapping.object = o ∧
    table.wordOf? (m.state.flagOf call).id = some word

namespace State

/-! ## Which words change -/

theorem wordAt_markSlot {t : SlotTable} {id : FlagId} {v : UInt32} {o word : Nat}
    (changed : (s.markSlot t id v).wordAt o word ≠ s.wordAt o word) :
    t.mapping.object = o ∧ t.wordOf? id = some word := by
  have hmark : (s.markSlot t id v).wordAt o word =
      (t.mark s.image.directory id v).readWord o word := rfl
  rw [hmark, SlotTable.mark] at changed
  cases hword : t.wordOf? id with
  | none =>
    rw [hword] at changed
    exact absurd rfl changed
  | some mine =>
    rw [hword] at changed
    by_contra other
    refine changed (Directory.readWord_writeWord_of_ne v fun same => other ⟨same.1, ?_⟩)
    rw [same.2]

theorem image_afterLock (s : State α) (c : Nat) (call : Call α) (executor : Executor)
    (phase : Phase α) : (s.afterLock c call executor phase).image = s.image := by
  obtain ⟨n, -, hn⟩ := identify_eq s call
  rw [afterLock, hn]
  rfl

/-- A step changes the word of the slot for which the call goes, if any. -/
theorem wordAt_effect {notices : List (Notice α)} {o word : Nat}
    (effect : Effect s c call s' notices) (changed : s'.wordAt o word ≠ s.wordAt o word) :
    ∃ table, s.executorOf call = some (.table table) ∧ table.mapping.object = o ∧
      table.wordOf? (s.flagOf call).id = some word := by
  have hlock (executor : Executor) (phase : Phase α) :
      (s.afterLock c call executor phase).wordAt o word = s.wordAt o word := by
    rw [wordAt, image_afterLock, wordAt]
  cases effect with
  | late | meets | joins | wins | recurs | loses => exact absurd (hlock ..) changed
  | @claims t phase through =>
    rw [← hlock (.table { t with
      claims := t.claims ++ [((s.flagOf call).id, (s.identify call).1)] }) .running] at changed
    exact ⟨t, through, wordAt_markSlot changed⟩
  | @settles ending t phase through =>
    have hmark : (s.markSlot t (s.flagOf call).id slotDone).wordAt o word ≠ s.wordAt o word :=
      changed
    exact ⟨t, through, wordAt_markSlot hmark⟩
  | @hands waiter rest ending =>
    obtain ⟨calls, hcalls⟩ := handOver_eq (s.setPhase c call (.resuming rest ending)) waiter
    rw [hcalls] at changed
    exact absurd rfl changed
  | _ => exact absurd rfl changed

/-- **Which words change**: a call changes its own slot, and nothing else in any object. -/
theorem wordAt_act {o word : Nat} (alive : s.violation = none) (possible : s.Possible a)
    (changed : (s.act a).wordAt o word ≠ s.wordAt o word) : Moment.Writes ⟨s, a⟩ o word := by
  have impact := impact_act alive possible
  rw [Moment.Writes]
  generalize s.act a = s' at impact changed
  cases impact with
  | @steps c call s' notices known effect =>
    obtain ⟨table, through, object, hword⟩ := wordAt_effect effect changed
    exact ⟨c, call, table, rfl, known, through, object, hword⟩
  | _ => exact absurd rfl changed

end State

open State

/-! ## Runs -/

/-- What calls leave alone, from one state to another. -/
structure Framed (s₀ : State α) (past : List (Moment α)) (s : State α) : Prop where
  /-- All slots are laid out, at any time. -/
  layout : ∀ m ∈ past, ∀ call table, m.state.executorOf call = some (.table table) → table.Layout
  /-- A word changes only as the slot for which a call goes. -/
  writer : ∀ m ∈ past, ∀ o word, m.next.wordAt o word ≠ m.state.wordAt o word → m.Writes o word
  /-- Whatever a call does, the headers and the slots of other handles stay as they are. -/
  others : ∀ m ∈ past, ∀ c call, m.action.subject? = some c → m.state.calls.get? c = some call →
    ∀ o, m.next.wordAt o 0 = m.state.wordAt o 0 ∧
      ∀ id, id ≠ (m.state.flagOf call).id → m.next.slotOf o id = m.state.slotOf o id
  header : ∀ o, s.wordAt o 0 = s₀.wordAt o 0
  /-- A slot for which no call goes stays as it is. -/
  unused : ∀ o id, (∀ c call, s.calls.get? c = some call → s₀.objectOf? call.target = some o →
    (s.flagOf call).id ≠ id) → s.slotOf o id = s₀.slotOf o id

theorem Moment.Writes.word_ne_zero {m : Moment α} {o word : Nat} (h : m.Writes o word) :
    word ≠ 0 := by
  obtain ⟨c, call, table, -, -, -, -, hword⟩ := h
  exact SlotTable.word_ne_zero hword

/-- The slot that is written is that of the call's handle. -/
theorem Moment.Writes.id_eq {m : Moment α} {o : Nat} {id : FlagId}
    (h : m.Writes o (headerWords + id.index.toNat)) : ∃ c call table, m.action = .advance c ∧
      m.state.calls.get? c = some call ∧ m.state.executorOf call = some (.table table) ∧
      table.mapping.object = o ∧ (m.state.flagOf call).id = id := by
  obtain ⟨c, call, table, hact, hc, through, hobject, hword⟩ := h
  obtain ⟨-, hsame⟩ := SlotTable.wordOf?_eq_some_iff.mp hword
  exact ⟨c, call, table, hact, hc, through, hobject, FlagId.eq_of_word hsame.symm⟩

theorem Run.mapping?_eq (run : Run rule s₀ past s) (t : Nat) : s.mapping? t = s₀.mapping? t := by
  induction run with
  | start => rfl
  | step _ alive possible _ ih => exact ((houses_act alive possible).mapping t).trans ih

theorem mapping?_of_executorOf {table : SlotTable}
    (through : s.executorOf call = some (.table table)) :
    s.mapping? call.target = some table.mapping := by
  obtain ⟨target, ht, he⟩ := target_of_executorOf through
  rw [State.mapping?, ht, Option.bind_some, he]
  rfl

/-- Tables that fit go on to do so. -/
theorem Run.tablesFit (run : Run rule s₀ past s) (fresh : s₀.IsFresh) (fits : s₀.TablesFit)
    {table : SlotTable} (through : s.executorOf call = some (.table table)) : table.Fits := by
  have htable := table?_board through
  rw [(run.static fresh).1] at htable
  have hmapping := mapping?_of_executorOf through
  rw [run.mapping?_eq] at hmapping
  obtain ⟨target, ht, hhas⟩ := Option.bind_eq_some_iff.mp htable
  rw [State.mapping?, ht, Option.bind_some] at hmapping
  cases he : target.executor with
  | registry r =>
    rw [he] at hhas
    cases hhas
  | table old =>
    rw [he] at hhas hmapping
    have hfits : regionSize old.slotCount ≤ old.mapping.size := fits _ target old ht he
    have hslots : old.slotCount = table.slotCount :=
      congrArg Prod.snd (Option.some.inj hhas)
    rw [Option.some.inj hmapping, hslots] at hfits
    exact hfits

/-- A slot changes only if a call goes for it, and this call is still there. -/
theorem Run.slotOf_unused (run : Run rule s₀ past s) (fresh : s₀.IsFresh) {o : Nat} {id : FlagId}
    (unused : ∀ c call, s.calls.get? c = some call → s₀.objectOf? call.target = some o →
      (s₀.flagOf call).id ≠ id) : s.slotOf o id = s₀.slotOf o id := by
  induction run with
  | start => rfl
  | @step past s a run alive possible _ ih =>
    have keeps {c : Nat} {call : Call α} (hc : s.calls.get? c = some call)
        (hobject : s₀.objectOf? call.target = some o) : (s₀.flagOf call).id ≠ id := by
      obtain ⟨later, hlater, becomes⟩ :=
        call_act (a := a) (run.fresh_keys fresh (Nat.le_refl _)) hc
      have hflag : s₀.flagOf later = s₀.flagOf call := by
        rw [flagOf, flagOf, becomes.alike.flag]
      rw [← hflag]
      exact unused c later hlater (becomes.alike.target ▸ hobject)
    rw [← ih fun c call => keeps]
    by_contra changed
    obtain ⟨c, call, table, -, hc, through, hobject, hid⟩ :=
      (wordAt_act alive possible changed).id_eq
    refine keeps hc ?_ ((run.id_flagOf_eq fresh call).symm.trans hid)
    rw [objectOf?_eq_mapping?, ← run.mapping?_eq, mapping?_of_executorOf through, Option.map_some,
      hobject]

/-- **What calls leave alone.** -/
theorem Run.framed (run : Run rule s₀ past s) (fresh : s₀.IsFresh) (fits : s₀.TablesFit) :
    Framed s₀ past s where
  layout m hm call table through := by
    obtain ⟨before, run', -⟩ := run.before_moment hm
    exact (run'.tablesFit fresh fits through).layout
  writer m hm o word changed := by
    obtain ⟨before, -, alive, possible, -⟩ := run.before_moment hm
    exact wordAt_act alive possible changed
  others m hm c call subject hc o := by
    obtain ⟨before, -, alive, possible, -⟩ := run.before_moment hm
    constructor
    · by_contra changed
      exact (wordAt_act alive possible changed).word_ne_zero rfl
    · intro id other
      by_contra changed
      obtain ⟨c', call', table, hact, hc', -, -, hid⟩ := (wordAt_act alive possible changed).id_eq
      have hact : m.action = .advance c' := hact
      rw [hact] at subject
      obtain rfl : c' = c := Option.some.inj subject
      obtain rfl : call = call' := Option.some.inj (hc.symm.trans hc')
      exact other hid.symm
  header o := by
    induction run with
    | start => rfl
    | step _ alive possible _ ih =>
      rw [← ih]
      by_contra changed
      exact (wordAt_act alive possible changed).word_ne_zero rfl
  unused o id unused := by
    refine run.slotOf_unused fresh fun c call hc hobject => ?_
    rw [← run.id_flagOf_eq fresh call]
    exact unused c call hc hobject

/-- **Slots lie apart, and calls leave each other's alone.** The size of a region does not overflow
in 64 bits. A region is accepted for a table if and only if it is large enough. Then a handle has a
slot if and only if it is below the count, and its bytes are inside the mapping, not those of the
header, and not those of another slot. Tables with different counts use the same word for a handle.
In every run over such tables, no call changes a header, the slot of another handle, or anything
else. -/
theorem slots_apart (run : Run rule s₀ past s) (fresh : s₀.IsFresh) (fits : s₀.TablesFit) :
    (∀ slots : UInt32, regionSize slots < UInt64.size ∧
      ((UInt64.ofNat headerWords + slots.toUInt64) * 4).toNat = regionSize slots) ∧
    (∀ i m c, (∃ t, (SlotTable.ofMapping i m c).1 = .ok t) ↔ regionSize c.slotCount ≤ m.size) ∧
    (∀ i m c t i' records, SlotTable.ofMapping i m c = (.ok t, i', records) →
      t.mapping = m ∧ t.slotCount = c.slotCount ∧ t.Layout) ∧
    (∀ (t t' : SlotTable) id word word', t.wordOf? id = some word → t'.wordOf? id = some word' →
      word = word') ∧
    Framed s₀ past s := by
  refine ⟨fun slots => ⟨regionSize_lt slots, toNat_regionSize slots⟩,
    fun i m c => SlotTable.ofMapping_ok_iff, fun i m c t i' records h => ?_,
    fun t t' id word word' h h' => ?_, run.framed fresh fits⟩
  · obtain ⟨hmapping, hslots, fits⟩ := SlotTable.ofMapping_eq_ok h
    exact ⟨hmapping, hslots, fits.layout⟩
  · obtain ⟨-, rfl⟩ := SlotTable.wordOf?_eq_some_iff.mp h
    obtain ⟨-, rfl⟩ := SlotTable.wordOf?_eq_some_iff.mp h'
    rfl

/-- A slot table over the object of `attached` with more slots. -/
def attachedWide : SlotTable where
  mapping := { object := 0, size := 16, name := "/run_once", isOwner := false }
  slotCount := 3
  pollSpins := 0

/-- Two slot tables with different counts over one object with a header, and two flags. -/
def layoutStart : State Unit where
  flags := ⟨[(2, { id := ⟨0⟩ }), (3, { id := ⟨2⟩ })]⟩
  targets := ⟨[(0, Target.ofTable attached), (1, Target.ofTable attachedWide)]⟩
  image :=
    { self := 1
      isAlive := fun _ => true
      directory := { objects := ⟨[(0, { size := 16, words := ⟨[(0, 1)]⟩ })]⟩ } }
  nextKey := 4

/-- Both flags are initialized, one by a thread and one by a task that is dropped. -/
def layoutActions : List (Action Unit) :=
  [.issue { flavour := .blocking, thread := "main", target := 0, flag := 2, phase := .arriving },
    .issue { flavour := .async, thread := "main", target := 1, flag := 3, phase := .arriving },
    .advance 4, .advance 5, .advance 4, .advance 5, .finish 4 .returned none, .advance 4,
    .abandon 5, .advance 5]

theorem layout_targets {t : Nat} {target : Target} (ht : layoutStart.targets.get? t = some target) :
    target = Target.ofTable attached ∨ target = Target.ofTable attachedWide := by
  simp only [layoutStart, Store.get?, Store.lookup] at ht
  split at ht
  · cases ht
    exact Or.inl rfl
  · split at ht
    · cases ht
      exact Or.inr rfl
    · cases ht

theorem layout_isFresh : layoutStart.IsFresh := by
  refine { calls := fun _ => rfl, registries := ?_, tables := ?_, locks := ?_, violation := rfl }
  · intro t target r ht he
    rcases layout_targets ht with rfl | rfl <;> cases he
  · intro t target table ht he
    rcases layout_targets ht with rfl | rfl <;> cases he <;> exact ⟨rfl, _, rfl⟩
  · intro t target ht
    rcases layout_targets ht with rfl | rfl <;> rfl

theorem layout_fits : layoutStart.TablesFit := by
  intro t target table ht he
  rcases layout_targets ht with rfl | rfl <;> cases he <;> decide

theorem layout_allowed : layoutStart.Allows (fun _ _ => True) layoutActions :=
  ⟨rfl, ⟨Or.inr rfl, rfl, ⟨_, rfl⟩, ⟨_, rfl⟩, nofun⟩, trivial,
    rfl, ⟨Or.inr rfl, rfl, ⟨_, rfl⟩, ⟨_, rfl⟩, nofun⟩, trivial,
    rfl, rfl, trivial, rfl, rfl, trivial, rfl, rfl, trivial, rfl, rfl, trivial,
    rfl, nofun, trivial, rfl, rfl, trivial, rfl, ⟨_, rfl, rfl, rfl⟩, trivial,
    rfl, rfl, trivial, trivial⟩

/-- Both slots are done, and the header and the slot between them are as they were. -/
theorem slots_apart_two : (layoutStart.acts layoutActions).slotOf 0 ⟨0⟩ = slotDone ∧
    (layoutStart.acts layoutActions).slotOf 0 ⟨2⟩ = slotDone ∧
    (layoutStart.acts layoutActions).wordAt 0 0 = 1 ∧
    (layoutStart.acts layoutActions).slotOf 0 ⟨1⟩ = slotIdle := by
  obtain ⟨-, -, -, -, framed⟩ :=
    slots_apart (Run.of_allows layout_allowed) layout_isFresh layout_fits
  have hcalls : ∀ e ∈ (layoutStart.acts layoutActions).calls.entries,
      ((layoutStart.acts layoutActions).flagOf e.2).id ≠ ⟨1⟩ := by decide
  exact ⟨rfl, rfl, framed.header 0, framed.unused 0 ⟨1⟩ fun c call hc _ =>
    hcalls (c, call) (Store.mem_entries_of_get? _ hc)⟩

end RunOnce.Protocol
