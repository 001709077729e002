import RunOnce.Proofs.Exclusion.Account

/-!
# One initializer for each slot of a table

**Theorem (`shared_exactly_once`).** Let any number of executors map one object, idle at first, and
let flags that are clear at first be used through them only. Whatever the order of the steps, a slot
moves from idle to running to done, at most one initializer starts for each handle over all
executors, a flag that is set has its slot done, and a call that returns finds its own flag set, the
slot done and the one initializer ended.

The account of a slot is settled when the slot is done (`Run.account_slot`). Locks do not matter
across executors: what excludes a second call is that the slot is not idle any more.
-/

namespace RunOnce.Protocol

open Function

variable {α : Type} {s₀ s : State α} {past : List (Moment α)} {o f : Nat} {F : Nat → Prop}
  {id : FlagId}

/-- The object that a target maps, if it is a slot table. -/
def State.objectOf? (s : State α) (t : Nat) : Option Nat :=
  (s.targets.get? t).bind fun target => target.table?.map fun table => table.mapping.object

/-- The state of a handle's slot in an object. -/
def State.slotOf (s : State α) (o : Nat) (id : FlagId) : UInt32 :=
  s.image.directory.readWord o (headerWords + id.index.toNat)

/-- Calls that want one of some flags go through slot tables over one object. -/
def UsedOver (o : Nat) (F : Nat → Prop) (s : State α) : Action α → Prop
  | .issue call => F call.flag → s.objectOf? call.target = some o
  | .advance _ | .finish _ _ _ | .abandon _ => True

/-- The calls for a handle through slot tables over an object. -/
def State.forSlot (s : State α) (o : Nat) (id : FlagId) (t g : Nat) : Bool :=
  decide (s.objectOf? t = some o) && decide ((s.flags.get? g).map Flag.id = some id)

/-- The moves of a slot. -/
inductive SlotMove (v : UInt32) : UInt32 → Prop
  | stays : SlotMove v v
  | claimed (idle : v = slotIdle) : SlotMove v slotRunning
  | settled (running : v = slotRunning) : SlotMove v slotDone

theorem State.objectOf?_eq (s : State α) (t : Nat) :
    s.objectOf? t = (s.board.table? t).map (·.1) := by
  show (s.targets.get? t).bind _ =
    ((s.targets.get? t).bind fun target => target.executor.table?).map _
  cases s.targets.get? t with
  | none => rfl
  | some target =>
    obtain ⟨executor, capabilities⟩ := target
    cases executor <;> rfl

theorem State.forSlot_iff {t g : Nat} : s.forSlot o id t g = true ↔
    (∃ n, s.board.table? t = some (o, n)) ∧ (s.board.flag? g).map Flag.id = some id := by
  rw [forSlot, Bool.and_eq_true, decide_eq_true_iff, decide_eq_true_iff, objectOf?_eq]
  refine and_congr ?_ Iff.rfl
  rw [Option.map_eq_some_iff]
  constructor
  · rintro ⟨⟨o', n⟩, htable, rfl⟩
    exact ⟨n, htable⟩
  · rintro ⟨n, htable⟩
    exact ⟨_, htable, rfl⟩

theorem State.slotOf_of_slot? {v : UInt32} (h : s.board.slot? o id = some v) :
    s.slotOf o id = v := by
  show (s.board.slot? o id).getD 0 = v
  rw [h]
  rfl

/-- A step moves a slot only forward. -/
theorem State.slotMove_act {a : Action α} (h : s.board.Inv) (alive : s.violation = none)
    (possible : s.Possible a) (o : Nat) (id : FlagId) :
    SlotMove (s.slotOf o id) ((s.act a).slotOf o id) := by
  rcases (turn_act h alive possible).slot?_cases o id with
    hsame | ⟨hidle, hrun⟩ | ⟨card, flag, n, who, hc, hflag, rfl, htable, hleaving, -, hdone⟩
  · have hsame : (s.act a).slotOf o id = s.slotOf o id := congrArg (·.getD 0) hsame
    rw [hsame]
    exact .stays
  · rw [slotOf_of_slot? hrun]
    exact .claimed (slotOf_of_slot? hidle)
  · rw [slotOf_of_slot? hdone]
    have hclaim : s.board.claim? (a.call s) = some (card.target, flag.id, who) := by
      rw [Board.claim?_of_card hc]
      exact Board.claimOf_eq_some (by rw [hleaving]; rfl) hflag
    exact .settled (slotOf_of_slot? (h.running _ _ _ _ _ _ hclaim htable).2)

section

variable {rule : State α → Action α → Prop}

/-- What a call for a slot looks like later in the run. -/
theorem Run.of_forSlot (run : Run rule s₀ past s) (fresh : s₀.IsFresh) {t g : Nat}
    (h : s₀.forSlot o id t g = true) :
    (∃ n, s.board.table? t = some (o, n)) ∧ ∃ flag, s.board.flag? g = some flag ∧ flag.id = id := by
  obtain ⟨htable, hid⟩ := State.forSlot_iff.mp h
  obtain ⟨htables, hids⟩ := run.static fresh
  rw [← htables] at htable
  rw [← hids] at hid
  exact ⟨htable, Option.map_eq_some_iff.mp hid⟩

theorem Run.forSlot_of (run : Run rule s₀ past s) (fresh : s₀.IsFresh) {t g : Nat} {n : UInt32}
    {flag : Flag} (htable : s.board.table? t = some (o, n)) (hflag : s.board.flag? g = some flag) :
    s₀.forSlot o flag.id t g = true := by
  obtain ⟨htables, hids⟩ := run.static fresh
  refine State.forSlot_iff.mpr ⟨⟨n, ?_⟩, ?_⟩
  · rw [← htables]
    exact htable
  · rw [← hids, hflag]
    rfl

theorem Run.agree_slot (run : Run rule s₀ past s) (fresh : s₀.IsFresh) (o : Nat) (id : FlagId) :
    s.board.Agree (s₀.forSlot o id) (.inr o) id := by
  intro c card _ hp
  obtain ⟨⟨n, htable⟩, hflag⟩ := run.of_forSlot fresh hp
  exact ⟨Board.site_of_table htable, hflag⟩

/-- The account of a slot, which is settled when the slot is done. -/
theorem Run.account_slot (run : Run rule s₀ past s) (fresh : s₀.IsFresh)
    (idle : s₀.slotOf o id = slotIdle) :
    Account False (s.board.slot? o id = some slotDone) (s.board.stageOf (s₀.forSlot o id))
      (s.startedBy (s₀.forSlot o id) past) (ended past) := by
  induction run with
  | start =>
    have hdone : (s₀.board.slot? o id = some slotDone) = False := by
      refine eq_false fun h => ?_
      rw [State.slotOf_of_slot? h] at idle
      cases idle
    rw [hdone]
    exact account_fresh fresh _
  | @step past s a run alive possible admitted ih =>
    have inv := run.board_inv fresh
    have turn := State.turn_act inv alive possible
    have agree := (run.step alive possible admitted).agree_slot fresh o id
    refine account_act inv alive possible (run.knows_started fresh) ih agree ?_ ?_
    · intro hout hin hdone
      obtain ⟨card, flag, hc, hp, hflag, hguard⟩ := turn.start_of_stageOf inv hout hin
      obtain ⟨⟨n, htable⟩, flag', hflag', rfl⟩ := run.of_forSlot fresh hp
      rw [hflag] at hflag'
      cases hflag'
      rcases hguard with ⟨hbare, -⟩ | ⟨o', n', htable', hslot⟩
      · rw [hbare] at htable
        cases htable
      · rw [htable] at htable'
        cases htable'
        rw [hdone] at hslot
        cases hslot
    · constructor
      · intro hdone
        rcases turn.slot?_cases o id with hsame | ⟨-, hrun⟩ |
          ⟨card, flag, n, who, hc, hflag, rfl, htable, hleaving, hnow, -⟩
        · exact Or.inl (hsame ▸ hdone)
        · rw [hdone] at hrun
          cases hrun
        · have hp := run.forSlot_of fresh htable hflag
          refine Or.inr ⟨⟨who, ?_⟩, ?_⟩
          · rw [Board.stageOf_of_card hc hp]
            exact hleaving
          · rw [Board.stageOf_of_card hnow hp]
            rfl
      · rintro (hdone | ⟨⟨who, hleaving⟩, hout⟩)
        · exact turn.slot?_done hdone
        · obtain ⟨card, flag, hc, hp, hflag, how⟩ := turn.leave_of_stageOf inv hleaving hout
          obtain ⟨⟨n, htable⟩, flag', hflag', rfl⟩ := run.of_forSlot fresh hp
          rw [hflag] at hflag'
          cases hflag'
          rcases how with ⟨hbare, -⟩ | ⟨o', n', htable', hslot⟩
          · rw [htable] at hbare
            cases hbare
          · rw [htable] at htable'
            cases htable'
            exact hslot

/-- Slots only move forward. -/
theorem Run.slot_moves (run : Run rule s₀ past s) (fresh : s₀.IsFresh) (o : Nat) :
    ∀ m ∈ past, ∀ id, SlotMove (m.state.slotOf o id) (m.next.slotOf o id) := by
  induction run with
  | start =>
    intro m hm
    cases hm
  | step run alive possible _ ih =>
    intro m hm id
    rcases List.mem_append.mp hm with hm | hm
    · exact ih m hm id
    · rw [List.mem_singleton.mp hm]
      exact State.slotMove_act (run.board_inv fresh) alive possible o id

end

theorem Run.used_over (run : Run (UsedOver o F) s₀ past s) (fresh : s₀.IsFresh) {c : Nat}
    {card : Card} (hc : s.board.card? c = some card) (hf : F card.flag) :
    ∃ n, s.board.table? card.target = some (o, n) := by
  obtain ⟨call, hcall, rfl⟩ := Option.map_eq_some_iff.mp hc
  have hused := run.calls_admitted (R := fun t g => F g → s₀.objectOf? t = some o) fresh ?_ c call
    hcall hf
  · rw [State.objectOf?_eq, ← (run.static fresh).1] at hused
    obtain ⟨⟨o', n⟩, htable, rfl⟩ := Option.map_eq_some_iff.mp hused
    exact ⟨n, htable⟩
  · intro past' s' call' run' admitted hf'
    have hobject : s'.objectOf? call'.target = some o := admitted hf'
    rw [State.objectOf?_eq, (run'.static fresh).1, ← State.objectOf?_eq] at hobject
    exact hobject

/-- A flag that is set has its slot done. -/
theorem Run.slot_done (run : Run (UsedOver o F) s₀ past s) (fresh : s₀.IsFresh)
    (unset : ∀ f, F f → s₀.isSet f = false) (hf : F f)
    (hid : (s₀.board.flag? f).map Flag.id = some id) (set : s.board.isSet f = true) :
    s.board.slot? o id = some slotDone := by
  induction run with
  | start =>
    have hunset : s₀.board.isSet f = false := unset f hf
    rw [hunset] at set
    cases set
  | step run alive possible admitted ih =>
    have turn := State.turn_act (run.board_inv fresh) alive possible
    rcases turn.isSet_cases set with hset | ⟨card, flag, hc, rfl, hflag, hguard⟩
    · exact turn.slot?_done (ih hset)
    · obtain ⟨n, htable⟩ := run.used_over fresh hc hf
      have hflagid : flag.id = id := by
        rw [← (run.static fresh).2, hflag] at hid
        exact Option.some.inj hid
      subst hflagid
      rcases hguard with ⟨who, -, hbare, -⟩ | ⟨o', n', htable', hdone⟩
      · rw [htable] at hbare
        cases hbare
      · rw [htable] at htable'
        cases htable'
        exact turn.slot?_done hdone

/-- **One initializer for each slot.** However the steps of calls through slot tables over one
object are interleaved: slots only move forward; at most one initializer starts for each handle over
all executors; a flag that is set has its slot done; and a call that returns finds its flag set, the
slot done and the one initializer ended. -/
theorem shared_exactly_once (run : Run (UsedOver o F) s₀ past s) (fresh : s₀.IsFresh)
    (idle : ∀ id, s₀.slotOf o id = slotIdle) (unset : ∀ f, F f → s₀.isSet f = false) :
    (∀ m ∈ past, ∀ id, SlotMove (m.state.slotOf o id) (m.next.slotOf o id)) ∧
    (∀ id, (s.startedBy (s₀.forSlot o id) past).length ≤ 1) ∧
    (∀ f flag, F f → s.flags.get? f = some flag → flag.isDone = true →
      s.slotOf o flag.id = slotDone) ∧
    ∀ c call, s.calls.get? c = some call → F call.flag → call.phase = .ended (.ok none) →
      s.isSet call.flag = true ∧ s.slotOf o (s.flagOf call).id = slotDone ∧
        ∃ w, s.startedBy (s₀.forSlot o (s.flagOf call).id) past = [w] ∧ w ∈ ended past := by
  have hdone {f : Nat} {flag : Flag} (hf : F f) (hflag : s.flags.get? f = some flag)
      (hset : flag.isDone = true) : s.board.slot? o flag.id = some slotDone := by
    refine run.slot_done fresh unset hf ?_ ?_
    · rw [← (run.static fresh).2]
      exact congrArg (Option.map Flag.id) hflag
    · rw [Board.isSet_of_flag hflag]
      exact hset
  refine ⟨run.slot_moves fresh o,
    fun id => (run.account_slot fresh (idle id)).length_le_one, ?_, ?_⟩
  · intro f flag hf hflag hset
    exact State.slotOf_of_slot? (hdone hf hflag hset)
  · intro c call hc hf hp
    have hset : s.board.isSet call.flag = true := run.isSet_of_returned fresh hc hp
    have hflag := State.known_flagOf (run.board_inv fresh) hc
    have hslot := hdone hf hflag (by rw [← Board.isSet_of_flag hflag]; exact hset)
    exact ⟨hset, State.slotOf_of_slot? hslot,
      (run.account_slot fresh (idle _)).settled hslot not_false⟩

/-- A slot table over an object with one slot. -/
def attached : SlotTable where
  mapping := { object := 0, size := 8, name := "/run_once", isOwner := false }
  slotCount := 1
  pollSpins := 0

/-- Two slot tables over one object, and two flags with one handle. -/
def tablesStart : State Unit where
  flags := ⟨[(2, { id := ⟨0⟩ }), (3, { id := ⟨0⟩ })]⟩
  targets := ⟨[(0, Target.ofTable attached), (1, Target.ofTable attached)]⟩
  image :=
    { self := 1, isAlive := fun _ => true, directory := { objects := ⟨[(0, { size := 8 })]⟩ } }
  nextKey := 4

/-- A thread claims the slot through one table, and a task polls it through the other one. -/
def tablesActions : List (Action Unit) :=
  [.issue { flavour := .blocking, thread := "main", target := 0, flag := 2, phase := .arriving },
    .issue { flavour := .async, thread := "main", target := 1, flag := 3, phase := .arriving },
    .advance 4, .advance 5, .advance 4, .advance 5, .finish 4 .returned none, .advance 4,
    .advance 5, .advance 5]

theorem tables_isFresh : tablesStart.IsFresh := by
  have htarget {t : Nat} {target : Target} (ht : tablesStart.targets.get? t = some target) :
      target = Target.ofTable attached := by
    simp only [tablesStart, Store.get?, Store.lookup] at ht
    split at ht
    · cases ht
      rfl
    · split at ht
      · cases ht
        rfl
      · cases ht
  refine { calls := fun _ => rfl, registries := ?_, tables := ?_, locks := ?_, violation := rfl }
  · intro t target r ht he
    rw [htarget ht] at he
    cases he
  · intro t target table ht he
    rw [htarget ht] at he
    cases he
    exact ⟨rfl, _, rfl⟩
  · intro t target ht
    rw [htarget ht]
    rfl

theorem tables_allowed : tablesStart.Allows (UsedOver 0 (fun g => g = 2 ∨ g = 3)) tablesActions :=
  ⟨rfl, ⟨Or.inr rfl, rfl, ⟨_, rfl⟩, ⟨_, rfl⟩, nofun⟩, fun _ => rfl,
    rfl, ⟨Or.inr rfl, rfl, ⟨_, rfl⟩, ⟨_, rfl⟩, nofun⟩, fun _ => rfl,
    rfl, rfl, trivial, rfl, rfl, trivial, rfl, rfl, trivial, rfl, rfl, trivial,
    rfl, nofun, trivial, rfl, rfl, trivial, rfl, rfl, trivial, rfl, rfl, trivial,
    trivial⟩

/-- The task returns with its own flag set, after the initializer of the thread. -/
theorem shared_exactly_once_tables :
    ((tablesStart.acts tablesActions).startedBy (tablesStart.forSlot 0 ⟨0⟩)
      (tablesStart.moments tablesActions)).length ≤ 1 ∧
    (tablesStart.acts tablesActions).phaseOf 5 = .ended (.ok none) ∧
    (tablesStart.acts tablesActions).isSet 3 = true ∧
    (tablesStart.acts tablesActions).slotOf 0 ⟨0⟩ = slotDone ∧
    ∃ w, (tablesStart.acts tablesActions).startedBy (tablesStart.forSlot 0 ⟨0⟩)
      (tablesStart.moments tablesActions) = [w] ∧
        w ∈ ended (tablesStart.moments tablesActions) := by
  obtain ⟨-, hstarted, -, hreturned⟩ := shared_exactly_once (o := 0) (F := fun g => g = 2 ∨ g = 3)
    (Run.of_allows tables_allowed) tables_isFresh (fun _ => rfl)
    (fun f hf => by rcases hf with rfl | rfl <;> rfl)
  obtain ⟨call, hc, hflag, hphase⟩ : ∃ call,
      (tablesStart.acts tablesActions).calls.get? 5 = some call ∧ call.flag = 3 ∧
        call.phase = .ended (.ok none) := ⟨_, rfl, rfl, rfl⟩
  obtain ⟨hset, hslot, hone⟩ := hreturned 5 call hc (Or.inr hflag) hphase
  have hid : ((tablesStart.acts tablesActions).flagOf call).id = ⟨0⟩ := by
    rw [State.flagOf, hflag]
    rfl
  rw [hid] at hslot hone
  rw [hflag] at hset
  exact ⟨hstarted ⟨0⟩, rfl, hset, hslot, hone⟩

end RunOnce.Protocol
