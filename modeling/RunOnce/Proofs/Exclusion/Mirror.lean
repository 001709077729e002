import RunOnce.Proofs.Exclusion.Clear
import RunOnce.Proofs.Reentrancy.Refusal
import RunOnce.Proofs.Waiting.Guards
import RunOnce.Proofs.Waiting.Lock

/-!
# Claims mirror running slots

**Theorem (`claims_mirror_slots`).** Let any number of executors map one object, idle at first.
Whatever the order of the steps, a slot is running exactly when one of these executors holds one
claim on its handle, the others hold none, and the call of the claim still has its guard. There is
no claim on any other slot but the one whose guard is being dropped, with the lock of its executor
taken; so letting go of the claims on a handle lets go of one claim, the own one.

A call through one of these executors aborts for one reason: it found its flag clear, and its handle
has no slot in its table. Neither a slot that a call polls nor a flag that it makes sure of is ever
the reason, since a call polls a slot that is not idle any more (`State.HasSeen`), slots only move
forward, and a flag is set before its call goes on.

A call has its guard from its claim to the locked section in which the guard is dropped. In between
its initializer runs, and is left: from there on nothing of it is left to run (`ended`), but for the
other calls it goes on until the guard is dropped, and the slot is running for as long.
-/

namespace RunOnce.Protocol

open Function

variable {α : Type} {s s₀ : State α} {a : Action α} {past : List (Moment α)} {o c : Nat}
  {id : FlagId} {call : Call α} {rule : State α → Action α → Prop}

/-! ## What is held by whom -/

section

variable {b b' : Board}

/-- Claims change with the stage of a card only, since flags keep their handles. -/
theorem Turn.claimOf_eq (turn : Turn b c b') : b'.claimOf = b.claimOf := by
  funext card
  have hmap (flag : Option Flag) (who : Initiator) :
      (flag.map fun f => (card.target, f.id, who)) =
        (flag.map Flag.id).map fun id => (card.target, id, who) := by
    rw [Option.map_map]
    rfl
  simp only [Board.claimOf, hmap, turn.flag_id]

/-- A call keeps what it holds through a slot table until the slot is done. -/
theorem Turn.keeps_claim (h : b.Inv) (turn : Turn b c b') {k t : Nat} {who : Initiator}
    {n : UInt32} (hk : b.claim? k = some (t, id, who)) (ht : b.table? t = some (o, n)) :
    b'.claim? k = some (t, id, who) ∨ b'.slot? o id = some slotDone := by
  obtain ⟨card, hcard, hclaim⟩ := Option.bind_eq_some_iff.mp hk
  obtain ⟨holder, hholder, hflag⟩ := Option.bind_eq_some_iff.mp hclaim
  have hsame {card' : Card} (hcard' : b'.card? k = some card')
      (claim : b.claimOf card' = b.claimOf card) : b'.claim? k = some (t, id, who) := by
    rw [Board.claim?_of_card hcard', turn.claimOf_eq, claim, hclaim]
  by_cases mine : k = c
  · subst mine
    rcases turn.move h with hstill | ⟨hnone, -⟩ | ⟨card', stage, hcard', hnow, move⟩
    · exact Or.inl (hsame (hstill.trans hcard) rfl)
    · rw [hcard] at hnone
      cases hnone
    · rw [hcard] at hcard'
      cases hcard'
      obtain ⟨target, flag, before⟩ := card
      cases move with
      | same => exact Or.inl (hsame hnow rfl)
      | passes => cases hholder
      | wins => cases hholder
      | marks => cases hholder
      | ends => exact Or.inl (hsame hnow rfl)
      | leaves | settles =>
        obtain ⟨f, hf, hpair⟩ := Option.map_eq_some_iff.mp hflag
        obtain ⟨rfl, rfl, rfl⟩ : target = t ∧ f.id = id ∧ holder = who := by
          simpa only [Prod.mk.injEq] using hpair
        obtain ⟨f', hf', ⟨bare, -⟩ | ⟨o', n', table, -, hdone⟩⟩ :=
          turn.of_leaving h hcard rfl hnow (by simp)
        · cases bare.symm.trans ht
        · cases hf.symm.trans hf'
          cases ht.symm.trans table
          exact Or.inr hdone
  · exact Or.inl (hsame ((turn.card?_of_ne mine).trans hcard) rfl)

/-- The call that finds a slot idle and leaves it running holds it. -/
theorem Turn.claims_of_running (turn : Turn b c b') (idle : b.slot? o id = some slotIdle)
    (running : b'.slot? o id = some slotRunning) :
    ∃ t who n, b'.claim? c = some (t, id, who) ∧ b'.table? t = some (o, n) := by
  have hsame (same : b'.slot? o id = b.slot? o id) : False := by
    rw [same, idle] at running
    cases running
  cases turn with
  | @claims card f who o' n here outside known table within _ =>
    by_cases hs : o = o' ∧ id = f.id
    · obtain ⟨rfl, rfl⟩ := hs
      refine ⟨card.target, who, n, ?_, table⟩
      rw [Board.claim?_setSlot, Board.claim?_setHeld, Board.claim?_setCard, update_self]
      exact Board.claimOf_eq_some rfl known
    · exact (hsame (Board.slot?_setSlot_of_ne _ hs)).elim
  | @settles card f who o' n here leaving known table =>
    by_cases hs : o = o' ∧ id = f.id
    · obtain ⟨rfl, rfl⟩ := hs
      rw [Board.slot?_setSlot_self] at running
      cases running
    · exact (hsame (Board.slot?_setSlot_of_ne _ hs)).elim
  | _ => exact (hsame rfl).elim

/-- Every running slot of an object is held by a call. -/
def Board.Backed (b : Board) (o : Nat) : Prop :=
  ∀ id, b.slot? o id = some slotRunning →
    ∃ k t who n, b.claim? k = some (t, id, who) ∧ b.table? t = some (o, n)

theorem Board.Backed.turn (h : b.Inv) (turn : Turn b c b') (backed : b.Backed o) :
    b'.Backed o := by
  intro id running
  rcases turn.slot?_cases o id with hsame | ⟨hidle, -⟩ | ⟨_, _, _, _, -, -, -, -, -, -, hdone⟩
  · rw [hsame] at running
    obtain ⟨k, t, who, n, hk, ht⟩ := backed id running
    rcases turn.keeps_claim h hk ht with hkept | hdone
    · exact ⟨k, t, who, n, hkept, by rw [turn.table?_eq]; exact ht⟩
    · rw [hsame, running] at hdone
      cases hdone
  · obtain ⟨t, who, n, hclaim, ht⟩ := turn.claims_of_running hidle running
    exact ⟨c, t, who, n, hclaim, ht⟩
  · rw [running] at hdone
    cases hdone

end

theorem State.slot?_of_slotOf {v : UInt32} (h : s.slotOf o id = v) (used : v ≠ slotIdle) :
    s.board.slot? o id = some v := by
  have h : (s.board.slot? o id).getD 0 = v := h
  cases hslot : s.board.slot? o id with
  | none =>
    rw [hslot] at h
    exact absurd h.symm used
  | some w =>
    rw [hslot] at h
    exact congrArg some h

theorem Run.backed (run : Run rule s₀ past s) (fresh : s₀.IsFresh)
    (idle : ∀ id, s₀.slotOf o id = slotIdle) : s.board.Backed o := by
  induction run with
  | start =>
    intro id running
    have hidle := idle id
    rw [State.slotOf_of_slot? running] at hidle
    cases hidle
  | step run alive possible _ ih =>
    have inv := run.board_inv fresh
    exact ih.turn inv (State.turn_act inv alive possible)

/-! ## Claims -/

/-- Letting go of the claims on a handle lets go of one claim, if there is but one. -/
theorem filter_not_eq_erase {l : List (FlagId × Initiator)} {who : Initiator}
    (own : l.filter (·.1 = id) = [(id, who)]) :
    (l.filter fun held => !decide (held.1 = id)) = l.erase (id, who) := by
  induction l with
  | nil => cases own
  | cons p l ih =>
    by_cases hp : p.1 = id
    · rw [List.filter_cons_of_pos (by simpa using hp), List.cons.injEq] at own
      have hrest : (l.filter fun held => !decide (held.1 = id)) = l :=
        List.filter_eq_self.mpr fun q hq => by
          simpa using (List.filter_eq_nil_iff.mp own.2) q hq
      rw [List.filter_cons_of_neg (by simpa using hp), hrest, own.1, List.erase_cons_head]
    · have hne : p ≠ (id, who) := by
        rintro rfl
        exact hp rfl
      rw [List.filter_cons_of_neg (by simpa using hp)] at own
      rw [List.filter_cons_of_pos (by simpa using hp), List.erase_cons_tail (by simpa using hne),
        ih own]

theorem SlotTable.claims_unlock {table : SlotTable} {who : Initiator}
    (locked : table.guard? = some id) (own : table.claims.filter (·.1 = id) = [(id, who)]) :
    table.unlock.claims = table.claims.erase (id, who) := by
  simp only [SlotTable.unlock, locked]
  exact filter_not_eq_erase own

/-- The drop of a guard leaves the claims on other handles alone. -/
theorem SlotTable.filter_unlock {table : SlotTable} (other : table.guard? ≠ some id) :
    table.unlock.claims.filter (·.1 = id) = table.claims.filter (·.1 = id) := by
  cases locked : table.guard? with
  | none => rw [SlotTable.unlock_of_free locked]
  | some id' =>
    have hne : id ≠ id' := by
      rintro rfl
      exact other locked
    simp only [SlotTable.unlock, locked, SlotTable.disclaim, List.filter_filter]
    refine List.filter_congr fun p _ => ?_
    by_cases hp : p.1 = id
    · simp [hp, hne]
    · simp [hp]

theorem SlotTable.mem_claims_cases {table : SlotTable} {who : Initiator}
    (mem : (id, who) ∈ table.claims) :
    table.guard? = some id ∨ (id, who) ∈ table.unlock.claims := by
  by_cases other : table.guard? = some id
  · exact Or.inl other
  · refine Or.inr (List.mem_of_mem_filter (p := (·.1 = id)) ?_)
    rw [SlotTable.filter_unlock other]
    exact List.mem_filter.mpr ⟨mem, by simp⟩

namespace State

/-- A target is a slot table over an object. -/
def Maps (s : State α) (t o : Nat) (table : SlotTable) : Prop :=
  (∃ target, s.targets.get? t = some target ∧ target.executor = .table table) ∧
    table.mapping.object = o

/-- One slot table over an object has one claim on a handle, and the others have none. The call of
the claim has not dropped its guard. -/
def ClaimedOnce (s : State α) (o : Nat) (id : FlagId) : Prop :=
  ∃ t table who, s.Maps t o table ∧ table.claims.filter (·.1 = id) = [(id, who)] ∧
    (∀ t' table', s.Maps t' o table' → t' ≠ t → table'.claims.filter (·.1 = id) = []) ∧
    ∃ c, s.InFlight c t id ∧ ∃ call, s.calls.get? c = some call ∧ call.initiator = some who

/-- The claims on the slots of an object mirror its running slots. -/
structure Mirrors (s : State α) (o : Nat) : Prop where
  range : ∀ id, s.slotOf o id = slotIdle ∨ s.slotOf o id = slotRunning ∨ s.slotOf o id = slotDone
  running_iff : ∀ id, s.slotOf o id = slotRunning ↔ s.ClaimedOnce o id
  /-- There is no claim on any other slot, whenever the lock of its table is free: what is left is
  the claim whose guard is being dropped. -/
  unclaimed : ∀ id, s.slotOf o id ≠ slotRunning →
    ∀ t table who, s.Maps t o table → (id, who) ∈ table.claims → table.guard? = some id
  /-- A call that drops its guard lets go of its own claim, and of no other one. -/
  lets_go : ∀ c call table ending, s.calls.get? c = some call → s.Maps call.target o table →
    call.phase = .releasing ending → ∃ who, call.initiator = some who ∧
      ((s.flagOf call).id, who) ∈ table.claims ∧
        table.unlock.claims = table.claims.erase ((s.flagOf call).id, who)

variable {t : Nat} {table : SlotTable} {who : Initiator}

theorem Maps.table?_eq (maps : s.Maps t o table) :
    s.board.table? t = some (o, table.slotCount) := by
  obtain ⟨⟨target, ht, he⟩, rfl⟩ := maps
  show (s.targets.get? t).bind (fun target => target.executor.table?) = _
  rw [ht, Option.bind_some, he]
  rfl

theorem Maps.held_eq (maps : s.Maps t o table) : s.board.held t = table.unlock.claims := by
  obtain ⟨⟨target, ht, he⟩, -⟩ := maps
  show ((s.targets.get? t).map fun target => target.executor.held).getD [] = _
  rw [ht, Option.map_some, he]
  rfl

theorem Maps.lock?_eq (maps : s.Maps t o table) :
    s.lock? t = table.guard?.map (·, table.claims) := by
  obtain ⟨⟨target, ht, he⟩, -⟩ := maps
  rw [lock?, ht, Option.bind_some, he]
  rfl

/-- A guard is dropped when its slot is done. -/
theorem Maps.done_of_locked (locks : Locks s) (maps : s.Maps t o table)
    (locked : table.guard? = some id) : s.slotOf o id = slotDone := by
  have held : s.lock? t = some (id, table.claims) := by
    rw [maps.lock?_eq, locked]
    rfl
  exact slotOf_of_slot? (locks.done t id _ o _ held maps.table?_eq)

theorem Maps.executorOf (maps : s.Maps call.target o table) :
    s.executorOf call = some (.table table) := by
  obtain ⟨⟨target, ht, he⟩, -⟩ := maps
  rw [State.executorOf, ht, Option.map_some, he]

theorem exists_maps {n : UInt32} (ht : s.board.table? t = some (o, n)) :
    ∃ table, s.Maps t o table ∧ table.slotCount = n := by
  obtain ⟨target, htarget, htable⟩ := Option.bind_eq_some_iff.mp ht
  cases he : target.executor with
  | registry r =>
    rw [he] at htable
    cases htable
  | table table =>
    rw [he] at htable
    cases htable
    exact ⟨table, ⟨⟨target, htarget, he⟩, rfl⟩, rfl⟩

theorem mem_claims_iff (inv : s.board.Inv) (maps : s.Maps t o table) :
    (id, who) ∈ table.unlock.claims ↔ ∃ c, s.board.claim? c = some (t, id, who) := by
  rw [← maps.held_eq]
  exact inv.mem_held t id who

theorem Maps.distinct (inv : s.board.Inv) (maps : s.Maps t o table) :
    (table.unlock.claims.map (·.1)).Nodup := by
  rw [← maps.held_eq]
  exact inv.distinct t

theorem running_of_claim (inv : s.board.Inv) (maps : s.Maps t o table)
    (hc : s.board.claim? c = some (t, id, who)) : s.slotOf o id = slotRunning :=
  slotOf_of_slot? (inv.running _ _ _ _ _ _ hc maps.table?_eq).2

theorem claimedOnce_of_claim (inv : s.board.Inv) (lineage : Lineage s) (locks : Locks s)
    (maps : s.Maps t o table) (hc : s.board.claim? c = some (t, id, who)) :
    s.ClaimedOnce o id := by
  have hmem : (id, who) ∈ table.unlock.claims := (mem_claims_iff inv maps).mpr ⟨c, hc⟩
  -- The slot is running, so no guard for the handle is being dropped.
  have hopen {t' table'} (maps' : s.Maps t' o table') : table'.guard? ≠ some id := by
    intro locked
    have hdone := maps'.done_of_locked locks locked
    rw [running_of_claim inv maps hc] at hdone
    cases hdone
  refine ⟨t, table, who, maps, ?_, ?_, c, (claim?_iff inv lineage).mp hc⟩
  · rw [← SlotTable.filter_unlock (hopen maps)]
    exact filter_claims (maps.distinct inv) hmem
  intro t' table' maps' other
  rw [← SlotTable.filter_unlock (hopen maps'), List.filter_eq_nil_iff]
  rintro ⟨id', who'⟩ hmem' hid
  obtain rfl : id' = id := by simpa using hid
  obtain ⟨c', hc'⟩ := (mem_claims_iff inv maps').mp hmem'
  -- Two claims on one handle at one object belong to one call.
  obtain rfl : c' = c := inv.unique c' c t' t id' who' who hc' hc
    (by rw [Board.site_of_table maps'.table?_eq, Board.site_of_table maps.table?_eq])
  rw [hc] at hc'
  cases hc'
  exact other rfl

end State

open State

/-- **Claims mirror running slots** in every state of a run. -/
theorem Run.mirrors (run : Run rule s₀ past s) (fresh : s₀.IsFresh)
    (idle : ∀ id, s₀.slotOf o id = slotIdle) : s.Mirrors o := by
  have inv := run.board_inv fresh
  have lineage := run.lineage fresh
  have locks := run.locks fresh
  refine ⟨?_, fun id => ⟨fun running => ?_, ?_⟩, ?_, ?_⟩
  · induction run with
    | start => exact fun id => Or.inl (idle id)
    | @step past s a run alive possible _ ih =>
      intro id
      have before := ih (run.board_inv fresh) (run.lineage fresh) (run.locks fresh) id
      have move := slotMove_act (run.board_inv fresh) alive possible o id
      generalize (s.act a).slotOf o id = v at move ⊢
      cases move with
      | stays => exact before
      | claimed => exact Or.inr (Or.inl rfl)
      | settled => exact Or.inr (Or.inr rfl)
  · obtain ⟨c, t, who, n, hc, ht⟩ := run.backed fresh idle id
      (slot?_of_slotOf running (by simp [slotRunning, slotIdle]))
    obtain ⟨table, maps, -⟩ := exists_maps ht
    exact claimedOnce_of_claim inv lineage locks maps hc
  · rintro ⟨t, table, who, maps, -, -, c, held⟩
    exact running_of_claim inv maps ((claim?_iff inv lineage).mpr held)
  · intro id still t table who maps hmem
    refine (SlotTable.mem_claims_cases hmem).resolve_right fun hmem => ?_
    obtain ⟨c, hc⟩ := (mem_claims_iff inv maps).mp hmem
    exact still (running_of_claim inv maps hc)
  · intro c call table ending hc maps phase
    have drops : s.Drops c call.target (s.flagOf call).id :=
      ⟨by rw [phaseOf_of_get? hc, phase]; rfl, place?_of_get? hc⟩
    obtain ⟨claims, held⟩ := locks.taken _ _ _ drops
    obtain ⟨k, mine, who, drops', hk, hwho, own⟩ := locks.dropper _ _ _ held
    obtain rfl : c = k := locks.alone _ _ _ _ _ drops drops'
    obtain rfl : call = mine := Option.some.inj (hc.symm.trans hk)
    rw [maps.lock?_eq] at held
    obtain ⟨id, locked, heq⟩ := Option.map_eq_some_iff.mp held
    obtain ⟨rfl, rfl⟩ : id = (s.flagOf call).id ∧ table.claims = claims := by simpa using heq
    refine ⟨who, hwho, List.mem_of_mem_filter (p := (·.1 = (s.flagOf call).id)) ?_,
      SlotTable.claims_unlock locked own⟩
    rw [own]
    exact List.mem_cons_self

/-! ## Why a call through a slot table aborts -/

namespace State

/-- What a call has come across when it is in a phase: nobody queues at a slot table, a slot that is
polled is not idle any more, and a flag is set before its call goes on. -/
def HasSeen (s : State α) (call : Call α) : Phase α → Prop
  | .queued _ => s.board.table? call.target = none
  | .polling => ∃ o n, s.board.table? call.target = some (o, n) ∧ (s.flagOf call).id.index < n ∧
      s.slotOf o (s.flagOf call).id ≠ slotIdle
  | .releasing _ | .resuming _ _ | .concluding =>
      s.board.table? call.target = none ∨ s.isSet call.flag = true
  | _ => True

variable {s' : State α} {call' : Call α} {table : SlotTable} {phase : Phase α}

theorem HasSeen.later (seen : s.HasSeen call phase) (target : call'.target = call.target)
    (flag : call'.flag = call.flag) (handle : (s'.flagOf call').id = (s.flagOf call).id)
    (tables : s'.board.table? = s.board.table?)
    (used : ∀ o id, s.slotOf o id ≠ slotIdle → s'.slotOf o id ≠ slotIdle)
    (set : ∀ f, s.isSet f = true → s'.isSet f = true) : s'.HasSeen call' phase := by
  cases phase with
  | queued =>
    show s'.board.table? call'.target = none
    rw [tables, target]
    exact seen
  | polling =>
    obtain ⟨o, n, htable, within, slot⟩ := seen
    refine ⟨o, n, ?_, ?_, ?_⟩
    · rw [tables, target]
      exact htable
    · rwa [handle]
    · rw [handle]
      exact used _ _ slot
  | releasing | resuming | concluding =>
    show s'.board.table? call'.target = none ∨ s'.isSet call'.flag = true
    rw [tables, target, flag]
    exact seen.imp id (set _)
  | _ => trivial

theorem isSet_completeFlag (known : s.board.flag? call.flag = some (s.flagOf call)) :
    (s.completeFlag call.flag).isSet call.flag = true := by
  have known : s.flags.get? call.flag = some (s.flagOf call) := known
  show ((s.flags.modify call.flag Flag.complete).get? call.flag).any Flag.isDone = true
  rw [Store.get?_modify, if_pos rfl, known]
  rfl

/-- What a step of a call leaves it with. -/
theorem hasSeen_effect {notices : List (Notice α)} (inv : s.board.Inv)
    (hc : s.calls.get? c = some call) (seen : s.HasSeen call call.phase)
    (effect : Effect s c call s' notices) (tables : s'.board.table? = s.board.table?)
    (set : ∀ f, s.isSet f = true → s'.isSet f = true) :
    s'.HasSeen call (s'.phaseOf c) ∨ s' = s ∨ s'.violation ≠ none := by
  have known := known_flagOf inv hc
  have still (h : s.board.table? call.target = none) : s'.board.table? call.target = none := by
    rwa [tables]
  have goesOn (h : s.board.table? call.target = none ∨ s.isSet call.flag = true) :
      s'.board.table? call.target = none ∨ s'.isSet call.flag = true := by
    rw [tables]
    exact h.imp id (set _)
  cases effect with
  | rests => exact Or.inr (Or.inl rfl)
  | lacks | breaks | misses | fails => exact Or.inr (Or.inr (by simp))
  | sees phase flagged =>
    refine Or.inl ?_
    rw [phaseOf_setPhase]
    exact goesOn (Or.inr (by rw [isSet_eq, flagged]))
  | late _ through =>
    refine Or.inl ?_
    rw [afterLock, phaseOf_setCall]
    exact Or.inl (still (table?_board through))
  | joins _ through =>
    refine Or.inl ?_
    rw [afterLock, phaseOf_setCall]
    exact still (table?_board through)
  | retires _ through =>
    refine Or.inl ?_
    rw [phaseOf_setPhase]
    exact Or.inl (still (table?_board through))
  | resumes phase =>
    rw [phase] at seen
    refine Or.inl ?_
    rw [phaseOf_setPhase]
    exact goesOn (Or.inl seen)
  | parks phase =>
    rw [phase] at seen
    refine Or.inl ?_
    rw [phaseOf_setPhase]
    exact still seen
  | @loses t v phase ht other found taken =>
    refine Or.inl ?_
    obtain ⟨within, slot⟩ := slot?_board inv ht found
    have htable := table?_board ht
    rw [← tables] at htable
    obtain ⟨n, -, hn⟩ := identify_eq s call
    have hslot : (s.afterLock c call (.table t) .polling).slotOf t.mapping.object
        (s.flagOf call).id = v := by
      rw [afterLock, hn]
      exact slotOf_of_slot? slot
    have hflag : (s.afterLock c call (.table t) .polling).flagOf call = s.flagOf call := by
      rw [afterLock, hn]
      rfl
    have hphase : (s.afterLock c call (.table t) .polling).phaseOf c = .polling :=
      phaseOf_setCall ..
    rw [hphase]
    refine ⟨_, _, htable, ?_, ?_⟩
    · rwa [hflag]
    · rwa [hflag, hslot]
  | follows =>
    refine Or.inl ?_
    rw [phaseOf_setPhase]
    exact Or.inr (isSet_completeFlag known)
  | marks =>
    refine Or.inl ?_
    rw [phaseOf_setPhase]
    exact Or.inr (isSet_completeFlag known)
  | @hands waiter rest ending phase =>
    rw [phase] at seen
    refine Or.inl ?_
    rw [phaseOf_hands]
    exact goesOn seen
  | goesOn phase | releases phase =>
    rw [phase] at seen
    refine Or.inl ?_
    rw [phaseOf_setPhase]
    exact goesOn seen
  | claims =>
    refine Or.inl ?_
    show State.HasSeen _ call (State.phaseOf (State.setCall _ _ _) c)
    rw [phaseOf_setCall]
    trivial
  | wins | meets | recurs =>
    refine Or.inl ?_
    rw [afterLock, phaseOf_setCall]
    trivial
  | _ =>
    refine Or.inl ?_
    rw [phaseOf_setPhase]
    trivial

/-- An action leaves its call with what goes with its phase. -/
theorem hasSeen_act (inv : s.board.Inv) (alive : s.violation = none) (possible : s.Possible a)
    (hc : s.calls.get? c = some call) (own : c = a.call s) (seen : s.HasSeen call call.phase) :
    (s.act a).HasSeen call ((s.act a).phaseOf c) ∨ (s.act a).violation ≠ none := by
  have turn := turn_act inv alive possible
  have tables := turn.table?_eq
  have set (f : Nat) (h : s.isSet f = true) : (s.act a).isSet f = true := turn.isSet_mono h
  have impact := impact_act alive possible
  generalize s.act a = s' at impact tables set ⊢
  cases impact with
  | idles =>
    rw [phaseOf_of_get? hc]
    exact Or.inl seen
  | issues =>
    rw [show c = s.nextKey from own, absent_nextKey inv] at hc
    cases hc
  | @steps k other _ _ known effect =>
    obtain rfl : c = k := own
    obtain rfl : call = other := Option.some.inj (hc.symm.trans known)
    rcases hasSeen_effect inv hc seen effect tables set with hseen | rfl | haborts
    · exact Or.inl hseen
    · rw [phaseOf_of_get? hc]
      exact Or.inl seen
    · exact Or.inr haborts
  | @yields k other value =>
    obtain rfl : c = k := own
    rw [phaseOf_setPhase]
    exact Or.inl trivial
  | @ends a k other ending subject =>
    obtain rfl : c = k := by
      rw [own, Action.call, subject]
      rfl
    rw [phaseOf_setPhase]
    exact Or.inl trivial
  | @drops k =>
    obtain rfl : c = k := own
    rw [phaseOf_setPhase]
    exact Or.inl trivial

/-- A call goes through a slot table over an object, and its handle has no slot there. -/
def LacksSlot (s : State α) (o c : Nat) : Prop :=
  ∃ call table, s.calls.get? c = some call ∧ s.Maps call.target o table ∧
    ¬(s.flagOf call).id.index < table.slotCount

theorem outside_iff {id : FlagId} {d : Region.Directory} :
    table.state? d id = none ↔ ¬id.index < table.slotCount := by
  unfold SlotTable.state? SlotTable.wordOf?
  by_cases within : id.index < table.slotCount <;> simp [within]

/-- A locked section without a slot aborts. -/
theorem violation_of_outside (alive : s.violation = none) (hc : s.calls.get? c = some call)
    (maps : s.Maps call.target o table) (phase : call.phase = .contending)
    (outside : ¬(s.flagOf call).id.index < table.slotCount) :
    (s.advance c).1.violation = some (.outsideTable (s.flagOf call).id table.slotCount) := by
  simp only [advance, alive, hc, phase, enter, maps.executorOf, enterTable,
    outside_iff.mpr outside, abort]

/-- **Nothing else aborts** a call that goes by what it has seen. -/
theorem outside_of_violation {notices : List (Notice α)} (inv : s.board.Inv)
    (alive : s.violation = none) (maps : s.Maps call.target o table)
    (seen : s.HasSeen call call.phase)
    (range : ∀ id, s.slotOf o id = slotIdle ∨ s.slotOf o id = slotRunning ∨
      s.slotOf o id = slotDone)
    (effect : Effect s c call s' notices) (aborts : s'.violation ≠ none) :
    call.phase = .contending ∧ ¬(s.flagOf call).id.index < table.slotCount := by
  have through := maps.executorOf
  cases effect with
  | @lacks t phase ht outside =>
    obtain rfl : t = table := by
      rw [through] at ht
      cases ht
      rfl
    exact ⟨phase, outside_iff.mp outside⟩
  | @breaks v phase found ended undone =>
    rw [slotSeen?, through] at found
    have hslot := slotOf_of_slot? (slot?_board inv through found).2
    rw [maps.2] at hslot
    rw [phase] at seen
    obtain ⟨o', n, htable, -, used⟩ := seen
    rw [maps.table?_eq] at htable
    cases htable
    rcases range (s.flagOf call).id with idle | running | done
    · exact absurd idle used
    · exact absurd (hslot.symm.trans running) ended
    · exact absurd (hslot.symm.trans done) undone
  | misses phase hr =>
    rw [through] at hr
    cases hr
  | fails phase clear =>
    rw [phase] at seen
    rcases seen with bare | set
    · rw [maps.table?_eq] at bare
      cases bare
    · rw [isSet_eq, clear] at set
      cases set
  | late | meets | joins | wins | recurs | loses | claims =>
    exact absurd ((violation_identify s call).trans alive) aborts
  | @hands waiter rest ending =>
    exact absurd ((violation_handOver (s.setPhase c call (.resuming rest ending)) _).trans alive)
      aborts
  | _ => exact absurd alive aborts

end State

/-- **What the calls have come across**, whatever they go through. -/
theorem Run.hasSeen (run : Run rule s₀ past s) (fresh : s₀.IsFresh)
    (hc : s.calls.get? c = some call) : s.violation ≠ none ∨ s.HasSeen call call.phase := by
  induction run generalizing call with
  | start =>
    rw [fresh.calls c] at hc
    cases hc
  | @step past s a run alive possible _ ih =>
    have inv := run.board_inv fresh
    have turn := turn_act inv alive possible
    rcases calls_act hc with ⟨rfl, -⟩ | ⟨before, hbefore, becomes⟩
    · refine Or.inr ?_
      rcases possible.phase with hp | hp <;> rw [hp] <;> trivial
    · have alike := becomes.alike
      have seen := (ih hbefore).resolve_left (absurd alive ·)
      have used (o : Nat) (id : FlagId) (h : s.slotOf o id ≠ slotIdle) :
          (s.act a).slotOf o id ≠ slotIdle := by
        have move := slotMove_act inv alive possible o id
        generalize (s.act a).slotOf o id = v at move ⊢
        cases move with
        | stays => exact h
        | claimed | settled => simp [slotIdle, slotRunning, slotDone]
      have hphase := phaseOf_of_get? hc
      by_cases own : c = a.call s
      · rcases hasSeen_act inv alive possible hbefore own seen with hseen | haborts
        · rw [← hphase]
          exact Or.inr (hseen.later alike.target alike.flag (by rw [flagOf, flagOf, alike.flag])
            rfl (fun _ _ h => h) (fun _ h => h))
        · exact Or.inl haborts
      · rcases phaseOf_act_of_ne alive possible own with same | ⟨signal, queued, raised⟩
        · rw [← hphase, same, phaseOf_of_get? hbefore]
          exact Or.inr (seen.later alike.target alike.flag
            (id_flagOf_act inv alive possible alike.flag) turn.table?_eq used
            (fun _ set => turn.isSet_mono set))
        · rw [phaseOf_of_get? hbefore] at queued
          rw [queued] at seen
          refine Or.inr ?_
          rw [← hphase, raised]
          show (s.act a).board.table? call.target = none
          rw [turn.table?_eq, alike.target]
          exact seen

/-! ## What comes before an abort -/

/-- A call finds its flag clear when it looks at it without a lock. -/
def Moment.FindsClear (m : Moment α) (c : Nat) : Prop :=
  m.action = .advance c ∧ ∃ call, m.state.calls.get? c = some call ∧ call.phase = .arriving ∧
    (m.state.flagOf call).isDone = false

/-- A step of a call through a slot table over an object aborts. -/
def Moment.AbortsOver (m : Moment α) (o c : Nat) : Prop :=
  m.action = .advance c ∧ m.next.violation ≠ none ∧
    ∃ call table, m.state.calls.get? c = some call ∧ m.state.Maps call.target o table

/-- A call that is about to enter found its flag clear. -/
theorem Run.clear_of_contending (run : Run rule s₀ past s) (fresh : s₀.IsFresh)
    (hc : s.calls.get? c = some call) (phase : call.phase = .contending) :
    ∃ m ∈ past, m.FindsClear c := by
  induction run generalizing call with
  | start =>
    rw [fresh.calls c] at hc
    cases hc
  | @step past s a run alive possible _ ih =>
    rcases calls_act hc with ⟨rfl, -⟩ | ⟨before, hbefore, -⟩
    · rcases possible.phase with hp | hp <;> rw [hp] at phase <;> cases phase
    · by_cases contending : before.phase = .contending
      · obtain ⟨m, hm, clear⟩ := ih hbefore contending
        exact ⟨m, List.mem_append_left _ hm, clear⟩
      · rw [← phaseOf_of_get? hc] at phase
        obtain ⟨advances, arriving, clear⟩ := clear_act alive possible
          (absent_nextKey (run.board_inv fresh)) hbefore contending phase
        exact ⟨⟨s, a⟩, List.mem_append_right _ List.mem_cons_self, advances, before, hbefore,
          arriving, clear⟩

theorem State.lacksSlot_of_act (inv : s.board.Inv) (alive : s.violation = none)
    (possible : s.Possible a) (hc : s.calls.get? c = some call)
    (lacks : (s.act a).LacksSlot o c) : s.LacksSlot o c := by
  obtain ⟨call', table', hc', maps', outside⟩ := lacks
  obtain ⟨after, hafter, becomes⟩ := call_act (a := a) (absent_nextKey inv) hc
  obtain rfl : call' = after := Option.some.inj (hc'.symm.trans hafter)
  have htable := maps'.table?_eq
  rw [(turn_act inv alive possible).table?_eq, becomes.alike.target] at htable
  obtain ⟨table, maps, count⟩ := exists_maps htable
  rw [id_flagOf_act inv alive possible becomes.alike.flag, ← count] at outside
  exact ⟨call, table, hc, maps, outside⟩

/-- A call without a slot stays before its locked section until it aborts. -/
theorem State.contending_act (inv : s.board.Inv) (alive : s.violation = none)
    (possible : s.Possible a) (lacks : s.LacksSlot o c) (phase : s.phaseOf c = .contending) :
    (s.act a).violation ≠ none ∨ (s.act a).phaseOf c = .contending := by
  obtain ⟨call, table, hc, maps, outside⟩ := lacks
  rw [phaseOf_of_get? hc] at phase
  have idle : call.phase ≠ .running := by
    rw [phase]
    intro same
    cases same
  rcases phaseOf_act_cases alive possible hc (absent_nextKey inv) idle with
    same | ⟨signal, queued, -⟩ | ⟨rfl, -⟩ | ⟨rfl, -⟩
  · exact Or.inr (same.trans phase)
  · rw [phase] at queued
    cases queued
  · refine Or.inl ?_
    rw [show (s.act (.advance c)).violation = _ from
      violation_of_outside alive hc maps phase outside]
    exact Option.some_ne_none _
  · obtain ⟨call', hc', -, resting⟩ := possible
    rw [hc] at hc'
    cases hc'
    rw [phase] at resting
    cases resting

/-- A call without a slot that found its flag clear gets no further. -/
theorem Run.contending_of_clear (run : Run rule s₀ past s) (fresh : s₀.IsFresh) {m : Moment α}
    (hm : m ∈ past) (clear : m.FindsClear c) :
    ∃ call, s.calls.get? c = some call ∧
      (s.LacksSlot o c → s.violation ≠ none ∨ s.phaseOf c = .contending) := by
  induction run with
  | start => cases hm
  | @step past s a run alive possible _ ih =>
    have inv := run.board_inv fresh
    rcases List.mem_append.mp hm with hm | hm
    · obtain ⟨call, hc, hstays⟩ := ih hm
      obtain ⟨call', hc', -⟩ := call_act (a := a) (absent_nextKey inv) hc
      refine ⟨call', hc', fun lacks => ?_⟩
      have lacked := lacksSlot_of_act inv alive possible hc lacks
      exact contending_act inv alive possible lacked ((hstays lacked).resolve_left (absurd alive ·))
    · obtain rfl : m = ⟨s, a⟩ := List.mem_singleton.mp hm
      obtain ⟨rfl, call, hc, arriving, unset⟩ := clear
      obtain ⟨call', hc', -⟩ := call_act (a := .advance c) (absent_nextKey inv) hc
      refine ⟨call', hc', fun _ => Or.inr ?_⟩
      have hact : s.act (.advance c) = s.setPhase c call .contending := by
        simp [act, advance, alive, hc, arriving, load, unset]
      rw [hact]
      exact phaseOf_setCall ..

theorem Run.violation_of_clear (run : Run rule s₀ past s) (fresh : s₀.IsFresh)
    (lacks : s.LacksSlot o c) (clear : ∃ m ∈ past, m.FindsClear c) :
    (s.advance c).1.violation ≠ none := by
  obtain ⟨m, hm, clear⟩ := clear
  obtain ⟨-, -, hstays⟩ := run.contending_of_clear (o := o) fresh hm clear
  obtain ⟨call, table, hc, maps, outside⟩ := lacks
  cases alive : s.violation with
  | some v => simp [advance, alive]
  | none =>
    have phase := (hstays ⟨call, table, hc, maps, outside⟩).resolve_left (absurd alive ·)
    rw [phaseOf_of_get? hc] at phase
    rw [violation_of_outside alive hc maps phase outside]
    exact Option.some_ne_none _

/-- What stands behind an abort of a call through a slot table. -/
theorem Run.of_aborts (run : Run rule s₀ past s) (fresh : s₀.IsFresh)
    (idle : ∀ id, s₀.slotOf o id = slotIdle) (alive : s.violation = none)
    (hc : s.calls.get? c = some call) {table : SlotTable} (maps : s.Maps call.target o table)
    (aborts : (s.advance c).1.violation ≠ none) :
    call.phase = .contending ∧ ¬(s.flagOf call).id.index < table.slotCount :=
  outside_of_violation (run.board_inv fresh) alive maps
    ((run.hasSeen fresh hc).resolve_left (absurd alive ·)) (run.mirrors fresh idle).range
    (effect_advance alive hc) aborts

/-- **Claims mirror running slots, and only a handle without a slot aborts.** In every state that
calls through slot tables over one object come to, however their steps are interleaved, a slot is
running exactly when one of the tables has one claim on its handle and the others have none, and the
call of the claim still has its guard: its initializer runs, or was left (`ended`) with the guard
not dropped yet. No other slot is claimed, unless the lock of its table is taken to drop the guard
of just this claim; and a guard lets go of its own claim only. A call through one of the tables has
aborted exactly if one without a slot for its handle took its step after it had found its flag
clear, and it takes no other step. -/
theorem claims_mirror_slots (run : Run rule s₀ past s) (fresh : s₀.IsFresh)
    (idle : ∀ id, s₀.slotOf o id = slotIdle) :
    s.Mirrors o ∧
    ((∃ m ∈ past, ∃ c, m.AbortsOver o c) ↔
      ∃ before m after c, past = before ++ m :: after ∧ m.action = .advance c ∧
        m.state.LacksSlot o c ∧ ∃ look ∈ before, look.FindsClear c) ∧
    (∀ m ∈ past, ∀ c, m.AbortsOver o c → ∃ call table, m.state.calls.get? c = some call ∧
      m.state.Maps call.target o table ∧
      m.next.violation = some (.outsideTable (m.state.flagOf call).id table.slotCount)) ∧
    ∀ c, s.LacksSlot o c → (∃ m ∈ past, m.FindsClear c) → (s.advance c).1.violation ≠ none := by
  refine ⟨run.mirrors fresh idle, ⟨?_, ?_⟩, ?_, fun c => run.violation_of_clear fresh⟩
  · rintro ⟨m, hm, c, advances, aborts, call, table, hc, maps⟩
    obtain ⟨before, after, rfl⟩ := List.append_of_mem hm
    obtain ⟨run', alive, -, -⟩ := run.split
    rw [Moment.next, advances] at aborts
    obtain ⟨phase, outside⟩ := run'.of_aborts fresh idle alive hc maps aborts
    exact ⟨before, m, after, c, rfl, advances, ⟨call, table, hc, maps, outside⟩,
      run'.clear_of_contending fresh hc phase⟩
  · rintro ⟨before, m, after, c, rfl, advances, lacks, clear⟩
    obtain ⟨run', -, -, -⟩ := run.split
    obtain ⟨call, table, hc, maps, -⟩ := id lacks
    refine ⟨m, List.mem_append_right _ List.mem_cons_self, c, advances, ?_, call, table, hc, maps⟩
    rw [Moment.next, advances]
    exact run'.violation_of_clear fresh lacks clear
  · rintro m hm c ⟨advances, aborts, call, table, hc, maps⟩
    obtain ⟨before, run', alive, -, -⟩ := run.before_moment hm
    refine ⟨call, table, hc, maps, ?_⟩
    rw [Moment.next, advances] at aborts ⊢
    obtain ⟨phase, outside⟩ := run'.of_aborts fresh idle alive hc maps aborts
    exact violation_of_outside alive hc maps phase outside

/-- Two slot tables over one object with one slot; the handle of the last flag is outside. -/
def mirrorStart : State Unit :=
  { tablesStart with flags := tablesStart.flags.set 4 { id := ⟨1⟩ }, nextKey := 5 }

/-- A thread claims the slot through one table. Then a task wants the flag without a slot through
the other one. -/
def mirrorActions : List (Action Unit) :=
  [.issue { flavour := .blocking, thread := "main", target := 0, flag := 2, phase := .arriving },
    .advance 5, .advance 5,
    .issue { flavour := .async, thread := "main", target := 1, flag := 4, phase := .arriving },
    .advance 6, .advance 6]

theorem mirror_isFresh : mirrorStart.IsFresh where
  calls := tables_isFresh.calls
  registries := tables_isFresh.registries
  tables := tables_isFresh.tables
  locks := tables_isFresh.locks
  violation := rfl

theorem mirror_allowed : mirrorStart.Allows (fun _ _ => True) mirrorActions :=
  ⟨rfl, ⟨Or.inr rfl, rfl, ⟨_, rfl⟩, ⟨_, rfl⟩, nofun⟩, trivial,
    rfl, rfl, trivial, rfl, rfl, trivial,
    rfl, ⟨Or.inr rfl, rfl, ⟨_, rfl⟩, ⟨_, rfl⟩, nofun⟩, trivial,
    rfl, rfl, trivial, rfl, rfl, trivial, trivial⟩

/-- The thread holds the one claim on the running slot, and the task aborts. -/
theorem claims_mirror_slots_outside :
    (mirrorStart.acts mirrorActions).slotOf 0 ⟨0⟩ = slotRunning ∧
    (mirrorStart.acts mirrorActions).ClaimedOnce 0 ⟨0⟩ ∧
    (mirrorStart.acts mirrorActions).violation = some (.outsideTable ⟨1⟩ 1) ∧
    ∃ c, ∃ look ∈ mirrorStart.moments mirrorActions, look.FindsClear c := by
  obtain ⟨mirrors, hiff, -, -⟩ := claims_mirror_slots (o := 0) (Run.of_allows mirror_allowed)
    mirror_isFresh (fun _ => rfl)
  have running : (mirrorStart.acts mirrorActions).slotOf 0 ⟨0⟩ = slotRunning := rfl
  refine ⟨running, (mirrors.running_iff ⟨0⟩).mp running, rfl, ?_⟩
  have aborts : ∃ m ∈ mirrorStart.moments mirrorActions, ∃ c, m.AbortsOver 0 c := by
    refine ⟨⟨mirrorStart.acts (mirrorActions.take 5), .advance 6⟩, ?_, 6, rfl, ?_, _, attached, rfl,
      ⟨_, rfl, rfl⟩, rfl⟩
    · simp [mirrorActions, State.moments, State.acts]
    · exact Option.some_ne_none _
  obtain ⟨before, m, after, c, hpast, -, -, look, hlook, clear⟩ := hiff.mp aborts
  exact ⟨c, look, by rw [hpast]; exact List.mem_append_left _ hlook, clear⟩

end RunOnce.Protocol
