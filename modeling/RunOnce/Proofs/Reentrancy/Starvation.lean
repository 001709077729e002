import RunOnce.Proofs.Reentrancy.Async
import RunOnce.Proofs.Reentrancy.Descent
import RunOnce.Proofs.Waiting.Pending

/-!
# Calls that wait for what encloses them

**Meeting** (`Meets`). A call goes for what another one has in flight: for the same handle, through
the same registry or over the same object. In its locked section it is told that it is reentrant
exactly when both go through one target under one identity (`Meets.told_iff`). Else it comes to wait
behind the other one (`Meets.behind`).

**Waiting behind** (`Behind`). Who waits behind a call does so as long as this call has its
initialization in flight (`Run.behind_act`).

**Starving** (`Run.starves`). So if the initializer of a call waits for one that waits behind it,
neither of the two ever goes on.
-/

namespace RunOnce.Protocol

open Relation State

variable {α : Type} {s : State α} {a : Action α} {c w : Nat} {outer call : Call α}

/-- A call goes for what another one has in flight. -/
structure State.Meets (s : State α) (w c : Nat) (outer call : Call α) : Prop where
  here : s.calls.get? w = some outer
  mine : s.calls.get? c = some call
  inFlight : outer.phase.isInFlight = true
  site : s.board.site call.target = s.board.site outer.target
  id : (s.flagOf call).id = (s.flagOf outer).id

/-- A call waits for what another one has in flight, in its queue or at its slot. -/
inductive Behind (s : State α) (w c : Nat) : Prop
  | waits {outer call : Call α} (meets : s.Meets w c outer call)
      (suspended : call.phase.isSuspended = true)
      (queued : c ∈ s.waitersFor (outer.target, (s.flagOf outer).id))
  | polls {outer call : Call α} (meets : s.Meets w c outer call) (polling : call.phase = .polling)

/-- The initializer of one call does not end before another call is over, whose future is kept. -/
def Awaits (w c : Nat) (s : State α) (a : Action α) : Prop :=
  a ≠ .abandon c ∧ ((s.phaseOf c).isOver = false →
    a ≠ .abandon w ∧ ∀ ending value, a ≠ .finish w ending value)

/-! ## Meeting -/

namespace State.Meets

theorem ne (meets : s.Meets w c outer call) (outside : call.phase.isInFlight = false) : w ≠ c := by
  rintro rfl
  obtain rfl : outer = call := Option.some.inj (meets.here.symm.trans meets.mine)
  rw [meets.inFlight] at outside
  cases outside

theorem holder (meets : s.Meets w c outer call) :
    s.InFlight w outer.target (s.flagOf outer).id :=
  ⟨outer, meets.here, rfl, rfl, meets.inFlight⟩

/-- The entry of the outer call is the only one that the inner call may meet. -/
theorem claim (meets : s.Meets w c outer call) (lineage : Lineage s) (inv : s.board.Inv) :
    ∃ who, outer.initiator = some who ∧
      s.board.claim? w = some (outer.target, (s.flagOf call).id, who) := by
  obtain ⟨who, hwho⟩ :=
    Option.ne_none_iff_exists'.mp (lineage.inside w outer meets.here meets.inFlight)
  refine ⟨who, hwho, (claim?_iff inv lineage).mpr ⟨?_, outer, meets.here, hwho⟩⟩
  rw [meets.id]
  exact meets.holder

/-- An action leaves two calls that meet where they are, while the outer one is in flight. -/
theorem act (meets : s.Meets w c outer call) (inv : s.board.Inv) (alive : s.violation = none)
    (possible : s.Possible a) (lasts : ((s.act a).phaseOf w).isInFlight = true) :
    ∃ outer' call', (s.act a).Meets w c outer' call' ∧ outer.Alike outer' ∧ call.Alike call' := by
  obtain ⟨outer', hw, becomes⟩ := call_act (a := a) (absent_nextKey inv) meets.here
  obtain ⟨call', hc, becomes'⟩ := call_act (a := a) (absent_nextKey inv) meets.mine
  have turn := turn_act inv alive possible
  rw [phaseOf_of_get? hw] at lasts
  refine ⟨outer', call', { here := hw, mine := hc, inFlight := lasts, site := ?_, id := ?_ },
    becomes.alike, becomes'.alike⟩
  · rw [becomes.alike.target, becomes'.alike.target, Board.site, Board.site, turn.table?_eq]
    exact meets.site
  · rw [id_flagOf_act inv alive possible becomes.alike.flag,
      id_flagOf_act inv alive possible becomes'.alike.flag, meets.id]

/-- The inner call finds an entry under its own identity exactly when it is that of the outer one,
through the same target. -/
theorem mem_held_iff (meets : s.Meets w c outer call) (inv : s.board.Inv) (lineage : Lineage s)
    (who : Initiator) : ((s.flagOf call).id, who) ∈ s.board.held call.target ↔
      call.target = outer.target ∧ outer.initiator = some who := by
  obtain ⟨known, hknown, hclaim⟩ := meets.claim lineage inv
  rw [inv.mem_held]
  constructor
  · rintro ⟨k, hk⟩
    obtain rfl : k = w := inv.unique _ _ _ _ _ _ _ hk hclaim meets.site
    obtain ⟨htarget, hwho⟩ : outer.target = call.target ∧ known = who := by
      simpa using hclaim.symm.trans hk
    exact ⟨htarget.symm, by rw [hknown, hwho]⟩
  · rintro ⟨htarget, hwho⟩
    rw [hknown] at hwho
    cases hwho
    exact ⟨w, by rw [htarget]; exact hclaim⟩

/-- **Who is told.** A call that meets another one is told that it is reentrant exactly when both
go through one target under one identity. -/
theorem told_iff (meets : s.Meets w c outer call) (inv : s.board.Inv) (lineage : Lineage s)
    (possible : s.Possible (.advance c)) (clear : (s.flagOf call).isDone = false)
    (contending : call.phase = .contending) :
    ((s.enter c call).1.phaseOf c).isReentrant = true ↔
      call.target = outer.target ∧ outer.initiator = some (s.identify call).1 := by
  rw [reentrant_enter_iff inv possible meets.mine contending, meets.mem_held_iff inv lineage]
  exact ⟨fun told => told.2, fun own => ⟨fun _ _ => clear, own⟩⟩

/-- The slot of what is in flight over an object is running. -/
theorem slot_running (meets : s.Meets w c outer call) (inv : s.board.Inv) (lineage : Lineage s)
    {t : SlotTable} (through : s.executorOf call = some (.table t)) :
    s.board.slot? t.mapping.object (s.flagOf call).id = some slotRunning := by
  obtain ⟨who, -, hclaim⟩ := meets.claim lineage inv
  obtain ⟨n, htable⟩ := Board.table_of_site (table?_board through) meets.site
  exact (inv.running _ _ _ _ _ _ hclaim htable).2

/-- A call that meets another one over a slot table finds the slot running. -/
theorem eq_of_slotSeen? (meets : s.Meets w c outer call) (inv : s.board.Inv) (lineage : Lineage s)
    {v : UInt32} (seen : s.slotSeen? call = some v) : v = slotRunning := by
  unfold slotSeen? at seen
  split at seen
  next t through =>
    have hslot := (slot?_board inv through seen).2
    rw [meets.slot_running inv lineage through] at hslot
    exact (Option.some.inj hslot).symm
  · cases seen
  · cases seen

/-- Through the table of the call in flight the handle has a slot. -/
theorem within (meets : s.Meets w c outer call) (inv : s.board.Inv) (lineage : Lineage s)
    (same : call.target = outer.target) {t : SlotTable}
    (through : s.executorOf call = some (.table t)) : (s.flagOf call).id.index < t.slotCount := by
  obtain ⟨who, -, hclaim⟩ := meets.claim lineage inv
  have htable := table?_board through
  rw [same] at htable
  exact (inv.running _ _ _ _ _ _ hclaim htable).1

/-- The call goes through the registry of the other one, or over a slot table. -/
theorem through (meets : s.Meets w c outer call) (inv : s.board.Inv) (lineage : Lineage s) :
    (call.target = outer.target ∧ ∃ r, s.executorOf call = some (.registry r)) ∨
      ∃ t, s.executorOf call = some (.table t) := by
  obtain ⟨who, hwho, -⟩ := meets.claim lineage inv
  cases he : s.executorOf call with
  | none =>
    exfalso
    have hnone : s.targets.get? call.target = none := Option.map_eq_none_iff.mp he
    have hbare : s.board.table? call.target = none := by
      show (s.targets.get? call.target).bind _ = none
      rw [hnone]
      rfl
    have hmem := (meets.mem_held_iff inv lineage who).mpr
      ⟨Board.eq_of_site_bare hbare meets.site, hwho⟩
    have hheld : s.board.held call.target = [] := by
      show ((s.targets.get? call.target).map _).getD [] = []
      rw [hnone]
      rfl
    rw [hheld] at hmem
    cases hmem
  | some executor =>
    cases executor with
    | registry r => exact Or.inl ⟨Board.eq_of_site_bare (table?_board he) meets.site, r, rfl⟩
    | table t => exact Or.inr ⟨t, rfl⟩

section

variable (meets : s.Meets w c outer call) (inv : s.board.Inv) (lineage : Lineage s)
  (alive : s.violation = none) (contending : call.phase = .contending)
  (other : call.target = outer.target → outer.initiator ≠ some (s.identify call).1)

include meets inv lineage alive contending other

/-- Through the registry of the other one the call joins its queue, as the last one. -/
theorem joins {r : Registry Nat} (clear : (s.flagOf call).isDone = false)
    (same : call.target = outer.target) (through : s.executorOf call = some (.registry r)) :
    s.act (.advance c) = s.afterLock c call
        (.registry ⟨Registry.enqueue (s.flagOf call).id c r.operations⟩)
        (.queued (signalFor call.flavour)) ∧
      c ∈ (s.act (.advance c)).waitersFor (call.target, (s.flagOf call).id) := by
  obtain ⟨who, hwho, -⟩ := meets.claim lineage inv
  have hheld : s.board.held call.target = r.held := held_board through
  have hmem := (meets.mem_held_iff inv lineage who).mpr ⟨same, hwho⟩
  rw [hheld] at hmem
  obtain ⟨op, found⟩ : ∃ op, r.find? (s.flagOf call).id = some op := by
    rw [← Option.ne_none_iff_exists']
    intro hnone
    exact Registry.find?_eq_none.mp hnone who hmem
  have hother : op.initiator ≠ (s.identify call).1 := by
    intro own
    have hop := Registry.mem_held_of_find? found
    rw [← hheld, own] at hop
    exact other same ((meets.mem_held_iff inv lineage _).mp hop).2
  have he : r.enter (s.flagOf call) (s.identify call).1 c = (.waiting (op.waiters.length + 1),
      ⟨Registry.enqueue (s.flagOf call).id c r.operations⟩) := by
    simp [Registry.enter, clear, found, hother]
  have hact : s.act (.advance c) = s.afterLock c call
      (.registry ⟨Registry.enqueue (s.flagOf call).id c r.operations⟩)
      (.queued (signalFor call.flavour)) := by
    show (s.advance c).1 = _
    simp only [advance, alive, meets.mine, contending, enter, through, enterRegistry, he]
    rfl
  refine ⟨hact, ?_⟩
  have hhall := congrArg Hall.queue (hall_afterLock
    (.registry ⟨Registry.enqueue (s.flagOf call).id c r.operations⟩)
    (.queued (signalFor call.flavour)) meets.mine through (Registry.waitersOf_enqueue found c))
  rw [hact]
  show c ∈ Hall.queue (hall _) _
  rw [hhall, Hall.queue_setQueue_self]
  exact List.mem_append_right _ (List.mem_singleton_self c)

/-- Over a slot table the call comes to poll. -/
theorem loses {t : SlotTable} (possible : s.Possible (.advance c))
    (through : s.executorOf call = some (.table t))
    (within : (s.flagOf call).id.index < t.slotCount) :
    s.act (.advance c) = s.afterLock c call (.table t) .polling := by
  obtain ⟨v, seen⟩ : ∃ v, t.state? s.image.directory (s.flagOf call).id = some v := by
    rw [SlotTable.state?, SlotTable.wordOf?, if_pos within]
    exact ⟨_, rfl⟩
  have hslot := (slot?_board inv through seen).2
  rw [meets.slot_running inv lineage through] at hslot
  obtain rfl : slotRunning = v := Option.some.inj hslot
  have free := guard?_of_possible possible meets.mine (by rw [contending]; rfl) through
    (by rw [seen]; rfl)
  have hheld : s.board.held call.target = t.claims := by
    rw [held_board through, Executor.held, SlotTable.unlock_of_free free]
  have hother : ((s.flagOf call).id, (s.identify call).1) ∉ t.claims := by
    rw [← hheld, meets.mem_held_iff inv lineage]
    rintro ⟨same, hwho⟩
    exact other same hwho
  have hclaim : t.claim slotRunning (s.flagOf call).id (s.identify call).1 =
      (.lost slotRunning, t) := by
    rw [SlotTable.claim, if_neg (mt List.contains_iff_mem.mp hother), if_neg (by decide)]
  show (s.advance c).1 = _
  simp only [advance, alive, meets.mine, contending, enter, through, enterTable, seen, hclaim,
    SlotTable.isLocked_eq_false.mpr free]
  rfl

/-- **Who comes to wait.** A call that is not told comes to wait behind the other one. -/
theorem behind (possible : s.Possible (.advance c)) (clear : (s.flagOf call).isDone = false)
    (within : ∀ t, s.executorOf call = some (.table t) →
      (s.flagOf call).id.index < t.slotCount) : Behind (s.act (.advance c)) w c := by
  have hne := meets.ne (by rw [contending]; rfl)
  have hlasts : ((s.act (.advance c)).phaseOf w).isInFlight = true := by
    have hw : (s.phaseOf w).isInFlight = true := by
      rw [phaseOf_of_get? meets.here]
      exact meets.inFlight
    rcases phaseOf_act_of_ne (a := .advance c) alive possible hne with hsame | ⟨signal, hqueued, -⟩
    · rw [hsame]
      exact hw
    · rw [hqueued] at hw
      cases hw
  obtain ⟨outer', call', meets', alike, alike'⟩ :=
    meets.act (a := .advance c) inv alive possible hlasts
  have hphase := phaseOf_of_get? meets'.mine
  rcases meets.through inv lineage with ⟨same, r, through⟩ | ⟨t, through⟩
  · obtain ⟨hact, hqueue⟩ :=
      meets.joins inv lineage alive contending other clear same through
    refine .waits meets' ?_ ?_
    · rw [← hphase, hact, afterLock, phaseOf_setCall]
      simp only [Phase.isSuspended, isRaised_signalFor]
      rfl
    · rw [alike.target, id_flagOf_act (a := .advance c) inv alive possible alike.flag, ← same,
        ← meets.id]
      exact hqueue
  · refine .polls meets' ?_
    rw [← hphase, meets.loses inv lineage alive contending other possible through
      (within t through), afterLock, phaseOf_setCall]

end

end State.Meets

/-! ## Waiting behind -/

section

variable {rule : State α → Action α → Prop} {s₀ s' : State α} {past later : List (Moment α)}

/-- A call that polls the slot of another one in flight goes on to poll, unless it is dropped. -/
theorem State.Meets.polls_act (meets : s.Meets w c outer call) (inv : s.board.Inv)
    (lineage : Lineage s) (alive : s.violation = none) (possible : s.Possible a)
    (polling : call.phase = .polling) : (s.act a).phaseOf c = .polling ∨
      a = .abandon c ∧ (s.act a).phaseOf c = .ended .dropped := by
  have hc : s.phaseOf c = .polling := by rw [phaseOf_of_get? meets.mine, polling]
  have idle : call.phase ≠ .running := by
    rw [polling]
    intro same
    cases same
  rcases phaseOf_act_cases alive possible meets.mine (absent_nextKey inv) idle with
    hsame | ⟨signal, queued, -⟩ | ⟨-, notices, effect⟩ | dropped
  · exact Or.inl (hsame.trans polling)
  · rw [polling] at queued
    cases queued
  · left
    generalize s.act a = s' at effect ⊢
    cases effect with
    | rests => exact hc
    | follows phase done => cases meets.eq_of_slotSeen? inv lineage done
    | breaks phase seen ended undone =>
      exact absurd (meets.eq_of_slotSeen? inv lineage seen) ended
    | skips phase | returns phase =>
      rw [polling] at phase
      rcases phase with phase | phase <;> cases phase
    | _ => simp_all
  · exact Or.inr dropped

/-- **Who waits behind a call goes on to do so** as long as it has its initialization in flight,
unless the future of the waiter is dropped. -/
theorem Run.behind_act (run : Run rule s₀ past s) (fresh : s₀.IsFresh) (alive : s.violation = none)
    (possible : s.Possible a) (behind : Behind s w c)
    (lasts : ((s.act a).phaseOf w).isInFlight = true) : Behind (s.act a) w c ∨
      a = .abandon c ∧ (s.act a).phaseOf c = .ended .dropped := by
  have inv := run.board_inv fresh
  cases behind with
  | @waits outer call meets suspended queued =>
    obtain ⟨outer', call', meets', alike, alike'⟩ := meets.act inv alive possible lasts
    rw [← phaseOf_of_get? meets.mine] at suspended
    have hplace : (outer'.target, ((s.act a).flagOf outer').id) =
        (outer.target, (s.flagOf outer).id) := by
      rw [alike.target, id_flagOf_act inv alive possible alike.flag]
    rcases run.suspended_queued_act fresh alive possible queued suspended with hnow | dropped
    · left
      refine .waits meets' (by rw [← phaseOf_of_get? meets'.mine]; exact hnow) ?_
      have after := meets'.holder
      have hholder : (s.act a).InFlight w outer.target (s.flagOf outer).id := by
        have := Prod.mk.inj hplace
        rwa [this.1, this.2] at after
      rw [hplace]
      rcases queue_grows (p := (outer.target, (s.flagOf outer).id)) inv (run.hall_inv fresh) alive
        possible meets.holder hholder with hsame | ⟨k, -, -, hgrown⟩
      · rw [hsame]
        exact queued
      · rw [hgrown]
        exact List.mem_append_left _ queued
    · exact Or.inr dropped
  | @polls outer call meets polling =>
    obtain ⟨outer', call', meets', alike, alike'⟩ := meets.act inv alive possible lasts
    rcases meets.polls_act inv (run.lineage fresh) alive possible polling with hnow | dropped
    · left
      refine .polls meets' ?_
      rw [← phaseOf_of_get? meets'.mine]
      exact hnow
    · exact Or.inr dropped

theorem Behind.not_isOver (behind : Behind s w c) : (s.phaseOf c).isOver = false := by
  cases behind with
  | waits meets suspended =>
    obtain ⟨signal, queued, -⟩ := Phase.isSuspended_eq suspended
    rw [phaseOf_of_get? meets.mine, queued]
    rfl
  | polls meets polling =>
    rw [phaseOf_of_get? meets.mine, polling]
    rfl

/-- **Starving.** If the initializer of a call goes on until a call that waits behind it is over,
whose future is kept, then neither of the two ever goes on, whatever the others do. -/
theorem Run.starves (run : Run rule s₀ past s) (fresh : s₀.IsFresh)
    (running : s.phaseOf w = .running) (behind : Behind s w c)
    (more : Run (Awaits w c) s later s') : s'.phaseOf w = .running ∧ Behind s' w c := by
  induction more with
  | start => exact ⟨running, behind⟩
  | @step later s' a more alive possible awaits ih =>
    obtain ⟨running', behind'⟩ := ih
    have whole : Run (fun _ _ => True) s₀ (past ++ later) s' :=
      (run.weaken fun _ _ _ _ _ => trivial).trans (more.weaken fun _ _ _ _ _ => trivial)
    obtain ⟨undropped, hends⟩ := awaits
    obtain ⟨kept, unended⟩ := hends behind'.not_isOver
    have hnow := running_act alive possible running' (whole.fresh_keys fresh (Nat.le_refl _))
      unended kept
    refine ⟨hnow, ?_⟩
    rcases whole.behind_act fresh alive possible behind' (by rw [hnow]; rfl) with hbehind | ⟨hact, -⟩
    · exact hbehind
    · exact absurd hact undropped

/-! ## Calls inside of what they go for -/

/-- Two calls of which one encloses the other meet now if they met before the action. -/
theorem Lineage.meets_of_act {outer' call' : Call α} (lineage : Lineage s) (inv : s.board.Inv)
    (alive : s.violation = none) (possible : s.Possible a)
    (meets : (s.act a).Meets w c outer' call') (encloses : Encloses (s.act a) w c)
    (hc : s.calls.get? c = some call) : ∃ outer, s.Meets w c outer call ∧ Encloses s w c ∧
      outer.Alike outer' ∧ call.Alike call' := by
  have hfresh := absent_nextKey inv
  have turn := turn_act inv alive possible
  have before := lineage.encloses_of_act hfresh hc encloses
  obtain ⟨outer, hw, named⟩ := lineage.named_of_encloses before
  obtain ⟨after, hafter, becomes⟩ := call_act (a := a) hfresh hw
  obtain rfl : outer' = after := Option.some.inj (meets.here.symm.trans hafter)
  obtain ⟨mine, hmine, becomes'⟩ := call_act (a := a) hfresh hc
  obtain rfl : call' = mine := Option.some.inj (meets.mine.symm.trans hmine)
  have hsite := meets.site
  have hid := meets.id
  rw [becomes.alike.target, becomes'.alike.target, Board.site, Board.site, turn.table?_eq] at hsite
  rw [id_flagOf_act inv alive possible becomes.alike.flag,
    id_flagOf_act inv alive possible becomes'.alike.flag] at hid
  exact ⟨outer, { here := hw, mine := hc, site := hsite, id := hid
                  inFlight := lineage.inFlight_of_act hw named becomes meets.inFlight },
    before, becomes.alike, becomes'.alike⟩

/-- A call for a handle outside of its table stays where it is, and the program aborts. -/
theorem phaseOf_lacks {t : SlotTable} (alive : s.violation = none)
    (hc : s.calls.get? c = some call) (contending : call.phase = .contending)
    (through : s.executorOf call = some (.table t))
    (outside : ¬(s.flagOf call).id.index < t.slotCount) :
    (s.act (.advance c)).phaseOf c = .contending := by
  have hstate : t.state? s.image.directory (s.flagOf call).id = none := by
    rw [SlotTable.state?, SlotTable.wordOf?, if_neg outside]
    rfl
  have hact : s.act (.advance c) =
      { s with violation := some (.outsideTable (s.flagOf call).id t.slotCount) } := by
    show (s.advance c).1 = _
    simp only [advance, alive, hc, contending, enter, through, enterTable, hstate]
    rfl
  rw [hact]
  show s.phaseOf c = _
  rw [phaseOf_of_get? hc, contending]

/-- **Calls that are not told come to wait behind what encloses them.** -/
theorem Run.stranded (run : Run rule s₀ past s) (fresh : s₀.IsFresh)
    (meets : s.Meets w c outer call) (encloses : Encloses s w c)
    (other : call.target = outer.target → ¬Inherits s w c outer call)
    (clear : (s.flagOf call).isDone = false) :
    s.Barred call ∧ call.phase.isReentrant = false ∨ Behind s w c := by
  induction run generalizing outer call with
  | start =>
    have hnone := fresh.calls c
    rw [meets.mine] at hnone
    cases hnone
  | @step past s a run alive possible _ ih =>
    have inv := run.board_inv fresh
    have lineage := run.lineage fresh
    have absent := absent_nextKey inv
    rcases calls_act meets.mine with ⟨rfl, -⟩ | ⟨before, hc, becomes⟩
    · have hearly : call.phase.isEarly = true ∧ call.phase.isReentrant = false := by
        rcases possible.phase with hp | hp <;> rw [hp] <;> exact ⟨rfl, rfl⟩
      exact Or.inl ⟨.early hearly.1, hearly.2⟩
    obtain ⟨outer', meets', encloses', alike, alike'⟩ :=
      lineage.meets_of_act inv alive possible meets encloses hc
    have other' : before.target = outer'.target → ¬Inherits s w c outer' before := by
      intro same inherits
      refine other (by rw [alike'.target, alike.target, same]) ?_
      exact (lineage.inherits_act_iff absent encloses' meets'.here hc alike alike').mpr inherits
    have clear' : (s.flagOf before).isDone = false := by
      rw [Bool.eq_false_iff] at clear ⊢
      exact fun set => clear (isDone_flagOf_act inv alive possible alike'.flag set)
    have hphase := phaseOf_of_get? meets.mine
    rcases ih meets' encloses' other' clear' with ⟨barred, untold⟩ | behind
    · by_cases entering : a = .advance c ∧ before.phase = .contending
      · obtain ⟨rfl, contending⟩ := entering
        by_cases within : ∀ t, s.executorOf before = some (.table t) →
            (s.flagOf before).id.index < t.slotCount
        · exact Or.inr (meets'.behind inv lineage alive contending
            (fun same own => other' same
              ((run.identity_iff fresh meets'.here encloses' hc).mp own)) possible clear' within)
        · left
          simp only [not_forall] at within
          obtain ⟨t, through, outside⟩ := within
          rw [phaseOf_lacks alive hc contending through outside] at hphase
          exact ⟨.early (by rw [← hphase]; rfl), by rw [← hphase]; rfl⟩
      · refine Or.inl ⟨barred.act_of_other inv alive possible hc entering meets.mine, ?_⟩
        rw [Bool.eq_false_iff]
        exact fun told => entering (becomes.of_isReentrant untold told)
    · have lasts : ((s.act a).phaseOf w).isInFlight = true := by
        rw [phaseOf_of_get? meets.here]
        exact meets.inFlight
      rcases run.behind_act fresh alive possible behind lasts with hnow | ⟨-, hdropped⟩
      · exact Or.inr hnow
      · rw [hphase] at hdropped
        refine Or.inl ⟨?_, by rw [hdropped]; rfl⟩
        rw [State.Barred, hdropped]
        exact .dropped

/-- What becomes of a call that goes for what a call around it has in flight, and is not told so. -/
structure Strands (s : State α) (w c : Nat) (call : Call α) : Prop where
  /-- It has not entered yet, or it waits behind the outer call, or its future was dropped. A call
  that wants the value of a global may also be answered before it asks. -/
  phase : call.phase.isEarly = true ∨ Behind s w c ∨ call.phase = .ended .dropped ∨
    call.cell ≠ none ∧ call.phase.isOver = true
  /-- Its flag is clear when it arrives. -/
  arrives : call.phase = .arriving → (s.act (.advance c)).phaseOf c = .contending
  /-- A lock that is taken is given back. -/
  waits : s.isLockedOut c = true → ∃ k, s.FreedBy c k
  /-- Once it waits, it does so for good if the outer call waits for it. -/
  starves : Behind s w c → ∀ later s', Run (Awaits w c) s later s' →
    s'.phaseOf w = .running ∧ Behind s' w c

/-- A call whose flag is clear goes on to its locked section. -/
theorem contends_of_clear (alive : s.violation = none) (hc : s.calls.get? c = some call)
    (clear : (s.flagOf call).isDone = false) (arriving : call.phase = .arriving) :
    (s.act (.advance c)).phaseOf c = .contending := by
  show (s.advance c).1.phaseOf c = _
  simp only [advance, alive, hc, arriving, load, clear]
  exact phaseOf_setCall ..

/-- A call in its locked section is told exactly when it goes through the target of the outer call,
and comes under its identity. -/
theorem Run.told_iff (run : Run rule s₀ past s) (fresh : s₀.IsFresh) (alive : s.violation = none)
    (meets : s.Meets w c outer call) (encloses : Encloses s w c)
    (possible : s.Possible (.advance c)) (clear : (s.flagOf call).isDone = false)
    (contending : call.phase = .contending) :
    (s.act (.advance c)).phaseOf c = .ended (.failed (.reentrant (s.flagOf call).id)) ↔
      call.target = outer.target ∧ Inherits s w c outer call := by
  have henter : s.act (.advance c) = (s.enter c call).1 := by
    show (s.advance c).1 = _
    simp only [advance, alive, meets.mine, contending]
  rw [← run.identity_iff fresh meets.here encloses meets.mine,
    ← meets.told_iff (run.board_inv fresh) (run.lineage fresh) possible clear contending, henter]
  constructor
  · intro told
    rw [told]
    rfl
  · exact told_enter meets.mine contending

/-- **What becomes of a call that is not told.** -/
theorem Run.strands (run : Run rule s₀ past s) (fresh : s₀.IsFresh) (alive : s.violation = none)
    (meets : s.Meets w c outer call) (encloses : Encloses s w c)
    (running : outer.phase = .running)
    (other : call.target = outer.target → ¬Inherits s w c outer call)
    (clear : (s.flagOf call).isDone = false) : Strands s w c call := by
  refine { phase := ?_, arrives := ?_, waits := (run.locks fresh).freed alive
           starves := fun behind later s' more => ?_ }
  · rcases run.stranded fresh meets encloses other clear with ⟨barred, untold⟩ | behind
    · rcases barred.of_clear clear with early | told | dropped | answered
      · exact Or.inl early
      · rw [told] at untold
        cases untold
      · exact Or.inr (Or.inr (Or.inl dropped))
      · exact Or.inr (Or.inr (Or.inr answered))
    · exact Or.inr (Or.inl behind)
  · exact contends_of_clear alive meets.mine clear
  · exact run.starves fresh (by rw [phaseOf_of_get? meets.here, running]) behind more

/-- **Calls that come under the identity of what encloses them are told**, if both go through one
target. -/
theorem Run.catches (run : Run rule s₀ past s) (fresh : s₀.IsFresh) (alive : s.violation = none)
    (recurs : s.Recurs w c outer call) (inherits : Inherits s w c outer call)
    (clear : (s.flagOf call).isDone = false) : Caught past s c call := by
  obtain ⟨barred, untouched⟩ := run.barred_of (Q := Inherits) fresh
    (fun _ _ _ _ _ _ _ _ _ run recurs alike alike' inherits =>
      ((run.lineage fresh).inherits_act_iff (run.fresh_keys fresh (Nat.le_refl _)) recurs.encloses
        recurs.here recurs.mine alike alike').mp inherits)
    (fun _ _ _ _ _ _ run recurs inherits _ =>
      (run.identity_iff fresh recurs.here recurs.encloses recurs.mine).mpr inherits)
    recurs inherits
  refine { phase := barred.of_clear clear, untouched := untouched
           arrives := contends_of_clear alive recurs.mine clear
           waits := (run.locks fresh).freed alive, told := fun contending possible => ?_ }
  exact recurs.told (run.board_inv fresh) (run.lineage fresh) alive possible clear contending
    ((run.identity_iff fresh recurs.here recurs.encloses recurs.mine).mpr inherits)

end

end RunOnce.Protocol
