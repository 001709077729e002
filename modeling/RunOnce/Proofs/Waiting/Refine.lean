import RunOnce.Proofs.Exclusion.Account
import RunOnce.Proofs.Protocol.Effect
import RunOnce.Proofs.Reentrancy.Report
import RunOnce.Proofs.Waiting.Hall

/-!
# Actions are shifts

**Reading the hall off a state** (`State.hall`). Then every action is a shift of the call that it is
about (`shift_act`), so the invariant of the hall holds after every run (`Run.hall_inv`).
-/

namespace RunOnce

/-- Those who wait for a handle, in order of arrival. Nobody waits on a slot table. -/
def Executor.waitersOf : Executor → FlagId → List Nat
  | .registry r, id => r.waitersOf id
  | .table _, _ => []

end RunOnce

namespace RunOnce.Protocol

open Function

variable {α : Type}

/-- How far a call in a phase is. -/
def Phase.seat : Phase α → Seat
  | .probing | .binding | .arriving | .contending => .early
  | .polling => .polling
  | .running | .storing _ | .publishing _ | .completing _ => .holding
  | .queued signal => .waiting signal.isRaised
  | .marking _ => .settled
  | .releasing _ => .handing []
  | .resuming waiters _ => .handing waiters
  | .concluding => .finishing
  | .ended _ => .ended

theorem Phase.seat_eq_holding {phase : Phase α} :
    phase.seat = .holding ↔ phase.isInFlight = true := by
  cases phase <;> simp [seat, isInFlight]

namespace State

/-- The target that a call goes through, and the handle that it goes for. -/
def place? (s : State α) (c : Nat) : Option (Nat × FlagId) :=
  (s.calls.get? c).map fun call => (call.target, (s.flagOf call).id)

/-- Those who wait for a handle of a target, in order of arrival. -/
def waitersFor (s : State α) (p : Nat × FlagId) : List Nat :=
  ((s.targets.get? p.1).map fun target => target.executor.waitersOf p.2).getD []

/-- Of the calls through a target, those for one handle are for one flag. -/
def TellsApart (s : State α) (t : Nat) : Prop :=
  ∀ c c' call call', s.calls.get? c = some call → s.calls.get? c' = some call' →
    call.target = t → call'.target = t → (s.flagOf call).id = (s.flagOf call').id →
      call.flag = call'.flag

/-- What waiting depends on in a state. -/
def hall (s : State α) : Hall where
  place? := s.place?
  flag c := ((s.calls.get? c).map (·.flag)).getD 0
  seat c := (s.phaseOf c).seat
  queue := s.waitersFor
  isSet := s.isSet

variable {s : State α} {c w t : Nat} {id : FlagId} {call call' : Call α}

theorem place?_of_get? (hc : s.calls.get? c = some call) :
    s.place? c = some (call.target, (s.flagOf call).id) := by
  rw [place?, hc]
  rfl

theorem flag_hall (hc : s.calls.get? c = some call) : s.hall.flag c = call.flag := by
  show ((s.calls.get? c).map (·.flag)).getD 0 = _
  rw [hc]
  rfl

theorem seat_hall (hc : s.calls.get? c = some call) : s.hall.seat c = call.phase.seat :=
  congrArg Phase.seat (phaseOf_of_get? hc)

theorem waitersFor_of_executorOf {executor : Executor} (he : s.executorOf call = some executor)
    (id : FlagId) : s.waitersFor (call.target, id) = executor.waitersOf id := by
  obtain ⟨target, ht, rfl⟩ := target_of_executorOf he
  rw [waitersFor, ht]
  rfl

/-! ## The hall after updates -/

theorem hall_setCall (call' : Call α) (hc : s.calls.get? c = some call)
    (target : call'.target = call.target) (flag : call'.flag = call.flag) :
    (s.setCall c call').hall = s.hall.setSeat c call'.phase.seat := by
  have hget (k : Nat) : (s.setCall c call').calls.get? k =
      if c = k then some call' else s.calls.get? k := Store.get?_set ..
  have hflag : (s.setCall c call').flagOf call' = s.flagOf call := by
    rw [flagOf, flag]
    rfl
  ext1 <;> try rfl
  · funext k
    show ((s.setCall c call').calls.get? k).map _ = (s.calls.get? k).map _
    rw [hget]
    by_cases hk : c = k
    · subst hk
      rw [if_pos rfl, hc, Option.map_some, Option.map_some, hflag, target]
    · rw [if_neg hk]
      rfl
  · funext k
    show (((s.setCall c call').calls.get? k).map (·.flag)).getD 0 =
      ((s.calls.get? k).map (·.flag)).getD 0
    rw [hget]
    by_cases hk : c = k
    · subst hk
      rw [if_pos rfl, hc, Option.map_some, Option.map_some, flag]
    · rw [if_neg hk]
  · funext k
    show ((s.setCall c call').phaseOf k).seat = update s.hall.seat c call'.phase.seat k
    by_cases hk : c = k
    · subst hk
      rw [update_self, phaseOf_setCall]
    · rw [update_of_ne (Ne.symm hk), phaseOf, hget, if_neg hk]
      rfl

theorem hall_completeFlag {f : Nat} {flag : Flag} (hf : s.flags.get? f = some flag) :
    (s.completeFlag f).hall = s.hall.setFlag f := by
  have hget (g : Nat) : (s.completeFlag f).flags.get? g =
      if f = g then (s.flags.get? g).map Flag.complete else s.flags.get? g :=
    Store.get?_modify ..
  have hid (call : Call α) : ((s.completeFlag f).flagOf call).id = (s.flagOf call).id := by
    rw [flagOf, hget]
    by_cases hg : f = call.flag
    · rw [if_pos hg, flagOf, ← hg, hf]
      rfl
    · rw [if_neg hg]
      rfl
  ext1 <;> try rfl
  · funext k
    show (s.calls.get? k).map _ = (s.calls.get? k).map _
    simp only [hid]
  · funext g
    show ((s.completeFlag f).flags.get? g).any Flag.isDone = update s.hall.isSet f true g
    rw [hget]
    by_cases hg : f = g
    · subst hg
      rw [if_pos rfl, update_self, hf]
      rfl
    · rw [if_neg hg, update_of_ne (Ne.symm hg)]
      rfl

/-- The queue for one handle changes, and no other one. -/
theorem hall_setExecutor {target : Target} {executor : Executor} {l : List Nat}
    (ht : s.targets.get? t = some target)
    (queue : ∀ id', executor.waitersOf id' =
      if id = id' then l else target.executor.waitersOf id') :
    (s.setExecutor t executor).hall = s.hall.setQueue (t, id) l := by
  ext1 <;> try rfl
  funext ⟨t', id'⟩
  show (((s.setExecutor t executor).targets.get? t').map fun target =>
    target.executor.waitersOf id').getD [] = update s.hall.queue (t, id) l (t', id')
  have hget : (s.setExecutor t executor).targets.get? t' =
      if t = t' then (s.targets.get? t').map ({ · with executor }) else s.targets.get? t' :=
    Store.get?_modify ..
  rw [hget]
  by_cases hk : t = t'
  · subst hk
    rw [if_pos rfl, ht, Option.map_some, Option.map_some, Option.getD_some, queue]
    by_cases hid : id = id'
    · subst hid
      rw [if_pos rfl, update_self]
    · rw [if_neg hid, update_of_ne fun he => hid (congrArg Prod.snd he).symm]
      show _ = s.waitersFor (t, id')
      rw [waitersFor, ht]
      rfl
  · rw [if_neg hk, update_of_ne fun he => hk (congrArg Prod.fst he).symm]
    rfl

@[simp] theorem hall_identify (s : State α) (call : Call α) :
    (s.identify call).2.hall = s.hall := by
  obtain ⟨n, -, hn⟩ := identify_eq s call
  rw [hn]
  rfl

/-- No queue changes. -/
theorem hall_setExecutor_same {executor executor' : Executor}
    (through : s.executorOf call = some executor)
    (queue : executor'.waitersOf = executor.waitersOf) :
    (s.setExecutor call.target executor').hall = s.hall := by
  obtain ⟨target, ht, rfl⟩ := target_of_executorOf through
  have hqueue (id' : FlagId) : executor'.waitersOf id' =
      if default = id' then target.executor.waitersOf default
      else target.executor.waitersOf id' := by
    rw [queue]
    split
    · subst_vars
      rfl
    · rfl
  rw [hall_setExecutor ht hqueue, ← waitersFor_of_executorOf through]
  ext1 <;> try rfl
  exact update_eq_self ..

/-- Nobody queues on a slot table, whose lock makes no difference. -/
@[simp] theorem hall_unlock (s : State α) (t : Nat) : (s.unlock t).hall = s.hall := by
  have hget (t' : Nat) : (s.unlock t).targets.get? t' = (s.targets.get? t').map fun target =>
      if t = t' then { target with executor := target.executor.unlock } else target := by
    show (s.targets.modify t _).get? t' = _
    rw [Store.get?_modify]
    by_cases hk : t = t'
    · simp [hk]
    · simp [hk]
  have hsame (executor : Executor) (id' : FlagId) :
      executor.unlock.waitersOf id' = executor.waitersOf id' := by
    cases executor <;> rfl
  have hqueue (t' : Nat) (id' : FlagId) :
      (s.unlock t).waitersFor (t', id') = s.waitersFor (t', id') := by
    show (((s.unlock t).targets.get? t').map _).getD [] = ((s.targets.get? t').map _).getD []
    rw [hget, Option.map_map]
    congr 2
    funext target
    by_cases hk : t = t' <;> simp [hk, hsame]
  ext1 <;> try rfl
  exact funext fun p => hqueue p.1 p.2

/-- The hall after a locked section that changes one queue. -/
theorem hall_afterLock {executor : Executor} {l : List Nat} (executor' : Executor)
    (phase : Phase α) (hc : s.calls.get? c = some call)
    (through : s.executorOf call = some executor)
    (queue : ∀ id', executor'.waitersOf id' = if id = id' then l else executor.waitersOf id') :
    (s.afterLock c call executor' phase).hall =
      (s.hall.setSeat c phase.seat).setQueue (call.target, id) l := by
  have hc' : ((s.identify call).2.setExecutor call.target executor').calls.get? c = some call := by
    obtain ⟨n, -, hn⟩ := identify_eq s call
    rw [hn]
    exact hc
  rw [← executorOf_identify] at through
  obtain ⟨target, ht, rfl⟩ := target_of_executorOf through
  rw [afterLock, hall_setCall { call with initiator := _, phase } hc' rfl rfl,
    hall_setExecutor ht queue, hall_identify]
  rfl

/-- The hall after a locked section that changes no queue. -/
theorem hall_afterLock_same {executor : Executor} (executor' : Executor) (phase : Phase α)
    (hc : s.calls.get? c = some call) (through : s.executorOf call = some executor)
    (queue : executor'.waitersOf = executor.waitersOf) :
    (s.afterLock c call executor' phase).hall = s.hall.setSeat c phase.seat := by
  have hc' : ((s.identify call).2.setExecutor call.target executor').calls.get? c = some call := by
    obtain ⟨n, -, hn⟩ := identify_eq s call
    rw [hn]
    exact hc
  rw [← executorOf_identify] at through
  rw [afterLock, hall_setCall { call with initiator := _, phase } hc' rfl rfl,
    hall_setExecutor_same through queue, hall_identify]

/-! ## Who has what in flight -/

/-- What a call has in flight is what it claims on the board. -/
theorem inFlight_iff (h : s.board.Inv) :
    s.InFlight w t id ↔ ∃ who, s.board.claim? w = some (t, id, who) := by
  cases hc : s.calls.get? w with
  | none =>
    have hcard : s.board.card? w = none := congrArg (Option.map Call.card) hc
    simp [InFlight, Board.claim?, hc, hcard]
  | some call =>
    have hflag : s.board.flag? call.flag = some (s.flagOf call) := known_flagOf h hc
    have hholder : call.card.stage.holder? = _ := holder?_stage call
    rw [Board.claim?_of_card (card?_board hc), Board.claimOf, hholder]
    cases hin : call.phase.isInFlight <;>
      simp [InFlight, hc, hin, hflag, Call.card]

theorem inFlight_iff_place? : s.InFlight w t id ↔
    (s.phaseOf w).isInFlight = true ∧ s.place? w = some (t, id) := by
  cases hc : s.calls.get? w with
  | none => simp [InFlight, phaseOf, hc, Phase.isInFlight]
  | some call =>
    rw [phaseOf_of_get? hc, place?_of_get? hc]
    simp only [InFlight, hc, Option.some.injEq, exists_eq_left', Prod.mk.injEq]
    tauto

theorem holds_iff {p : Nat × FlagId} : s.hall.Holds w p ↔ s.InFlight w p.1 p.2 := by
  rw [inFlight_iff_place?]
  exact and_congr Phase.seat_eq_holding Iff.rfl

theorem holds_alone (h : s.board.Inv) {p : Nat × FlagId} {w' : Nat} (hw : s.hall.Holds w p)
    (hw' : s.hall.Holds w' p) : w' = w := by
  obtain ⟨who, hclaim⟩ := (inFlight_iff h).mp (holds_iff.mp hw)
  obtain ⟨who', hclaim'⟩ := (inFlight_iff h).mp (holds_iff.mp hw')
  exact h.unique w' w _ _ _ _ _ hclaim' hclaim rfl

/-- What no entry of the target is for, nobody has in flight. -/
theorem not_holds (h : s.board.Inv) (free : ∀ who, (id, who) ∉ s.board.held t) :
    ¬s.hall.Holds w (t, id) := by
  intro hw
  obtain ⟨who, hclaim⟩ := (inFlight_iff h).mp (holds_iff.mp hw)
  exact free who ((h.mem_held t id who).mpr ⟨w, hclaim⟩)

/-- Whoever an entry is for has it in flight. -/
theorem exists_holds (h : s.board.Inv) {who : Initiator} (hmem : (id, who) ∈ s.board.held t) :
    ∃ w, s.hall.Holds w (t, id) := by
  obtain ⟨w, hclaim⟩ := (h.mem_held t id who).mp hmem
  exact ⟨w, holds_iff.mpr ((inFlight_iff h).mpr ⟨who, hclaim⟩)⟩

/-! ## Steps are shifts -/

theorem isSet_eq (s : State α) (call : Call α) : s.isSet call.flag = (s.flagOf call).isDone := by
  unfold isSet flagOf
  cases s.flags.get? call.flag <;> rfl

theorem hall_setPhase (hc : s.calls.get? c = some call) (phase : Phase α) :
    (s.setPhase c call phase).hall = s.hall.setSeat c phase.seat :=
  hall_setCall { call with phase } hc rfl rfl

theorem still_setPhase {phase : Phase α} (hc : s.calls.get? c = some call)
    (same : phase.seat = call.phase.seat) : Shift s.hall c (s.setPhase c call phase).hall := by
  rw [hall_setPhase hc, Hall.setSeat_eq_self ((seat_hall hc).trans same.symm)]
  exact .still

/-- A call goes on that nobody depends on. -/
theorem goes_setSeat {seat : Seat} (hc : s.calls.get? c = some call)
    (free : call.phase.seat.isFree = true) (plain : seat.isPlain = true)
    (cause : seat = .finishing → (s.flagOf call).isDone = true ∨
      call.phase.seat = .waiting true ∨ call.phase.seat = .handing []) :
    Shift s.hall c (s.hall.setSeat c seat) := by
  have hset : s.hall.isSet (s.hall.flag c) = (s.flagOf call).isDone := by
    rw [flag_hall hc]
    exact isSet_eq s call
  rw [← seat_hall hc] at free cause
  rw [← hset] at cause
  exact .goes (place?_of_get? hc) free plain cause

/-- A call that nobody depends on is over. -/
theorem leaves_setPhase {outcome : Outcome α} (hc : s.calls.get? c = some call)
    (free : call.phase.seat.isFree = true) :
    Shift s.hall c (s.setPhase c call (.ended outcome)).hall := by
  rw [hall_setPhase hc]
  exact goes_setSeat hc free rfl fun he => by cases he

/-- A call goes on to its end. -/
theorem concludes_setPhase (hc : s.calls.get? c = some call)
    (free : call.phase.seat.isFree = true) (cause : (s.flagOf call).isDone = true ∨
      call.phase.seat = .waiting true ∨ call.phase.seat = .handing []) :
    Shift s.hall c (s.setPhase c call .concluding).hall := by
  rw [hall_setPhase hc]
  exact goes_setSeat hc free rfl fun _ => cause

/-- A call queues for what another one has in flight. -/
theorem shift_joins {r : Registry Nat} {op : Operation Nat} {signal : Signal} (h : s.board.Inv)
    (hc : s.calls.get? c = some call) (phase : call.phase = .contending)
    (through : s.executorOf call = some (.registry r))
    (found : r.find? (s.flagOf call).id = some op) (unraised : signal.isRaised = false) :
    Shift s.hall c (s.afterLock c call
      (.registry ⟨Registry.enqueue (s.flagOf call).id c r.operations⟩) (.queued signal)).hall := by
  have hqueue : r.waitersOf (s.flagOf call).id =
      s.hall.queue (call.target, (s.flagOf call).id) :=
    (waitersFor_of_executorOf through _).symm
  obtain ⟨w, holder⟩ := exists_holds (t := call.target) h (by
    rw [held_board through]
    exact Registry.mem_held_of_find? found)
  have hlock := hall_afterLock (.registry ⟨Registry.enqueue (s.flagOf call).id c r.operations⟩)
    (.queued signal) hc through (Registry.waitersOf_enqueue found c)
  rw [hlock, hqueue, Phase.seat, unraised]
  exact .joins (place?_of_get? hc) ((seat_hall hc).trans (by rw [phase]; rfl)) holder

/-- A call starts an operation of a registry. -/
theorem shift_wins {r : Registry Nat} (h : s.board.Inv) (hc : s.calls.get? c = some call)
    (phase : call.phase = .contending) (through : s.executorOf call = some (.registry r))
    (free : r.find? (s.flagOf call).id = none) :
    Shift s.hall c (s.afterLock c call (.registry ⟨r.operations ++
      [{ flag := (s.flagOf call).id, initiator := (s.identify call).1 }]⟩) .running).hall := by
  have hfree : ∀ who, ((s.flagOf call).id, who) ∉ s.board.held call.target := by
    rw [held_board through]
    exact Registry.find?_eq_none.mp free
  have hqueue : (Executor.registry ⟨r.operations ++
      [{ flag := (s.flagOf call).id, initiator := (s.identify call).1 }]⟩).waitersOf =
      (Executor.registry r).waitersOf := by
    funext id
    exact Registry.waitersOf_push r _ rfl id
  rw [hall_afterLock_same _ _ hc through hqueue]
  exact .wins (place?_of_get? hc) ((seat_hall hc).trans (by rw [phase]; rfl))
    fun w => not_holds h hfree

/-- A completion finds its operation, because the call has it in flight. -/
theorem retire_ne_none {ending : Ending} {r : Registry Nat} (h : s.board.Inv)
    (hc : s.calls.get? c = some call) (phase : call.phase = .completing ending)
    (through : s.executorOf call = some (.registry r)) : r.retire (s.flagOf call).id ≠ none := by
  intro missing
  have hclaim := claim?_board h hc (by rw [holder?_stage, phase]; rfl)
  have hmem := (h.mem_held _ _ _).mpr ⟨c, hclaim⟩
  rw [held_board through] at hmem
  exact Registry.retire_eq_none missing _ hmem

/-- A completion through a registry. -/
theorem shift_retires {ending : Ending} {r r' : Registry Nat} {waiters : List Nat}
    (h : s.board.Inv) (hc : s.calls.get? c = some call) (phase : call.phase = .completing ending)
    (through : s.executorOf call = some (.registry r))
    (taken : r.retire (s.flagOf call).id = some (waiters, r')) :
    Shift s.hall c (((s.completeFlag call.flag).setExecutor call.target
      (.registry r')).setPhase c call (.resuming waiters ending)).hall := by
  have hdistinct : (r.held.map (·.1)).Nodup := by
    have hheld : s.board.held call.target = r.held := held_board through
    rw [← hheld]
    exact h.distinct call.target
  obtain ⟨rfl, hqueue⟩ := Registry.waitersOf_retire hdistinct taken
  obtain ⟨target, ht, hexec⟩ := target_of_executorOf through
  have hq (id' : FlagId) : (Executor.registry r').waitersOf id' =
      if (s.flagOf call).id = id' then [] else target.executor.waitersOf id' := by
    rw [hexec]
    exact hqueue id'
  have hwaiters : r.waitersOf (s.flagOf call).id =
      s.hall.queue (call.target, (s.flagOf call).id) :=
    (waitersFor_of_executorOf through _).symm
  have holds : s.hall.Holds c (call.target, (s.flagOf call).id) :=
    holds_iff.mpr ⟨call, hc, rfl, rfl, by rw [phase]; rfl⟩
  have hknown := known_flagOf h hc
  have hhall := hall_setPhase (c := c)
    (s := (s.completeFlag call.flag).setExecutor call.target (.registry r')) hc
    (.resuming (r.waitersOf (s.flagOf call).id) ending)
  rw [hall_setExecutor (s := s.completeFlag call.flag) ht hq, hall_completeFlag hknown,
    hwaiters] at hhall
  rw [hwaiters, hhall, ← flag_hall hc]
  exact .retires holds fun w hw => holds_alone h holds hw

/-- A completion through a slot table, on which nobody waits. -/
theorem shift_settles {ending : Ending} {t : SlotTable} (hc : s.calls.get? c = some call)
    (phase : call.phase = .completing ending) (through : s.executorOf call = some (.table t)) :
    Shift s.hall c (((s.markSlot t (s.flagOf call).id slotDone).setExecutor call.target
      (.table (t.lock (s.flagOf call).id))).setPhase c call (.marking ending)).hall := by
  have hnobody : s.hall.queue (call.target, (s.flagOf call).id) = [] :=
    waitersFor_of_executorOf through _
  have holds : s.hall.Holds c (call.target, (s.flagOf call).id) :=
    holds_iff.mpr ⟨call, hc, rfl, rfl, by rw [phase]; rfl⟩
  have hsame : ((s.markSlot t (s.flagOf call).id slotDone).setExecutor call.target
      (.table (t.lock (s.flagOf call).id))).hall = s.hall :=
    hall_setExecutor_same (s := s.markSlot t (s.flagOf call).id slotDone) through rfl
  rw [hall_setPhase (s := (s.markSlot t (s.flagOf call).id slotDone).setExecutor call.target
    (.table (t.lock (s.flagOf call).id))) hc, hsame]
  exact .settles holds hnobody

/-- A call that has settled its slot sets its flag. -/
theorem shift_marks {ending : Ending} (h : s.board.Inv) (hc : s.calls.get? c = some call)
    (phase : call.phase = .marking ending) :
    Shift s.hall c ((s.completeFlag call.flag).setPhase c call (.releasing ending)).hall := by
  rw [hall_setPhase (s := s.completeFlag call.flag) hc, hall_completeFlag (known_flagOf h hc),
    ← flag_hall hc]
  exact .marks (place?_of_get? hc) ((seat_hall hc).trans (by rw [phase]; rfl))

theorem isRaised_signalFor (flavour : Flavour) : (signalFor flavour).isRaised = false := by
  cases flavour <;> rfl

theorem isRaised_raise (signal : Signal) : signal.raise.isRaised = true := by
  cases signal <;> rfl

theorem hall_handOver (s : State α) (k : Nat) : (s.handOver k).1.hall = s.hall.raise k := by
  have hother (hs : (s.hall.seat k).raise = s.hall.seat k) : s.hall = s.hall.raise k :=
    (Hall.setSeat_eq_self hs.symm).symm
  cases hk : s.calls.get? k with
  | none =>
    simp only [handOver, hk]
    refine hother ?_
    show (s.phaseOf k).seat.raise = (s.phaseOf k).seat
    rw [phaseOf, hk]
    rfl
  | some call =>
    have hseat := seat_hall hk
    cases hp : call.phase with
    | queued signal =>
      simp only [handOver, hk, hp]
      rw [hall_setPhase hk, Hall.raise, hseat, hp]
      simp [Phase.seat, Seat.raise, isRaised_raise]
    | _ =>
      simp only [handOver, hk, hp]
      refine hother ?_
      rw [hseat, hp]
      rfl

/-- Who holds what a call goes for through a slot table has its slot running. -/
theorem not_holds_of_idle {t : SlotTable} (h : s.board.Inv)
    (through : s.executorOf call = some (.table t))
    (idle : t.state? s.image.directory (s.flagOf call).id = some slotIdle) :
    ¬s.hall.Holds w (call.target, (s.flagOf call).id) := by
  intro hw
  obtain ⟨who, hclaim⟩ := (inFlight_iff h).mp (holds_iff.mp hw)
  obtain ⟨-, hrun⟩ := h.running _ _ _ _ _ _ hclaim (table?_board through)
  rw [(slot?_board h through idle).2] at hrun
  cases hrun

/-- **A step of a call is a shift.** -/
theorem shift_effect {s' : State α} {notices : List (Notice α)} (h : s.board.Inv)
    (hc : s.calls.get? c = some call) (effect : Effect s c call s' notices) :
    Shift s.hall c s'.hall := by
  cases effect with
  | rests => exact .still
  | lacks => exact .still
  | breaks => exact .still
  | fails => exact .still
  | skips phase => exact still_setPhase hc (by rcases phase with hp | hp <;> rw [hp] <;> rfl)
  | asks phase => exact still_setPhase hc (by rw [phase]; rfl)
  | @ties key cell bound phase =>
    exact still_setPhase (s := { s with cells := s.cells.set key bound }) hc (by rw [phase]; rfl)
  | contends phase => exact still_setPhase hc (by rw [phase]; rfl)
  | @parks w phase clear =>
    refine still_setPhase hc ?_
    rw [phase]
    simp [Phase.seat, Signal.isRaised, Wakeup.park, clear]
  | returns phase => exact still_setPhase hc (by rcases phase with hp | hp <;> rw [hp] <;> rfl)
  | @reserves value key cell claimed phase =>
    exact still_setPhase (s := { s with cells := s.cells.set key claimed }) hc (by rw [phase]; rfl)
  | discards phase => exact still_setPhase hc (by rw [phase]; rfl)
  | @publishes value key phase =>
    exact still_setPhase (s := { s with cells := s.cells.modify key (·.publish value) }) hc
      (by rw [phase]; rfl)
  | finds phase => exact leaves_setPhase hc (by rw [phase]; rfl)
  | strays phase => exact leaves_setPhase hc (by rw [phase]; rfl)
  | leaves phase => exact leaves_setPhase hc (by rw [phase]; rfl)
  | concludes phase => exact leaves_setPhase hc (by rw [phase]; rfl)
  | sees phase set => exact concludes_setPhase hc (by rw [phase]; rfl) (Or.inl set)
  | @resumes signal phase raised =>
    refine concludes_setPhase hc (by rw [phase]; rfl) (Or.inr (Or.inl ?_))
    rw [phase, Phase.seat, raised]
  | goesOn phase =>
    exact concludes_setPhase hc (by rw [phase]; rfl) (Or.inr (Or.inr (by rw [phase]; rfl)))
  | late phase through set =>
    rw [hall_afterLock_same _ _ hc through rfl]
    exact goes_setSeat hc (by rw [phase]; rfl) rfl fun _ => Or.inl set
  | meets phase through =>
    rw [hall_afterLock_same _ _ hc through rfl]
    exact goes_setSeat hc (by rw [phase]; rfl) rfl fun he => by cases he
  | recurs phase through =>
    rw [hall_afterLock_same _ _ hc through rfl]
    exact goes_setSeat hc (by rw [phase]; rfl) rfl fun he => by cases he
  | loses phase through =>
    rw [hall_afterLock_same _ _ hc through rfl]
    exact goes_setSeat hc (by rw [phase]; rfl) rfl fun he => by cases he
  | joins phase through _ found =>
    exact shift_joins h hc phase through found (isRaised_signalFor call.flavour)
  | wins phase through _ free => exact shift_wins h hc phase through free
  | @claims t phase through other idle =>
    have hhall := hall_afterLock_same (.table { t with
      claims := t.claims ++ [((s.flagOf call).id, (s.identify call).1)] }) .running hc through rfl
    show Shift s.hall c (s.afterLock c call _ .running).hall
    rw [hhall]
    exact .wins (place?_of_get? hc) ((seat_hall hc).trans (by rw [phase]; rfl))
      fun w => not_holds_of_idle h through idle
  | @follows phase done =>
    rw [hall_setPhase (s := s.completeFlag call.flag) hc, hall_completeFlag (known_flagOf h hc),
      ← flag_hall hc]
    exact .observes (place?_of_get? hc) ((seat_hall hc).trans (by rw [phase]; rfl))
  | misses phase through missing => exact absurd missing (retire_ne_none h hc phase through)
  | retires phase through taken => exact shift_retires h hc phase through taken
  | settles phase through => exact shift_settles hc phase through
  | marks phase => exact shift_marks h hc phase
  | @releases ending phase =>
    have hseat : (Phase.resuming [] ending : Phase α).seat = call.phase.seat := by rw [phase]; rfl
    have hstill := still_setPhase (s := s.unlock call.target) hc hseat
    rwa [hall_unlock] at hstill
  | @hands waiter rest ending phase =>
    rw [hall_handOver, hall_setPhase hc]
    exact .hands ((seat_hall hc).trans (by rw [phase]; rfl))

/-! ## Actions are shifts -/

/-- The hall with a call that is issued. -/
theorem hall_issue (early : call.phase.seat = .early) :
    (({ s with nextKey := s.nextKey + 1 } : State α).setCall s.nextKey call).hall =
      s.hall.arrive s.nextKey (call.target, (s.flagOf call).id) call.flag := by
  have hget (k : Nat) : (s.calls.set s.nextKey call).get? k =
      if s.nextKey = k then some call else s.calls.get? k := Store.get?_set ..
  ext1 <;> try rfl
  · funext k
    show ((s.calls.set s.nextKey call).get? k).map _ = update s.hall.place? s.nextKey (some _) k
    rw [hget]
    by_cases hk : s.nextKey = k
    · subst hk
      rw [if_pos rfl, update_self]
      rfl
    · rw [if_neg hk, update_of_ne (Ne.symm hk)]
      rfl
  · funext k
    show (((s.calls.set s.nextKey call).get? k).map (·.flag)).getD 0 =
      update s.hall.flag s.nextKey call.flag k
    rw [hget]
    by_cases hk : s.nextKey = k
    · subst hk
      rw [if_pos rfl, update_self]
      rfl
    · rw [if_neg hk, update_of_ne (Ne.symm hk)]
      rfl
  · funext k
    show (State.phaseOf _ k).seat = update s.hall.seat s.nextKey .early k
    by_cases hk : s.nextKey = k
    · subst hk
      rw [update_self, phaseOf_setCall, early]
    · rw [update_of_ne (Ne.symm hk), phaseOf_setCall_of_ne _ (Ne.symm hk)]
      rfl

theorem seat_of_absent (absent : s.calls.get? c = none) : s.hall.seat c = .ended := by
  show (s.phaseOf c).seat = .ended
  rw [phaseOf, absent]
  rfl

theorem place?_of_absent (absent : s.calls.get? c = none) : s.hall.place? c = none :=
  congrArg (Option.map _) absent

/-- **Every action is a shift of the call that it is about.** -/
theorem shift_act {a : Action α} (h : s.board.Inv) (alive : s.violation = none)
    (possible : s.Possible a) : Shift s.hall (a.call s) (s.act a).hall := by
  have impact := impact_act alive possible
  generalize s.act a = s' at impact
  cases impact with
  | idles => exact .still
  | issues call new =>
    have absent := absent_nextKey h
    have early : call.phase.seat = .early := by
      rcases new.phase with hp | hp <;> rw [hp] <;> rfl
    rw [hall_issue early]
    exact .arrives _ _ (place?_of_absent absent) (seat_of_absent absent)
  | steps known effect => exact shift_effect h known effect
  | yields value known running => exact still_setPhase known (by rw [running]; rfl)
  | @ends _ c call ending subject known running =>
    rw [Action.call, subject]
    exact still_setPhase known (by rw [running]; rfl)
  | @drops c call known resting waits =>
    refine leaves_setPhase known ?_
    cases hp : call.phase <;> simp_all [Phase.isResting, Phase.seat, Seat.isFree]

/-- Before anything happens nobody waits. -/
theorem hall_inv_fresh (fresh : s.IsFresh) : s.hall.Inv := by
  have hseat (c : Nat) : s.hall.seat c = .ended := seat_of_absent (fresh.calls c)
  have hqueue (p : Nat × FlagId) : s.hall.queue p = [] := by
    show ((s.targets.get? p.1).map fun target => target.executor.waitersOf p.2).getD [] = []
    cases ht : s.targets.get? p.1 with
    | none => rfl
    | some target =>
      show target.executor.waitersOf p.2 = []
      cases he : target.executor with
      | registry r =>
        refine Registry.waitersOf_of_none (Registry.find?_eq_none.mpr fun who hmem => ?_)
        obtain ⟨op, hop, -⟩ := Registry.mem_held.mp hmem
        rw [fresh.registries _ target r ht he] at hop
        cases hop
      | table table => rfl
  refine { member := ?_, held := ?_, handing := ?_, found := ?_, released := ?_ } <;>
    simp [hseat, hqueue]

end State

/-- **The invariant of the hall holds after every run.** -/
theorem Run.hall_inv {rule : State α → Action α → Prop} {s₀ s : State α} {past : List (Moment α)}
    (run : Run rule s₀ past s) (fresh : s₀.IsFresh) : s.hall.Inv := by
  induction run with
  | start => exact State.hall_inv_fresh fresh
  | step run alive possible _ ih =>
    exact ih.shift (State.shift_act (run.board_inv fresh) alive possible)

end RunOnce.Protocol
