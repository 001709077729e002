import RunOnce.Proofs.Waiting.Refine

/-!
# Waiters are handed control in the order in which they came

**The history.** `waited` are the calls that have started to wait, `joined` are those that have
started to wait for one call, and `handed` are those to whom that call has handed control, each in
order.

**Theorem (`waiters_in_order`).** After every run these lists fit together with the queues
(`Orderly`). A call that waits has joined one operation. As long as an operation is in flight, its
queue is the list of those who have joined it. Its completion sets the flag and takes this list, and
control is handed to one after another, whether the futures of others are still there or not. All of
them have been served when the completion is over.

The core is one equation for each call (`Run.joined_eq`): those who have joined it are those to whom
it has handed control, followed by those who are still ahead of it.
-/

namespace RunOnce.Protocol

variable {α : Type}

/-- The waiters that are left to be handed control. -/
def Phase.left : Phase α → List Nat
  | .resuming waiters _ => waiters
  | _ => []

namespace State

/-- Whether a call has in flight what another one goes for. -/
def guards (s : State α) (w k : Nat) : Bool :=
  (s.phaseOf w).isInFlight && decide (s.place? w = s.place? k)

/-- The waiters that a call has still to hand control to, in order: the queue of its operation, and
after its completion those who are left. -/
def ahead (s : State α) (w : Nat) : List Nat :=
  if (s.phaseOf w).isInFlight then ((s.place? w).map s.waitersFor).getD [] else (s.phaseOf w).left

end State

namespace Moment

/-- The call that starts to wait. -/
def waits? (m : Moment α) : Option Nat :=
  m.action.subject?.filter fun c => !(m.state.phaseOf c).isQueued && (m.next.phaseOf c).isQueued

/-- The call that starts to wait for what `w` has in flight. -/
def joins? (m : Moment α) (w : Nat) : Option Nat := m.waits?.filter (m.state.guards w)

/-- The waiter to whom `w` hands control: the first one, once only the others are left. -/
def hands? (m : Moment α) (w : Nat) : Option Nat :=
  match (m.state.phaseOf w).left with
  | [] => none
  | k :: rest => if (m.next.phaseOf w).left = rest then some k else none

end Moment

/-- The calls that have started to wait, in order. -/
def waited (past : List (Moment α)) : List Nat := past.filterMap Moment.waits?

/-- The calls that have started to wait for what `w` had in flight, in order. -/
def joined (past : List (Moment α)) (w : Nat) : List Nat := past.filterMap (·.joins? w)

/-- The calls to whom `w` has handed control, in order. -/
def handed (past : List (Moment α)) (w : Nat) : List Nat := past.filterMap (·.hands? w)

theorem filterMap_concat {β : Type} (f : Moment α → Option β) (past : List (Moment α))
    (m : Moment α) : (past ++ [m]).filterMap f = past.filterMap f ++ (f m).toList := by
  cases h : f m <;> simp [h]

theorem waited_concat (past : List (Moment α)) (m : Moment α) :
    waited (past ++ [m]) = waited past ++ m.waits?.toList := filterMap_concat ..

theorem joined_concat (past : List (Moment α)) (m : Moment α) (w : Nat) :
    joined (past ++ [m]) w = joined past w ++ (m.joins? w).toList := filterMap_concat ..

theorem handed_concat (past : List (Moment α)) (m : Moment α) (w : Nat) :
    handed (past ++ [m]) w = handed past w ++ (m.hands? w).toList := filterMap_concat ..

section

variable {s s₀ : State α} {past : List (Moment α)} {a : Action α} {rule : State α → Action α → Prop}
  {k w : Nat}

open State

/-! ## The history of the hall -/

theorem isWaiting_hall (s : State α) (c : Nat) :
    (s.hall.seat c).isWaiting = (s.phaseOf c).isQueued := by
  show (s.phaseOf c).seat.isWaiting = _
  cases s.phaseOf c <;> rfl

theorem left_hall (s : State α) (w : Nat) : (s.hall.seat w).left = (s.phaseOf w).left := by
  show (s.phaseOf w).seat.left = _
  cases s.phaseOf w <;> rfl

theorem guards_hall (s : State α) (w k : Nat) : s.hall.guards w k = s.guards w k := by
  have hseat : decide (s.hall.seat w = .holding) = (s.phaseOf w).isInFlight := by
    rw [Bool.eq_iff_iff, decide_eq_true_iff]
    exact Phase.seat_eq_holding
  rw [Hall.guards, hseat]
  rfl

theorem ahead_hall (s : State α) (w : Nat) : s.hall.ahead w = s.ahead w := by
  unfold State.ahead
  by_cases hin : (s.phaseOf w).isInFlight = true
  · rw [if_pos hin, Hall.ahead, show s.hall.seat w = .holding from Phase.seat_eq_holding.mpr hin]
    rfl
  · rw [if_neg hin, Hall.ahead_of_seat (mt Phase.seat_eq_holding.mp hin), left_hall]

theorem hands?_hall (s : State α) (a : Action α) (w : Nat) :
    s.hall.hands? (s.act a).hall w = Moment.hands? ⟨s, a⟩ w := by
  rw [Hall.hands?, Moment.hands?, left_hall, left_hall]
  rfl

/-- A call that is issued does not wait yet. -/
theorem isQueued_issue {call : Call α} (new : call.IsNew s) :
    ((s.act (.issue call)).phaseOf s.nextKey).isQueued = false := by
  have hphase : (s.act (.issue call)).phaseOf s.nextKey = call.phase := phaseOf_setCall ..
  rw [hphase]
  rcases new.phase with hp | hp <;> rw [hp] <;> rfl

theorem waits?_eq (possible : s.Possible a) : Moment.waits? ⟨s, a⟩ =
    if !(s.hall.seat (a.call s)).isWaiting && ((s.act a).hall.seat (a.call s)).isWaiting
    then some (a.call s) else none := by
  rw [isWaiting_hall, isWaiting_hall]
  cases a with
  | issue call =>
    have hnow : ((s.act (.issue call)).phaseOf ((Action.issue call).call s)).isQueued = false :=
      isQueued_issue possible
    rw [hnow]
    simp [Moment.waits?, Action.subject?]
  | advance c => exact Option.filter_some ..
  | finish c ending value => exact Option.filter_some ..
  | abandon c => exact Option.filter_some ..

theorem joins?_hall (possible : s.Possible a) (w : Nat) :
    s.hall.joins? (s.act a).hall (a.call s) w = Moment.joins? ⟨s, a⟩ w := by
  rw [Moment.joins?, waits?_eq possible, Hall.joins?, guards_hall]
  cases (s.hall.seat (a.call s)).isWaiting <;>
    cases ((s.act a).hall.seat (a.call s)).isWaiting <;> simp [Option.filter]

/-- Who starts to wait has not entered before, and somebody has in flight what it goes for. -/
theorem of_waits? (inv : s.board.Inv) (alive : s.violation = none) (possible : s.Possible a)
    (waits : Moment.waits? ⟨s, a⟩ = some k) : a.call s = k ∧ s.hall.seat k = .early ∧
      ((s.act a).hall.seat k).isWaiting = true ∧
        ∃ p v, s.hall.place? k = some p ∧ s.hall.Holds v p := by
  rw [waits?_eq possible] at waits
  split at waits
  · rename_i hwaits
    cases waits
    obtain ⟨before, after⟩ := Bool.and_eq_true_iff.mp hwaits
    obtain ⟨early, p, v, here, holder, -⟩ :=
      (shift_act inv alive possible).of_waits (by simpa using before) after
    exact ⟨rfl, early, after, p, v, here, holder⟩
  · cases waits

theorem mem_joins? (hk : Moment.joins? ⟨s, a⟩ w = some k) :
    Moment.waits? ⟨s, a⟩ = some k ∧ s.guards w k = true := Option.mem_filter_iff.mp hk

/-! ## Runs -/

/-- **Those who have joined a call** are those to whom it has handed control and those who are still
ahead of it. -/
theorem Run.joined_eq (run : Run rule s₀ past s) (fresh : s₀.IsFresh) (w : Nat) :
    joined past w = handed past w ++ s.ahead w := by
  induction run with
  | start =>
    rw [← ahead_hall, Hall.ahead_of_isFree (by rw [seat_of_absent (fresh.calls w)]; rfl)]
    rfl
  | @step past s a run alive possible _ ih =>
    have hshift := (shift_act (run.board_inv fresh) alive possible).ahead (run.hall_inv fresh) w
    rw [ahead_hall, ahead_hall, joins?_hall possible, hands?_hall] at hshift
    rw [joined_concat, handed_concat, ih, List.append_assoc, hshift, List.append_assoc]

/-- A call that has started to wait never has anything in flight. -/
theorem Run.late_of_waited (run : Run rule s₀ past s) (fresh : s₀.IsFresh) :
    ∀ k ∈ waited past, ∃ p, s.place? k = some p ∧ (s.hall.seat k).isLate = true := by
  induction run with
  | start => exact fun _ hk => absurd hk List.not_mem_nil
  | @step past s a run alive possible _ ih =>
    have inv := run.board_inv fresh
    have shift := shift_act inv alive possible
    intro k hk
    rw [waited_concat, List.mem_append, Option.mem_toList] at hk
    rcases hk with hk | hk
    · obtain ⟨p, hp, late⟩ := ih k hk
      exact ⟨p, shift.place?_eq hp, shift.isLate hp late⟩
    · obtain ⟨-, -, after, p, -, hp, -⟩ := of_waits? inv alive possible hk
      exact ⟨p, shift.place?_eq hp, Seat.isLate_of_isWaiting after⟩

/-- Who starts to wait has never done so before. -/
theorem Run.not_waited (run : Run rule s₀ past s) (fresh : s₀.IsFresh) (alive : s.violation = none)
    (possible : s.Possible a) (waits : Moment.waits? ⟨s, a⟩ = some k) : k ∉ waited past := by
  intro hk
  obtain ⟨-, early, -⟩ := of_waits? (run.board_inv fresh) alive possible waits
  obtain ⟨p, -, late⟩ := run.late_of_waited fresh k hk
  rw [early] at late
  cases late

theorem Run.waited_nodup (run : Run rule s₀ past s) (fresh : s₀.IsFresh) : (waited past).Nodup := by
  induction run with
  | start => exact List.nodup_nil
  | @step past s a run alive possible _ ih =>
    rw [waited_concat]
    cases hw : Moment.waits? ⟨s, a⟩ with
    | none => simpa using ih
    | some k =>
      exact ih.append (List.nodup_singleton k)
        (List.disjoint_singleton.mpr (run.not_waited fresh alive possible hw))

/-- Those who have joined a call have done so in the order in which they came. -/
theorem joined_sublist (past : List (Moment α)) (w : Nat) :
    (joined past w).Sublist (waited past) := by
  induction past with
  | nil => exact .slnil
  | cons m rest ih =>
    unfold joined waited at ih ⊢
    rw [List.filterMap_cons, List.filterMap_cons, Moment.joins?]
    cases m.waits? with
    | none => exact ih
    | some k =>
      by_cases hk : m.state.guards w k = true
      · simpa [Option.filter, hk] using ih.cons_cons k
      · simpa [Option.filter, hk] using ih.cons k

/-- A call that waits has joined one call. -/
theorem Run.joined_one (run : Run rule s₀ past s) (fresh : s₀.IsFresh) :
    ∀ k ∈ waited past, ∃! w, k ∈ joined past w := by
  induction run with
  | start => exact fun _ hk => absurd hk List.not_mem_nil
  | @step past s a run alive possible _ ih =>
    have inv := run.board_inv fresh
    intro k hk
    rw [waited_concat, List.mem_append, Option.mem_toList] at hk
    have hiff (w : Nat) : k ∈ joined (past ++ [⟨s, a⟩]) w ↔
        k ∈ joined past w ∨ Moment.joins? ⟨s, a⟩ w = some k := by
      rw [joined_concat, List.mem_append, Option.mem_toList]
    simp only [hiff]
    rcases hk with hk | hk
    · obtain ⟨w, hw, hunique⟩ := ih k hk
      refine ⟨w, Or.inl hw, fun v hv => ?_⟩
      rcases hv with hv | hv
      · exact hunique v hv
      · exact absurd hk (run.not_waited fresh alive possible (mem_joins? hv).1)
    · obtain ⟨-, -, -, p, w, hp, holder⟩ := of_waits? inv alive possible hk
      have hguards (v : Nat) : s.guards v k = true ↔ s.hall.Holds v p := by
        rw [← guards_hall, Hall.guards, hp]
        simp [Hall.Holds]
      refine ⟨w, Or.inr (Option.mem_filter_iff.mpr ⟨hk, (hguards w).mpr holder⟩), fun v hv => ?_⟩
      rcases hv with hv | hv
      · exact absurd ((joined_sublist past v).subset hv) (run.not_waited fresh alive possible hk)
      · exact holds_alone inv holder ((hguards v).mp (mem_joins? hv).2)

/-- Who has joined a call goes for what that call went for. -/
theorem Run.joined_same (run : Run rule s₀ past s) (fresh : s₀.IsFresh) (w : Nat) :
    ∀ k ∈ joined past w, ∃ p, s.place? k = some p ∧ s.place? w = some p := by
  induction run with
  | start => exact fun _ hk => absurd hk List.not_mem_nil
  | @step past s a run alive possible _ ih =>
    have inv := run.board_inv fresh
    have shift := shift_act inv alive possible
    intro k hk
    rw [joined_concat, List.mem_append, Option.mem_toList] at hk
    rcases hk with hk | hk
    · obtain ⟨p, hp, hw⟩ := ih k hk
      exact ⟨p, shift.place?_eq hp, shift.place?_eq hw⟩
    · obtain ⟨waits, guards⟩ := mem_joins? hk
      obtain ⟨-, -, -, p, -, hp, -⟩ := of_waits? inv alive possible waits
      have hw : s.hall.place? w = some p := by
        rw [← hp]
        exact of_decide_eq_true (Bool.and_eq_true_iff.mp guards).2
      exact ⟨p, shift.place?_eq hp, shift.place?_eq hw⟩

/-- A call hands control to nobody before its own operation is over. -/
theorem Run.handed_eq_nil (run : Run rule s₀ past s) (fresh : s₀.IsFresh)
    (inside : (s.phaseOf w).isInFlight = true) : handed past w = [] := by
  have hlate : handed past w ≠ [] → ∃ p, s.place? w = some p ∧ (s.hall.seat w).isLate = true := by
    clear inside
    induction run with
    | start => exact fun hne => absurd rfl hne
    | @step past s a run alive possible _ ih =>
      have shift := shift_act (run.board_inv fresh) alive possible
      intro hne
      rw [handed_concat] at hne
      cases hh : Moment.hands? ⟨s, a⟩ w with
      | none =>
        rw [hh] at hne
        obtain ⟨p, hp, late⟩ := ih (by simpa using hne)
        exact ⟨p, shift.place?_eq hp, shift.isLate hp late⟩
      | some k =>
        rw [← hands?_hall] at hh
        obtain ⟨rfl, rest, handing, -⟩ := shift.of_hands hh
        obtain ⟨-, p, hp, -⟩ := (run.hall_inv fresh).handing _ _ handing
        exact ⟨p, shift.place?_eq hp, shift.isLate hp (by rw [handing]; rfl)⟩
  by_contra hne
  obtain ⟨-, -, late⟩ := hlate hne
  rw [show s.hall.seat w = .holding from Phase.seat_eq_holding.mpr inside] at late
  cases late

/-! ## One step -/

theorem holds_of_inFlight {p : Nat × FlagId} (hw : s.InFlight w p.1 p.2) : s.hall.Holds w p :=
  holds_iff.mpr hw

theorem ahead_of_inFlight {p : Nat × FlagId} (hw : s.InFlight w p.1 p.2) :
    s.ahead w = s.waitersFor p := by
  rw [← ahead_hall]
  exact Hall.ahead_of_holds (holds_of_inFlight hw)

theorem ahead_of_resuming {waiters : List Nat} {ending : Ending}
    (phase : s.phaseOf w = .resuming waiters ending) : s.ahead w = waiters := by
  rw [State.ahead, phase]
  rfl

theorem hands?_of_inFlight {p : Nat × FlagId} (hw : s.InFlight w p.1 p.2) :
    Moment.hands? ⟨s, a⟩ w = none := by
  rw [← hands?_hall]
  exact Hall.hands?_of_nil (by rw [(holds_of_inFlight hw).1]; rfl)

/-- Only a call for the same handle changes the queue of an operation in flight, and it comes
last. -/
theorem queue_grows {p : Nat × FlagId} (inv : s.board.Inv) (hall : s.hall.Inv)
    (alive : s.violation = none) (possible : s.Possible a) (before : s.InFlight w p.1 p.2)
    (after : (s.act a).InFlight w p.1 p.2) :
    (s.act a).waitersFor p = s.waitersFor p ∨ ∃ k, a.subject? = some k ∧ s.place? k = some p ∧
      (s.act a).waitersFor p = s.waitersFor p ++ [k] := by
  have hshift := (shift_act inv alive possible).ahead hall w
  rw [ahead_hall, ahead_hall, joins?_hall possible, hands?_hall, hands?_of_inFlight before,
    ahead_of_inFlight before, ahead_of_inFlight after] at hshift
  have hsame : (s.act a).waitersFor p = s.waitersFor p ++ (Moment.joins? ⟨s, a⟩ w).toList :=
    hshift.symm
  cases hj : Moment.joins? ⟨s, a⟩ w with
  | none => exact Or.inl (by simpa [hj] using hsame)
  | some k =>
    obtain ⟨waits, guards⟩ := mem_joins? hj
    refine Or.inr ⟨k, (Option.mem_filter_iff.mp waits).1, ?_, by rw [hsame, hj]; rfl⟩
    rw [← of_decide_eq_true (Bool.and_eq_true_iff.mp guards).2]
    exact (holds_of_inFlight before).2

/-- A completion takes the whole queue. -/
theorem queue_taken {p : Nat × FlagId} {waiters : List Nat} {ending : Ending} (inv : s.board.Inv)
    (hall : s.hall.Inv) (alive : s.violation = none) (possible : s.Possible a)
    (before : s.InFlight w p.1 p.2) (after : (s.act a).phaseOf w = .resuming waiters ending) :
    waiters = s.waitersFor p := by
  have shift := shift_act inv alive possible
  have hseat : (s.act a).hall.seat w = .handing waiters := congrArg Phase.seat after
  have hw : w = a.call s := by
    by_contra hne
    have hholding := (shift.holding_of_ne hne).mpr (holds_of_inFlight before).1
    rw [hseat] at hholding
    cases hholding
  have hnone : s.hall.joins? (s.act a).hall (a.call s) w = none :=
    Hall.joins?_of_not (by rw [← hw, hseat]; exact fun h => by cases h)
  have hshift := shift.ahead hall w
  rw [hnone, ahead_hall, ahead_hall, hands?_hall, hands?_of_inFlight before,
    ahead_of_inFlight before, ahead_of_resuming after] at hshift
  simpa using hshift.symm

/-- A call that is handing control hands it to the next waiter, and only its signal matters. -/
theorem hands_next {rest : List Nat} {ending : Ending} (alive : s.violation = none)
    (phase : s.phaseOf w = .resuming (k :: rest) ending) :
    (s.act (.advance w)).phaseOf w = .resuming rest ending ∧
      ∀ signal, s.phaseOf k = .queued signal →
        (s.act (.advance w)).phaseOf k = .queued signal.raise := by
  cases hw : s.calls.get? w with
  | none =>
    rw [phaseOf, hw] at phase
    cases phase
  | some call =>
    rw [phaseOf_of_get? hw] at phase
    have hact : s.act (.advance w) =
        ((s.setPhase w call (.resuming rest ending)).handOver k).1 := by
      simp only [act, advance, alive, hw, phase, resume]
    rw [hact]
    constructor
    · exact phaseOf_hands ..
    · intro signal hk
      refine phaseOf_handOver_self ?_
      rw [setPhase, phaseOf_setCall_of_ne _ ?_, hk]
      rintro rfl
      rw [phaseOf_of_get? hw, phase] at hk
      cases hk

end

open State

/-- How the history of waiting fits with the queues and the calls. -/
structure Orderly (past : List (Moment α)) (s : State α) : Prop where
  /-- A call starts to wait once at most, and joins one call, behind those who came before. -/
  once : (waited past).Nodup
  one : ∀ k ∈ waited past, ∃! w, k ∈ joined past w
  arrival : ∀ w, (joined past w).Sublist (waited past)
  /-- It goes for what that call goes for. -/
  same : ∀ w, ∀ k ∈ joined past w, ∃ p, s.place? k = some p ∧ s.place? w = some p
  /-- The queue of an operation in flight are those who have joined it, in order. -/
  queued : ∀ w p, s.InFlight w p.1 p.2 → s.waitersFor p = joined past w ∧ handed past w = []
  /-- Nobody is in another queue. -/
  only : ∀ p, ∀ k ∈ s.waitersFor p, ∃ w, s.InFlight w p.1 p.2 ∧ k ∈ joined past w
  /-- Only a call that joins changes the queue of an operation in flight. -/
  grows : ∀ a w p, s.violation = none → s.Possible a → s.InFlight w p.1 p.2 →
    (s.act a).InFlight w p.1 p.2 → (s.act a).waitersFor p = s.waitersFor p ∨
      ∃ k, a.subject? = some k ∧ s.place? k = some p ∧
        (s.act a).waitersFor p = s.waitersFor p ++ [k]
  /-- A completion takes the queue of its operation. -/
  taken : ∀ a w p waiters ending, s.violation = none → s.Possible a → s.InFlight w p.1 p.2 →
    (s.act a).phaseOf w = .resuming waiters ending → waiters = s.waitersFor p
  /-- It hands control to those who have joined, in order, and its flag is set. -/
  resuming : ∀ w call waiters ending, s.calls.get? w = some call →
    call.phase = .resuming waiters ending → joined past w = handed past w ++ waiters ∧
      s.isSet call.flag = true ∧ (s.TellsApart call.target →
        ∀ k ∈ waiters, ∃ waiter, s.calls.get? k = some waiter ∧ waiter.flag = call.flag)
  /-- The next one is handed control, whatever has become of the others. -/
  hands : ∀ w k rest ending, s.violation = none → s.phaseOf w = .resuming (k :: rest) ending →
    (s.act (.advance w)).phaseOf w = .resuming rest ending ∧
      ∀ signal, s.phaseOf k = .queued signal →
        (s.act (.advance w)).phaseOf k = .queued signal.raise
  /-- In the end all who have joined were handed control. -/
  served : ∀ w, (s.phaseOf w).isInFlight = false → (s.phaseOf w).left = [] →
    handed past w = joined past w
  /-- Who waits without a signal has somebody who will hand it control. -/
  found : ∀ k signal, s.phaseOf k = .queued signal → signal.isRaised = false →
    ∃ w, k ∈ joined past w ∧ k ∈ s.ahead w

/-- **No waiter is lost, served twice or out of order.** However the steps of threads and tasks are
interleaved, with whatever futures dropped, waiters queue for one operation each, and its completion
hands them control in the order in which they came. -/
theorem waiters_in_order {rule : State α → Action α → Prop} {s₀ s : State α}
    {past : List (Moment α)} (run : Run rule s₀ past s) (fresh : s₀.IsFresh) : Orderly past s := by
  have inv := run.board_inv fresh
  have hall := run.hall_inv fresh
  have order := run.joined_eq fresh
  refine { once := run.waited_nodup fresh, one := run.joined_one fresh
           arrival := joined_sublist past, same := run.joined_same fresh, queued := ?_
           only := ?_, grows := ?_, taken := ?_
           resuming := ?_, hands := ?_, served := ?_, found := ?_ }
  · intro w p hw
    have hnone := run.handed_eq_nil fresh (inFlight_iff_place?.mp hw).1
    rw [order w, ahead_of_inFlight hw, hnone]
    exact ⟨rfl, rfl⟩
  · intro p k hk
    obtain ⟨w, holder⟩ := hall.held p k hk
    have hw := holds_iff.mp holder
    refine ⟨w, hw, ?_⟩
    rw [order w, ahead_of_inFlight hw]
    exact List.mem_append_right _ hk
  · exact fun a w p alive possible before after =>
      queue_grows inv hall alive possible before after
  · exact fun a w p waiters ending alive possible before after =>
      queue_taken inv hall alive possible before after
  · intro w call waiters ending hc phase
    have hphase : s.phaseOf w = .resuming waiters ending := by rw [phaseOf_of_get? hc, phase]
    obtain ⟨hset, p, hw, hwaiters⟩ := hall.handing w waiters (congrArg Phase.seat hphase)
    rw [flag_hall hc] at hset
    refine ⟨by rw [order w, ahead_of_resuming hphase], hset, fun apart k hk => ?_⟩
    obtain ⟨waiter, hwaiter, hp⟩ := Option.map_eq_some_iff.mp (hwaiters k hk)
    obtain ⟨call', hc', hp'⟩ := Option.map_eq_some_iff.mp hw
    rw [hc] at hc'
    cases hc'
    rw [← hp'] at hp
    obtain ⟨htarget, hid⟩ := Prod.mk.inj hp
    exact ⟨waiter, hwaiter, apart k w waiter call hwaiter hc htarget rfl hid⟩
  · exact fun w k rest ending alive phase => hands_next alive phase
  · intro w outside left
    rw [order w, State.ahead, outside, left]
    simp
  · intro k signal phase unraised
    have hseat : s.hall.seat k = .waiting false := by
      rw [← unraised]
      exact congrArg Phase.seat phase
    obtain ⟨w, hw⟩ := hall.found k hseat
    rw [ahead_hall] at hw
    refine ⟨w, ?_, hw⟩
    rw [order w]
    exact List.mem_append_right _ hw

/-- A registry and two flags. -/
def queueStart : State Unit where
  flags := ⟨[(1, { id := ⟨0⟩ }), (2, { id := ⟨1⟩ })]⟩
  targets := ⟨[(0, Target.inProcess)]⟩
  image := { self := 1, isAlive := fun _ => true }
  nextKey := 3

/-- A call for a flag. -/
def queueCall (flavour : Flavour) (thread : String) (flag : Nat) : Action Unit :=
  .issue { flavour, thread, target := 0, flag, phase := .arriving }

/-- Two operations are in flight, and a task and a thread queue for the second one. The first one
completes, which moves the second one, and the task is dropped. Then the second one completes. -/
def queueActions : List (Action Unit) :=
  [queueCall .async "main" 1, queueCall .blocking "main" 2, queueCall .async "main" 2,
    queueCall .blocking "other" 2, .advance 3, .advance 3, .advance 4, .advance 4, .advance 5,
    .advance 5, .advance 6, .advance 6, .finish 3 .returned none, .advance 3, .abandon 5,
    .finish 4 .unwound none, .advance 4, .advance 4, .advance 4]

theorem queue_isFresh : queueStart.IsFresh := by
  refine isFresh_of_registries (fun _ => rfl) (fun t target ht => ?_) rfl
  simp only [queueStart, Store.get?, Store.lookup] at ht
  split at ht
  · cases ht
    rfl
  · cases ht

theorem queue_allowed : queueStart.Allows (fun _ _ => True) queueActions :=
  ⟨rfl, ⟨Or.inr rfl, rfl, ⟨_, rfl⟩, ⟨_, rfl⟩, nofun⟩, trivial,
    rfl, ⟨Or.inr rfl, rfl, ⟨_, rfl⟩, ⟨_, rfl⟩, nofun⟩, trivial,
    rfl, ⟨Or.inr rfl, rfl, ⟨_, rfl⟩, ⟨_, rfl⟩, nofun⟩, trivial,
    rfl, ⟨Or.inr rfl, rfl, ⟨_, rfl⟩, ⟨_, rfl⟩, nofun⟩, trivial,
    rfl, rfl, trivial, rfl, rfl, trivial, rfl, rfl, trivial, rfl, rfl, trivial,
    rfl, rfl, trivial, rfl, rfl, trivial, rfl, rfl, trivial, rfl, rfl, trivial,
    rfl, nofun, trivial, rfl, rfl, trivial, rfl, ⟨_, rfl, rfl, rfl⟩, trivial,
    rfl, nofun, trivial, rfl, rfl, trivial, rfl, rfl, trivial, rfl, rfl, trivial,
    trivial⟩

/-- The task that was dropped is passed over, and the thread behind it is handed control. -/
theorem waiters_in_order_queue :
    Orderly (queueStart.moments queueActions) (queueStart.acts queueActions) ∧
    joined (queueStart.moments queueActions) 4 = [5, 6] ∧
    handed (queueStart.moments queueActions) 4 = [5, 6] ∧
    (queueStart.acts queueActions).phaseOf 5 = .ended .dropped ∧
    (queueStart.acts queueActions).phaseOf 6 = .queued (.cell { isSet := true }) :=
  ⟨waiters_in_order (Run.of_allows queue_allowed) queue_isFresh, by decide, by decide, rfl, rfl⟩

end RunOnce.Protocol
