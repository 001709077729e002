import RunOnce.Proofs.Waiting.Order

/-!
# What the number of waiters counts

**Who is in a queue** (`Run.waits_or_forsaken`). A call in the queue of an operation in flight still
waits there, or its future was dropped while it did. A waiter whose future is dropped keeps its
place, and nobody in the queue is handed control before the operation is retired.

**Theorem (`pending_counts_joined`).** So the number of waiters that a registry tells for a handle
is the number of those who have joined the operation in flight, dropped or not. It is the number of
calls that are suspended there exactly when no future of a waiter was dropped. When nothing is in
flight for the handle, it is zero.
-/

namespace RunOnce.Protocol

variable {α : Type}

/-- Whether a call in this phase waits and was not told to go on. -/
def Phase.isSuspended : Phase α → Bool
  | .queued signal => !signal.isRaised
  | _ => false

/-- Whether the future of a call in this phase was dropped. -/
def Phase.isDropped : Phase α → Bool
  | .ended .dropped => true
  | _ => false

/-- The calls that are suspended on what `w` has in flight, in order of arrival. -/
def suspendedOn (past : List (Moment α)) (s : State α) (w : Nat) : List Nat :=
  (joined past w).filter fun k => (s.phaseOf k).isSuspended

/-- The calls that have joined what `w` has in flight and whose futures were dropped. -/
def forsakenOn (past : List (Moment α)) (s : State α) (w : Nat) : List Nat :=
  (joined past w).filter fun k => (s.phaseOf k).isDropped

/-- The future of the call was dropped while it waited. -/
def Forsook (past : List (Moment α)) (k : Nat) : Prop :=
  ∃ m ∈ past, m.action = .abandon k ∧ (m.state.phaseOf k).isSuspended = true

variable {s s₀ : State α} {past : List (Moment α)} {a : Action α} {rule : State α → Action α → Prop}
  {c k w t : Nat} {p : Nat × FlagId} {id : FlagId} {call : Call α}

open State

theorem Forsook.concat (forsook : Forsook past k) (m : Moment α) : Forsook (past ++ [m]) k := by
  obtain ⟨m', hm', rest⟩ := forsook
  exact ⟨m', List.mem_append_left _ hm', rest⟩

theorem Phase.isSuspended_eq {phase : Phase α} (suspended : phase.isSuspended = true) :
    ∃ signal, phase = .queued signal ∧ signal.isRaised = false := by
  cases phase with
  | queued signal => exact ⟨signal, rfl, by simpa [isSuspended] using suspended⟩
  | _ => cases suspended

theorem Phase.seat_eq_waiting {phase : Phase α} :
    phase.seat = .waiting false ↔ phase.isSuspended = true := by
  cases phase <;> simp [seat, isSuspended]

theorem Phase.isDropped_eq {phase : Phase α} : phase.isDropped = true ↔ phase = .ended .dropped := by
  unfold isDropped
  split <;> simp_all

/-! ## Who is in a queue -/

/-- Who is in a queue was there before, or has just started to wait. -/
theorem Shift.queued_or_joins {h h' : Hall} (shift : Shift h c h') (hk : k ∈ h'.queue p) :
    k ∈ h.queue p ∨ k = c ∧ h'.seat c = .waiting false := by
  cases shift with
  | @joins q w here early holder =>
    by_cases hp : p = q
    · subst hp
      rw [Hall.queue_setQueue_self] at hk
      rcases List.mem_append.mp hk with hk | hk
      · exact Or.inl hk
      · exact Or.inr ⟨List.mem_singleton.mp hk, Hall.seat_setSeat_self ..⟩
    · rw [Hall.queue_setQueue_of_ne hp] at hk
      exact Or.inl hk
  | @retires q holds alone =>
    change k ∈ (Hall.setQueue _ q []).queue p at hk
    by_cases hp : p = q
    · subst hp
      rw [Hall.queue_setQueue_self] at hk
      cases hk
    · rw [Hall.queue_setQueue_of_ne hp] at hk
      exact Or.inl hk
  | _ => exact Or.inl hk

/-- Who waits in the queue of an operation in flight is not handed control by anybody. -/
theorem Run.not_mem_left (run : Run rule s₀ past s) (fresh : s₀.IsFresh)
    (queued : k ∈ s.waitersFor p) {left : List Nat} (handing : s.hall.seat c = .handing left) :
    k ∉ left := by
  intro hk
  obtain ⟨w, holder⟩ := (run.hall_inv fresh).held p k queued
  have hjoined {v : Nat} (hv : k ∈ s.hall.ahead v) : k ∈ joined past v := by
    rw [run.joined_eq fresh v, ← ahead_hall]
    exact List.mem_append_right _ hv
  have hw : k ∈ joined past w := hjoined (by rw [Hall.ahead_of_holds holder]; exact queued)
  have hc : k ∈ joined past c :=
    hjoined (by rw [Hall.ahead_of_seat (by rw [handing]; simp), handing]; exact hk)
  obtain ⟨v, -, honly⟩ := run.joined_one fresh k ((joined_sublist past w).subset hw)
  have hsame : w = c := (honly w hw).trans (honly c hc).symm
  subst hsame
  have hseat := holder.1
  rw [handing] at hseat
  cases hseat

/-- What an action of its own does to a call that is suspended. -/
theorem suspended_act (inv : s.board.Inv) (alive : s.violation = none) (possible : s.Possible a)
    (hk : s.calls.get? k = some call) (suspended : call.phase.isSuspended = true)
    (mine : a.call s = k) : ((s.act a).phaseOf k).isSuspended = true ∨
      a = .abandon k ∧ (s.act a).phaseOf k = .ended .dropped := by
  obtain ⟨signal, queued, unraised⟩ := Phase.isSuspended_eq suspended
  have hsame : (s.phaseOf k).isSuspended = true := by
    rw [phaseOf_of_get? hk]
    exact suspended
  rcases idle_act alive possible hk (absent_nextKey inv) (by rw [queued]; nofun) mine with
    hact | ⟨-, notices, effect⟩ | dropped
  · rw [hact]
    exact Or.inl hsame
  · left
    generalize s.act a = s' at effect ⊢
    cases effect with
    | rests => exact hsame
    | resumes phase raised =>
      rw [queued] at phase
      cases phase
      rw [unraised] at raised
      cases raised
    | parks phase clear =>
      rw [phaseOf_setPhase]
      simp [Phase.isSuspended, Signal.isRaised, Wakeup.park, clear]
    | skips phase | returns phase =>
      rw [queued] at phase
      rcases phase with phase | phase <;> cases phase
    | _ => simp_all
  · exact Or.inr dropped

/-- Whether a call waits without a signal, or its future was dropped while it did. -/
def Stays (past : List (Moment α)) (s : State α) (k : Nat) : Prop :=
  (s.phaseOf k).isSuspended = true ∨ s.phaseOf k = .ended .dropped ∧ Forsook past k

/-- A suspended call in a queue stays suspended through an action, unless its future is dropped. -/
theorem Run.suspended_queued_act (run : Run rule s₀ past s) (fresh : s₀.IsFresh)
    (alive : s.violation = none) (possible : s.Possible a) (queued : k ∈ s.waitersFor p)
    (suspended : (s.phaseOf k).isSuspended = true) :
    ((s.act a).phaseOf k).isSuspended = true ∨
      a = .abandon k ∧ (s.act a).phaseOf k = .ended .dropped := by
  have inv := run.board_inv fresh
  by_cases mine : a.call s = k
  · obtain ⟨call, hk, -⟩ := Option.map_eq_some_iff.mp ((run.hall_inv fresh).member p k queued)
    have suspended' : call.phase.isSuspended = true := by rwa [phaseOf_of_get? hk] at suspended
    exact suspended_act inv alive possible hk suspended' mine
  · rcases (shift_act inv alive possible).seat_of_ne (Ne.symm mine) with hseat | ⟨rest, handing, -⟩
    · left
      rw [← Phase.seat_eq_waiting] at suspended ⊢
      exact Eq.trans hseat suspended
    · exact absurd List.mem_cons_self (run.not_mem_left fresh queued handing)

/-- Who stays in a queue stays there through an action. -/
theorem Run.stays_act (run : Run rule s₀ past s) (fresh : s₀.IsFresh) (alive : s.violation = none)
    (possible : s.Possible a) (queued : k ∈ s.waitersFor p) (stays : Stays past s k) :
    Stays (past ++ [⟨s, a⟩]) (s.act a) k := by
  rcases stays with suspended | ⟨dropped, forsook⟩
  · rcases run.suspended_queued_act fresh alive possible queued suspended with hnow | ⟨rfl, hnow⟩
    · exact Or.inl hnow
    · exact Or.inr ⟨hnow, ⟨s, .abandon k⟩, by simp, rfl, suspended⟩
  · refine Or.inr ⟨?_, forsook.concat _⟩
    obtain ⟨call, hk, -⟩ := Option.map_eq_some_iff.mp ((run.hall_inv fresh).member p k queued)
    have hover : call.phase.isOver = true := by
      rw [phaseOf_of_get? hk] at dropped
      rw [dropped]
      rfl
    rw [phaseOf_act_of_over alive possible hk hover (absent_nextKey (run.board_inv fresh)), dropped]

/-- Who is in a queue waits there without a signal, or was dropped while it did. -/
theorem Run.waits_or_forsaken (run : Run rule s₀ past s) (fresh : s₀.IsFresh) :
    ∀ p, ∀ k ∈ s.waitersFor p, Stays past s k := by
  induction run with
  | start =>
    intro p k hk
    obtain ⟨w, holder⟩ := (hall_inv_fresh fresh).held p k hk
    obtain ⟨call, hw, -⟩ := Option.map_eq_some_iff.mp holder.2
    rw [fresh.calls w] at hw
    cases hw
  | @step past s a run alive possible admitted ih =>
    intro p k hk
    rcases (shift_act (run.board_inv fresh) alive possible).queued_or_joins hk with hk | ⟨rfl, hseat⟩
    · exact run.stays_act fresh alive possible hk (ih p k hk)
    · exact Or.inl (Phase.seat_eq_waiting.mp hseat)

/-! ## The number of waiters -/

/-- Of the calls in a queue, those who wait and those who were dropped are all. -/
theorem length_stays {l : List Nat} (stays : ∀ k ∈ l, Stays past s k) :
    l.length = (l.filter fun k => (s.phaseOf k).isSuspended).length +
      (l.filter fun k => (s.phaseOf k).isDropped).length := by
  have hdropped : l.filter (fun k => (s.phaseOf k).isDropped) =
      l.filter fun k => !(s.phaseOf k).isSuspended := by
    refine List.filter_congr fun k hk => ?_
    rcases stays k hk with suspended | ⟨dropped, -⟩
    · obtain ⟨signal, queued, -⟩ := Phase.isSuspended_eq suspended
      rw [suspended, queued]
      rfl
    · rw [dropped]
      rfl
  rw [hdropped]
  exact List.length_eq_length_filter_add _

/-- The number that a registry tells is the length of the queue. -/
theorem pending_eq {target : Target} (known : s.targets.get? t = some target) (id : FlagId) :
    target.pending id = (s.waitersFor (t, id)).length := by
  have hqueue : s.waitersFor (t, id) = target.executor.waitersOf id := by
    rw [waitersFor, known]
    rfl
  rw [hqueue, Target.pending]
  cases target.executor with
  | registry r =>
    show r.pending id = (r.waitersOf id).length
    rw [Registry.pending, Registry.waitersOf]
    cases r.find? id <;> rfl
  | table table => rfl

/-- The queue of an operation in flight are those who have joined it. -/
theorem Run.waitersFor_eq (run : Run rule s₀ past s) (fresh : s₀.IsFresh)
    (holder : s.InFlight w p.1 p.2) : s.waitersFor p = joined past w := by
  rw [run.joined_eq fresh, run.handed_eq_nil fresh (inFlight_iff_place?.mp holder).1,
    ahead_of_inFlight holder]
  rfl

/-- What the number of waiters of a target counts, for one handle. -/
structure Tally (past : List (Moment α)) (s : State α) (t : Nat) (target : Target)
    (id : FlagId) : Prop where
  /-- Where nothing is in flight, nobody is counted. -/
  idle : (∀ w, ¬s.InFlight w t id) → target.pending id = 0
  /-- All who have joined what is in flight are counted, once each. -/
  joins : ∀ w, s.InFlight w t id → target.pending id = (joined past w).length ∧
    (joined past w).Nodup
  /-- They are suspended there, or their futures were dropped while they were. -/
  stays : ∀ w, s.InFlight w t id → ∀ k ∈ joined past w, Stays past s k
  splits : ∀ w, s.InFlight w t id →
    target.pending id = (suspendedOn past s w).length + (forsakenOn past s w).length
  /-- Nobody else is suspended for the handle, but for those to whom a completed call has still to
  hand control. -/
  others : ∀ w, s.InFlight w t id → ∀ k, s.place? k = some (t, id) →
    (s.phaseOf k).isSuspended = true → k ∈ suspendedOn past s w ∨
      ∃ v waiters ending, s.phaseOf v = .resuming waiters ending ∧ k ∈ waiters
  /-- The number is that of the suspended calls as long as no future of theirs was dropped. -/
  exact_iff : ∀ w, s.InFlight w t id → (target.pending id = (suspendedOn past s w).length ↔
    ∀ k ∈ joined past w, s.phaseOf k ≠ .ended .dropped)

/-- Nobody waits where nothing is in flight. -/
theorem waitersFor_of_idle (hall : s.hall.Inv) (idle : ∀ w, ¬s.InFlight w p.1 p.2) :
    s.waitersFor p = [] := by
  refine List.eq_nil_iff_forall_not_mem.mpr fun k hk => ?_
  obtain ⟨w, holder⟩ := hall.held p k hk
  exact idle w (holds_iff.mp holder)

/-- A suspended call is in the queue of an operation in flight, or its turn is still to come. -/
theorem found_suspended (hall : s.hall.Inv) (hk : s.place? k = some p)
    (suspended : (s.phaseOf k).isSuspended = true) : k ∈ s.waitersFor p ∨
      ∃ v waiters ending, s.phaseOf v = .resuming waiters ending ∧ k ∈ waiters := by
  obtain ⟨v, hv⟩ := hall.found k (Phase.seat_eq_waiting.mpr suspended)
  rw [ahead_hall, State.ahead] at hv
  split at hv
  next inside =>
    cases hp : s.place? v with
    | none =>
      rw [hp] at hv
      cases hv
    | some q =>
      rw [hp] at hv
      have hq : s.place? k = some q := hall.member q k hv
      rw [hk] at hq
      cases hq
      exact Or.inl hv
  next =>
    cases hphase : s.phaseOf v with
    | resuming waiters ending =>
      rw [hphase] at hv
      exact Or.inr ⟨v, waiters, ending, hphase, hv⟩
    | _ =>
      rw [hphase] at hv
      cases hv

/-- Nobody was dropped while waiting exactly if no future of those who have joined was dropped. -/
theorem forsakenOn_eq_nil :
    forsakenOn past s w = [] ↔ ∀ k ∈ joined past w, s.phaseOf k ≠ .ended .dropped := by
  simp only [forsakenOn, List.filter_eq_nil_iff, Phase.isDropped_eq, ne_eq]

/-- **The number of waiters counts those who have joined.** In every state of every run, whatever
futures were dropped while they won or waited, the number that a target tells for a handle is that
of the calls that have joined the operation in flight. They wait there, but for those whose futures
were dropped: these are counted until the operation is over. Where nothing is in flight the number
is zero. -/
theorem pending_counts_joined (run : Run rule s₀ past s) (fresh : s₀.IsFresh) {target : Target}
    (known : s.targets.get? t = some target) (id : FlagId) : Tally past s t target id := by
  have hall := run.hall_inv fresh
  have counted := pending_eq known id
  have queue {w : Nat} (holder : s.InFlight w t id) : s.waitersFor (t, id) = joined past w :=
    run.waitersFor_eq fresh holder
  have stays {w : Nat} (holder : s.InFlight w t id) : ∀ k ∈ joined past w, Stays past s k := by
    rw [← queue holder]
    exact run.waits_or_forsaken fresh (t, id)
  have splits {w : Nat} (holder : s.InFlight w t id) :
      target.pending id = (suspendedOn past s w).length + (forsakenOn past s w).length := by
    rw [counted, queue holder]
    exact length_stays (stays holder)
  refine { idle := ?_, joins := ?_, stays := fun w => stays, splits := fun w => splits
           others := ?_, exact_iff := ?_ }
  · intro idle
    rw [counted, waitersFor_of_idle hall idle]
    rfl
  · intro w holder
    rw [counted, queue holder]
    exact ⟨rfl, (run.waited_nodup fresh).sublist (joined_sublist past w)⟩
  · intro w holder k hk suspended
    rcases found_suspended hall hk suspended with hqueue | later
    · rw [queue holder] at hqueue
      exact Or.inl (List.mem_filter.mpr ⟨hqueue, suspended⟩)
    · exact Or.inr later
  · intro w holder
    rw [← forsakenOn_eq_nil, ← List.length_eq_zero_iff, splits holder]
    omega

/-- A task and a thread queue behind the operation of a thread, and the task is dropped. -/
def forsakenActions : List (Action Unit) :=
  [queueCall .blocking "main" 2, queueCall .async "main" 2, queueCall .blocking "other" 2,
    .advance 3, .advance 3, .advance 4, .advance 4, .advance 5, .advance 5, .abandon 4]

theorem forsaken_allowed : queueStart.Allows (fun _ _ => True) forsakenActions :=
  ⟨rfl, ⟨Or.inr rfl, rfl, ⟨_, rfl⟩, ⟨_, rfl⟩, nofun⟩, trivial,
    rfl, ⟨Or.inr rfl, rfl, ⟨_, rfl⟩, ⟨_, rfl⟩, nofun⟩, trivial,
    rfl, ⟨Or.inr rfl, rfl, ⟨_, rfl⟩, ⟨_, rfl⟩, nofun⟩, trivial,
    rfl, rfl, trivial, rfl, rfl, trivial, rfl, rfl, trivial, rfl, rfl, trivial,
    rfl, rfl, trivial, rfl, rfl, trivial, rfl, ⟨_, rfl, rfl, rfl⟩, trivial, trivial⟩

/-- One call is suspended, and two are counted. -/
theorem pending_counts_joined_forsaken :
    ∃ target, (queueStart.acts forsakenActions).targets.get? 0 = some target ∧
      Tally (queueStart.moments forsakenActions) (queueStart.acts forsakenActions) 0 target ⟨1⟩ ∧
      (queueStart.acts forsakenActions).InFlight 3 0 ⟨1⟩ ∧ target.pending ⟨1⟩ = 2 ∧
      suspendedOn (queueStart.moments forsakenActions) (queueStart.acts forsakenActions) 3 = [5] ∧
      forsakenOn (queueStart.moments forsakenActions) (queueStart.acts forsakenActions) 3 = [4] :=
  ⟨_, rfl, pending_counts_joined (Run.of_allows forsaken_allowed) queue_isFresh rfl ⟨1⟩,
    ⟨_, rfl, rfl, rfl, rfl⟩, rfl, by decide, by decide⟩

end RunOnce.Protocol
