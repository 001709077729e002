import RunOnce.Proofs.Abandon.Nest
import RunOnce.Proofs.Abandon.Retire
import RunOnce.Proofs.Waiting.Order

/-!
# Calls that are abandoned

**Frames.** A panic that unwinds out of initializers abandons the calls that run them, and a future
that is dropped abandons the calls that it holds: some run an initializer, others wait for one or
were never polled (`State.CanLeave`).

**The rule** (`Unwinding`). Whatever the others do, a frame takes only steps that lead out of it
(`Leads`), and nothing happens to it before the frames in front of it are over. Which frames these
are is the drop order of a nest.

**Departures** (`Departure`). An action on a frame ends its initializer, drops it where it waits,
takes one of the steps by which its operation is completed, or hands control over. What each of them
completes is read off the phase (`Departure.completion`).

**The way out** (`Outward`). Seen from the phase in which it was abandoned, a frame is where it was,
or it runs its initializer no more and is completed as one that did not return, or it is over.
-/

namespace RunOnce.Protocol

open Function Relation State

variable {α : Type}

/-- Whether a call in this phase completes its operation or hands control over. -/
def Phase.isLeaving : Phase α → Bool
  | .completing _ | .marking _ | .releasing _ | .resuming _ _ => true
  | _ => false

/-- An action leads out of a call. -/
inductive Leads (s : State α) (c : Nat) : Action α → Prop
  /-- A panic unwinds out of its initializer. -/
  | unwinds (value : Option α) : Leads s c (.finish c .unwound value)
  /-- Its future is dropped. -/
  | drops : Leads s c (.abandon c)
  /-- It completes its operation, or hands control over. -/
  | goesOn (leaving : (s.phaseOf c).isLeaving = true) : Leads s c (.advance c)

/-- Frames are abandoned, one after the other: what they do leads out of them, and each has its turn
when those in front of it are over. All other calls do what they like. -/
structure Unwinding (frames : List Nat) (s : State α) (a : Action α) : Prop where
  outward : ∀ c ∈ frames, a.subject? = some c → Leads s c a
  inTurn : ∀ k c, Precedes frames k c → a.subject? = some c → (s.phaseOf k).isOver = true

/-- The call whose operation is no longer in flight: it has left its registry, or its slot is done. -/
def Moment.retires? (m : Moment α) : Option Nat :=
  m.action.subject?.filter fun c =>
    (m.state.phaseOf c).isInFlight && !(m.next.phaseOf c).isInFlight

/-- The calls whose operations were retired, in order. -/
def retired (past : List (Moment α)) : List Nat := past.filterMap Moment.retires?

theorem retired_concat (past : List (Moment α)) (m : Moment α) :
    retired (past ++ [m]) = retired past ++ m.retires?.toList := filterMap_concat ..

theorem retires?_eq_some {m : Moment α} {c : Nat} : m.retires? = some c ↔
    m.action.subject? = some c ∧ (m.state.phaseOf c).isInFlight = true ∧
      (m.next.phaseOf c).isInFlight = false := by
  rw [Moment.retires?, Option.filter_eq_some_iff, Bool.and_eq_true_iff, Bool.not_eq_true']

/-- What an action that leads out of a call makes of the state. -/
inductive Departure (s : State α) (c : Nat) (call : Call α) : State α → Prop
  | stays : Departure s c call s
  /-- The initializer unwinds or is dropped. -/
  | ends {ending : Ending} (running : call.phase = .running) (astray : ending ≠ .returned) :
      Departure s c call (s.setPhase c call (.completing ending))
  /-- The future is dropped while it waits, or before it was polled. -/
  | drops (resting : call.phase.isResting = true) (waits : call.phase ≠ .running) :
      Departure s c call (s.setPhase c call (.ended .dropped))
  | retires {ending : Ending} {r r' : Registry Nat} {waiters : List Nat}
      (phase : call.phase = .completing ending)
      (through : s.executorOf call = some (.registry r))
      (taken : r.retire (s.flagOf call).id = some (waiters, r')) :
      Departure s c call (((s.completeFlag call.flag).setExecutor call.target
        (.registry r')).setPhase c call (.resuming waiters ending))
  | settles {ending : Ending} {t : SlotTable} (phase : call.phase = .completing ending)
      (through : s.executorOf call = some (.table t)) :
      Departure s c call (((s.markSlot t (s.flagOf call).id slotDone).setExecutor call.target
        (.table (t.lock (s.flagOf call).id))).setPhase c call (.marking ending))
  | marks {ending : Ending} (phase : call.phase = .marking ending) :
      Departure s c call ((s.completeFlag call.flag).setPhase c call (.releasing ending))
  | releases {ending : Ending} (phase : call.phase = .releasing ending) :
      Departure s c call ((s.unlock call.target).setPhase c call (.resuming [] ending))
  | hands {waiter : Nat} {rest : List Nat} {ending : Ending}
      (phase : call.phase = .resuming (waiter :: rest) ending) :
      Departure s c call ((s.setPhase c call (.resuming rest ending)).handOver waiter).1
  | goesOn (phase : call.phase = .resuming [] .returned) :
      Departure s c call (s.setPhase c call .concluding)
  | leaves {ending : Ending} {outcome : Outcome α} (phase : call.phase = .resuming [] ending) :
      Departure s c call (s.setPhase c call (.ended outcome))

/-- Where a call comes that is abandoned in a phase. -/
inductive Outward : Phase α → Phase α → Prop
  | rests (phase : Phase α) : Outward phase phase
  | signalled (signal signal' : Signal) : Outward (.queued signal) (.queued signal')
  | completing {ending : Ending} (astray : ending ≠ .returned) :
      Outward .running (.completing ending)
  | marking {ending : Ending} (astray : ending ≠ .returned) : Outward .running (.marking ending)
  | releasing {ending : Ending} (astray : ending ≠ .returned) :
      Outward .running (.releasing ending)
  | resuming (waiters : List Nat) {ending : Ending} (astray : ending ≠ .returned) :
      Outward .running (.resuming waiters ending)
  | ended (phase : Phase α) (outcome : Outcome α) : Outward phase (.ended outcome)

section

variable {s s' s₀ : State α} {a : Action α} {c k : Nat} {call : Call α} {frames : List Nat}
  {past later : List (Moment α)} {rule : State α → Action α → Prop}

/-! ## Departures -/

/-- **An action that leads out of a call is a departure.** -/
theorem departure_act (inv : s.board.Inv) (alive : s.violation = none) (possible : s.Possible a)
    (hc : s.calls.get? c = some call) (leads : Leads s c a) : Departure s c call (s.act a) := by
  cases leads with
  | unwinds value =>
    cases hp : call.phase with
    | running =>
      have hact : s.act (.finish c .unwound value) = s.setPhase c call (.completing .unwound) := by
        simp only [act, finish, hc, hp]
      rw [hact]
      exact .ends hp (by simp)
    | _ =>
      have hact : s.act (.finish c .unwound value) = s := by simp only [act, finish, hc, hp]
      rw [hact]
      exact .stays
  | drops =>
    obtain ⟨mine, hmine, -, resting⟩ := possible
    rw [hc] at hmine
    cases hmine
    cases hp : call.phase with
    | running =>
      have hact : s.act (.abandon c) = s.setPhase c call (.completing .dropped) := by
        simp only [act, abandon, finish, hc, hp]
      rw [hact]
      exact .ends hp (by simp)
    | probing | arriving | queued | polling =>
      have hact : s.act (.abandon c) = s.setPhase c call (.ended .dropped) := by
        simp only [act, abandon, hc, hp]
      rw [hact]
      exact .drops resting (by simp [hp])
    | _ =>
      rw [hp] at resting
      cases resting
  | goesOn leaving =>
    rw [phaseOf_of_get? hc] at leaving
    have effect : Effect s c call (s.act (.advance c)) (s.advance c).2 := effect_advance alive hc
    generalize s.act (.advance c) = s', (s.advance c).2 = notices at effect
    cases effect with
    | rests => exact .stays
    | retires phase through taken => exact .retires phase through taken
    | settles phase through => exact .settles phase through
    | marks phase => exact .marks phase
    | releases phase => exact .releases phase
    | hands phase => exact .hands phase
    | goesOn phase => exact .goesOn phase
    | leaves phase => exact .leaves phase
    | misses phase through missing => exact absurd missing (retire_ne_none inv hc phase through)
    | skips phase | returns phase =>
      rcases phase with phase | phase <;> rw [phase] at leaving <;> cases leaving
    | finds phase | asks phase | ties phase | strays phase | sees phase | contends phase
      | late phase | meets phase | joins phase | wins phase | lacks phase | recurs phase
      | loses phase | claims phase | resumes phase | parks phase | follows phase | breaks phase
      | reserves phase | discards phase | publishes phase | fails phase | concludes phase =>
      rw [phase] at leaving
      cases leaving

namespace Departure

/-- **What a departure completes.** Where it completes nothing, it leaves everything alone. -/
theorem completion (departure : Departure s c call s') (inv : s.board.Inv) (locks : Locks s)
    (hc : s.calls.get? c = some call) : ∃ parts, Completion s call parts (s'.phaseOf c) ∧
      Retirement s call parts s' ∧ (parts = [] → s'.flags = s.flags ∧ s'.targets = s.targets ∧
        s'.image = s.image) := by
  have hspares {s' : State α} (completion : Completion s call [] (s'.phaseOf c))
      (spares : s'.flags = s.flags ∧ s'.targets = s.targets ∧ s'.image = s.image) :
      ∃ parts, Completion s call parts (s'.phaseOf c) ∧ Retirement s call parts s' ∧
        (parts = [] → s'.flags = s.flags ∧ s'.targets = s.targets ∧ s'.image = s.image) :=
    ⟨[], completion, retirement_nil spares.1 spares.2.1 spares.2.2 call, fun _ => spares⟩
  cases departure with
  | stays =>
    refine hspares ?_ ⟨rfl, rfl, rfl⟩
    rw [phaseOf_of_get? hc]
    exact .rests
  | ends running | goesOn running | leaves running =>
    refine hspares ?_ ⟨rfl, rfl, rfl⟩
    rw [phaseOf_setPhase]
    exact .moves (by rw [running]; rfl) rfl (by rw [running]; rfl)
  | drops resting waits =>
    refine hspares ?_ ⟨rfl, rfl, rfl⟩
    rw [phaseOf_setPhase]
    refine .moves ?_ rfl ?_
    all_goals
      cases hp : call.phase with
      | running => exact absurd hp waits
      | probing | arriving | queued | polling => rfl
      | _ =>
        rw [hp] at resting
        cases resting
  | hands phase =>
    refine hspares ?_ ?_
    · rw [phaseOf_hands]
      exact .moves (by rw [phase]; rfl) rfl (by rw [phase]; rfl)
    · obtain ⟨calls, hcalls⟩ := handOver_eq ..
      rw [hcalls]
      exact ⟨rfl, rfl, rfl⟩
  | @retires ending r r' waiters phase through taken =>
    obtain ⟨rfl, retirement⟩ := retirement_retires inv hc through taken
      (.resuming waiters ending)
    rw [phaseOf_setPhase]
    exact ⟨_, .retires phase through, retirement, nofun⟩
  | settles phase through =>
    rw [phaseOf_setPhase]
    exact ⟨_, .settles phase through, retirement_settles inv hc phase through, nofun⟩
  | marks phase =>
    rw [phaseOf_setPhase]
    exact ⟨_, .marks phase, retirement_marks inv hc _, nofun⟩
  | releases phase =>
    obtain ⟨claims, taken⟩ := locks.taken c call.target (s.flagOf call).id
      ⟨by rw [phaseOf_of_get? hc, phase]; rfl, place?_of_get? hc⟩
    rw [phaseOf_setPhase]
    exact ⟨_, .releases phase, retirement_releases taken _, nofun⟩

/-- A call that is left has nothing in flight that it did not have before. -/
theorem isInFlight_of (departure : Departure s c call s') (hc : s.calls.get? c = some call)
    (after : (s'.phaseOf c).isInFlight = true) : call.phase.isInFlight = true := by
  have hset {t : State α} {phase : Phase α}
      (h : ((t.setPhase c call phase).phaseOf c).isInFlight = true) :
      phase.isInFlight = true := by
    rwa [phaseOf_setPhase] at h
  cases departure with
  | stays =>
    rw [phaseOf_of_get? hc] at after
    exact after
  | ends running =>
    rw [running]
    rfl
  | drops | retires | settles | marks | releases | goesOn | leaves => cases hset after
  | hands phase =>
    rw [phaseOf_hands] at after
    cases after

/-- Other calls stay where they are, but for the waiter that is handed control. -/
theorem phaseOf_of_ne (departure : Departure s c call s') (hk : k ≠ c) :
    s'.phaseOf k = s.phaseOf k ∨ ∃ rest ending, call.phase = .resuming (k :: rest) ending ∧
      s'.phaseOf c = .resuming rest ending := by
  cases departure with
  | stays => exact Or.inl rfl
  | @hands waiter rest ending phase =>
    by_cases hw : k = waiter
    · subst hw
      exact Or.inr ⟨rest, ending, phase, phaseOf_hands ..⟩
    · rw [phaseOf_handOver (Or.inl hw), setPhase]
      exact Or.inl (phaseOf_setCall_of_ne _ hk)
  | _ =>
    rw [setPhase]
    exact Or.inl (phaseOf_setCall_of_ne _ hk)

/-- A call that is left stays on its way out. -/
theorem outward {start : Phase α} (departure : Departure s c call s')
    (hc : s.calls.get? c = some call) (resting : start.isResting = true)
    (before : Outward start call.phase) : Outward start (s'.phaseOf c) := by
  cases departure with
  | stays =>
    rw [phaseOf_of_get? hc]
    exact before
  | ends running astray =>
    rw [phaseOf_setPhase]
    rw [running] at before
    cases before
    exact .completing astray
  | drops | leaves =>
    rw [phaseOf_setPhase]
    exact .ended ..
  | retires phase =>
    rw [phaseOf_setPhase]
    rw [phase] at before
    cases before with
    | rests => cases resting
    | completing astray => exact .resuming _ astray
  | settles phase =>
    rw [phaseOf_setPhase]
    rw [phase] at before
    cases before with
    | rests => cases resting
    | completing astray => exact .marking astray
  | marks phase =>
    rw [phaseOf_setPhase]
    rw [phase] at before
    cases before with
    | rests => cases resting
    | marking astray => exact .releasing astray
  | releases phase =>
    rw [phaseOf_setPhase]
    rw [phase] at before
    cases before with
    | rests => cases resting
    | releasing astray => exact .resuming _ astray
  | hands phase =>
    rw [phaseOf_hands]
    rw [phase] at before
    cases before with
    | rests => cases resting
    | resuming _ astray => exact .resuming _ astray
  | goesOn phase =>
    rw [phase] at before
    cases before with
    | rests => cases resting
    | resuming _ astray => exact absurd rfl astray

end Departure

/-! ## What a run does to a frame -/

/-- A call that is not the one to act stays on its way out. -/
theorem Outward.act_of_ne {start : Phase α} (alive : s.violation = none)
    (possible : s.Possible a) (other : c ≠ a.call s) (before : Outward start (s.phaseOf c)) :
    Outward start ((s.act a).phaseOf c) := by
  rcases phaseOf_act_of_ne alive possible other with hsame | ⟨signal, hqueued, hraised⟩
  · rw [hsame]
    exact before
  · rw [hraised]
    rw [hqueued] at before
    cases before with
    | rests => exact .signalled ..
    | signalled => exact .signalled ..

/-- A call that is there acts only as the subject of an action. -/
theorem subject_of_call (fresh : s.calls.get? s.nextKey = none) (hc : s.calls.get? c = some call)
    (mine : c = a.call s) : a.subject? = some c := by
  cases hsub : a.subject? with
  | none =>
    rw [Action.call, hsub] at mine
    obtain rfl : c = s.nextKey := mine
    rw [fresh] at hc
    cases hc
  | some k =>
    rw [Action.call, hsub] at mine
    exact congrArg some mine.symm

/-- **A frame is on its way out** after every run that abandons it. -/
theorem Run.frame (run : Run (fun _ _ => True) s₀ past s) (fresh : s₀.IsFresh)
    (leaving : Run (Unwinding frames) s later s') (mine : c ∈ frames)
    (hc : s.calls.get? c = some call) (resting : call.phase.isResting = true) :
    ∃ call', s'.calls.get? c = some call' ∧ call'.flavour = call.flavour ∧
      Outward call.phase call'.phase := by
  induction leaving with
  | start => exact ⟨call, hc, rfl, .rests _⟩
  | @step later s' a leaving alive possible admitted ih =>
    obtain ⟨now, hnow, hflavour, outward⟩ := ih
    have inv := (run.trans (leaving.weaken fun _ _ _ _ _ => trivial)).board_inv fresh
    obtain ⟨call', hcall', becomes⟩ := call_act (a := a) (absent_nextKey inv) hnow
    refine ⟨call', hcall', ?_, ?_⟩
    · rw [← hflavour]
      exact becomes.alike.flavour
    · rw [← phaseOf_of_get? hcall']
      by_cases hact : c = a.call s'
      · have leads := admitted.outward c mine (subject_of_call (absent_nextKey inv) hnow hact)
        exact (departure_act inv alive possible hnow leads).outward hnow resting outward
      · rw [← phaseOf_of_get? hnow] at outward
        exact outward.act_of_ne alive possible hact

theorem Outward.isInFlight {start now : Phase α} (outward : Outward start now)
    (inFlight : now.isInFlight = true) : start.isInFlight = true := by
  cases outward with
  | rests => exact inFlight
  | completing => rfl
  | signalled | marking | releasing | resuming | ended => cases inFlight

/-- What a frame has in flight, it has until its operation is retired. -/
theorem isInFlight_act (inv : s.board.Inv) (alive : s.violation = none) (possible : s.Possible a)
    (admitted : Unwinding frames s a) (mine : c ∈ frames) (hc : s.calls.get? c = some call) :
    ((s.act a).phaseOf c).isInFlight = true ↔
      (s.phaseOf c).isInFlight = true ∧ Moment.retires? ⟨s, a⟩ ≠ some c := by
  by_cases hact : c = a.call s
  · have subject := subject_of_call (absent_nextKey inv) hc hact
    have departure := departure_act inv alive possible hc (admitted.outward c mine subject)
    rw [ne_eq, retires?_eq_some, phaseOf_of_get? hc]
    constructor
    · intro after
      refine ⟨departure.isInFlight_of hc after, ?_⟩
      rintro ⟨-, -, hnot⟩
      have hnot : ((s.act a).phaseOf c).isInFlight = false := hnot
      rw [after] at hnot
      cases hnot
    · rintro ⟨before, hkeeps⟩
      by_contra hnot
      exact hkeeps ⟨subject, before, Bool.eq_false_iff.mpr hnot⟩
  · have hnone : Moment.retires? ⟨s, a⟩ ≠ some c := by
      intro hretires
      have subject : a.subject? = some c := (retires?_eq_some.mp hretires).1
      exact hact (by rw [Action.call, subject]; rfl)
    rcases phaseOf_act_of_ne alive possible hact with hsame | ⟨signal, hqueued, hraised⟩
    · rw [hsame]
      exact ⟨fun h => ⟨h, hnone⟩, And.left⟩
    · rw [hqueued, hraised]
      exact ⟨fun h => absurd h (by simp [Phase.isInFlight]), fun h => h.1⟩

section

variable (run : Run (fun _ _ => True) s₀ past s) (fresh : s₀.IsFresh)
  (leaving : Run (Unwinding frames) s later s')

include run leaving

theorem Run.onward : Run (fun _ _ => True) s₀ (past ++ later) s' :=
  run.trans (leaving.weaken fun _ _ _ _ _ => trivial)

include fresh

/-- **A frame retires what it had in flight**, once. -/
theorem Run.count_retired (mine : c ∈ frames) (hc : s.calls.get? c = some call)
    (resting : call.phase.isResting = true) : (retired later).count c =
      if (s.phaseOf c).isInFlight && !(s'.phaseOf c).isInFlight then 1 else 0 := by
  induction leaving with
  | start => cases (s.phaseOf c).isInFlight <;> rfl
  | @step later s' a leaving alive possible admitted ih =>
    have inv := (run.onward leaving).board_inv fresh
    obtain ⟨now, hnow, -, outward⟩ := run.frame fresh leaving mine hc resting
    have hact := isInFlight_act inv alive possible admitted mine hnow
    have hstart (h : (s'.phaseOf c).isInFlight = true) : (s.phaseOf c).isInFlight = true := by
      rw [phaseOf_of_get? hnow] at h
      rw [phaseOf_of_get? hc]
      exact outward.isInFlight h
    have hone : (Moment.retires? ⟨s', a⟩).toList.count c =
        if Moment.retires? ⟨s', a⟩ = some c then 1 else 0 := by
      cases Moment.retires? ⟨s', a⟩ with
      | none => rfl
      | some k => simp [List.count_singleton]
    have hbefore (h : Moment.retires? ⟨s', a⟩ = some c) : (s'.phaseOf c).isInFlight = true :=
      (retires?_eq_some.mp h).2.1
    rw [retired_concat, List.count_append, ih, hone]
    by_cases hretires : Moment.retires? ⟨s', a⟩ = some c
    · have hx := hbefore hretires
      have hy : ((s'.act a).phaseOf c).isInFlight = false := by
        rw [Bool.eq_false_iff]
        exact fun h => (hact.mp h).2 hretires
      simp [hretires, hx, hy, hstart hx]
    · have hsame : ((s'.act a).phaseOf c).isInFlight = (s'.phaseOf c).isInFlight := by
        rw [Bool.eq_iff_iff, hact]
        exact and_iff_left hretires
      simp [hretires, hsame]

/-- A frame is among those whose operations were retired when it has nothing in flight any more. -/
theorem Run.mem_retired (mine : c ∈ frames) (hc : s.calls.get? c = some call)
    (resting : call.phase.isResting = true) : c ∈ retired later ↔
      (s.phaseOf c).isInFlight = true ∧ (s'.phaseOf c).isInFlight = false := by
  rw [← List.count_pos_iff, run.count_retired fresh leaving mine hc resting]
  cases (s.phaseOf c).isInFlight <;> cases (s'.phaseOf c).isInFlight <;> simp

end

end

end RunOnce.Protocol
