import RunOnce.Proofs.Exclusion.Mirror
import RunOnce.Proofs.Reentrancy.Blocking
import RunOnce.Proofs.Waiting.Pending

/-!
# Who keeps a call waiting

**Waiting** (`State.Waits`). A call waits when it is queued and its signal is not raised, or when it
polls a slot that is running. It also stays where it is before the lock of a slot table that is
taken (`State.isLockedOut`).

**Theorem (`Run.exists_blocker`).** For a call that waits there is another call for its handle that
is under way and does not wait: it has the initialization in flight, or it has set its flag and is
handing control to the waiters. In a registry this is what the hall says, and at a slot table it is
the claim that a running slot mirrors.

**Steps** (`phaseOf_advance_ne`). A call that neither waits nor runs its initializer, and has come
to no lock that is taken, gets further with its next step, unless the step aborts.
-/

namespace RunOnce.Protocol

open State

variable {α : Type} {s s₀ : State α} {past : List (Moment α)} {c : Nat} {call : Call α}
  {rule : State α → Action α → Prop}

/-- A call waits: its signal is not raised, or the slot that it polls is running. -/
def State.Waits (s : State α) (c : Nat) : Prop :=
  ∃ call, s.calls.get? c = some call ∧
    ((∃ signal, call.phase = .queued signal ∧ signal.isRaised = false) ∨
      call.phase = .polling ∧ s.slotSeen? call = some slotRunning)

/-- Whether a call in this phase may have to wait. -/
def Phase.isSuspensive : Phase α → Bool
  | .queued _ | .polling => true
  | _ => false

theorem State.Waits.isSuspensive (waits : s.Waits c) : (s.phaseOf c).isSuspensive = true := by
  obtain ⟨call, hc, ⟨signal, phase, -⟩ | ⟨phase, -⟩⟩ := waits
  · rw [phaseOf_of_get? hc, phase]
    rfl
  · rw [phaseOf_of_get? hc, phase]
    rfl

/-- A call keeps others waiting for a handle: it is under way and does not wait. -/
def State.Blocks (s : State α) (w : Nat) (id : FlagId) : Prop :=
  ∃ other, s.calls.get? w = some other ∧ (s.flagOf other).id = id ∧
    other.phase.isOver = false ∧ other.phase.isSuspensive = false

theorem blocks_of_inFlight {t : Nat} {id : FlagId} {w : Nat} (inFlight : s.InFlight w t id) :
    s.Blocks w id := by
  obtain ⟨other, hw, -, hid, inside⟩ := inFlight
  refine ⟨other, hw, hid, ?_⟩
  cases hp : other.phase with
  | running | storing | publishing | completing => exact ⟨rfl, rfl⟩
  | _ =>
    rw [hp] at inside
    cases inside

/-- Who is queued is among those whom a call under way has still to hand control to. -/
theorem exists_blocks_of_queued (hall : s.hall.Inv) (hc : s.calls.get? c = some call)
    (queued : s.hall.seat c = .waiting false) : ∃ w, s.Blocks w (s.flagOf call).id := by
  have here := place?_of_get? hc
  obtain ⟨w, hw⟩ := hall.found c queued
  unfold Hall.ahead at hw
  split at hw
  next holding =>
    obtain ⟨p, place, member⟩ : ∃ p, s.place? w = some p ∧ c ∈ s.waitersFor p := by
      cases hp : s.hall.place? w with
      | none =>
        rw [hp] at hw
        cases hw
      | some p =>
        rw [hp] at hw
        exact ⟨p, hp, hw⟩
    have same : s.place? c = some p := hall.member p c member
    rw [here] at same
    cases same
    exact ⟨w, blocks_of_inFlight (holds_iff.mp ⟨holding, place⟩)⟩
  next left handing =>
    obtain ⟨-, p, place, waiters⟩ := hall.handing w left handing
    have same : s.place? c = some p := waiters c hw
    rw [here] at same
    cases same
    obtain ⟨other, hother, hplace⟩ := Option.map_eq_some_iff.mp (show s.place? w = _ from place)
    refine ⟨w, other, hother, (Prod.mk.inj hplace).2, ?_⟩
    have seat : other.phase.seat = .handing left := by rw [← seat_hall hother, handing]
    cases hp : other.phase with
    | resuming => exact ⟨rfl, rfl⟩
    | releasing =>
      rw [hp] at seat
      cases seat
      cases hw
    | _ =>
      rw [hp] at seat
      cases seat
  · cases hw

/-- **A call that waits has somebody to wait for**: a call for its handle that does not wait. -/
theorem Run.exists_blocker (run : Run rule s₀ past s) (fresh : s₀.IsFresh)
    (idle : ∀ o table, s₀.Maps call.target o table → ∀ id, s₀.slotOf o id = slotIdle)
    (hc : s.calls.get? c = some call) (waits : s.Waits c) :
    ∃ w, s.Blocks w (s.flagOf call).id := by
  obtain ⟨mine, hmine, ⟨signal, phase, unraised⟩ | ⟨-, running⟩⟩ := waits
  · obtain rfl : call = mine := Option.some.inj (hc.symm.trans hmine)
    refine exists_blocks_of_queued (run.hall_inv fresh) hc ?_
    rw [seat_hall hc, phase, Phase.seat, unraised]
  · obtain rfl : call = mine := Option.some.inj (hc.symm.trans hmine)
    have inv := run.board_inv fresh
    obtain ⟨table, through⟩ := table_of_slotSeen? running
    obtain ⟨table₀, maps₀, -⟩ := exists_maps ((run.static fresh).1 ▸ table?_board through)
    rw [slotSeen?, through] at running
    obtain ⟨_, _, _, _, _, _, w, inFlight, _⟩ :=
      ((run.mirrors fresh (idle _ _ maps₀)).running_iff (s.flagOf call).id).mp
        (slotOf_of_slot? (slot?_board inv through running).2)
    exact ⟨w, blocks_of_inFlight inFlight⟩

/-! ## Steps that get a call further -/

namespace State

/-- A locked section gets a call further, unless it aborts. -/
theorem phaseOf_enter_ne {executor : Executor} (possible : s.Possible (.advance c))
    (hc : s.calls.get? c = some call) (phase : call.phase = .contending)
    (through : s.executorOf call = some executor)
    (safe : (s.enter c call).1.violation = none) :
    (s.enter c call).1.phaseOf c ≠ .contending := by
  cases executor with
  | registry r =>
    simp only [enter, through]
    obtain ⟨r', phase, hs, hcases⟩ := s.enterRegistry_cases c call r
    rw [hs, phaseOf_setCall]
    rintro rfl
    rcases hcases with ⟨-, hp, -⟩ | ⟨-, -, hp, -⟩ | ⟨-, -, hp, -⟩ | ⟨-, -, hp, -⟩
    all_goals cases hp
  | table t =>
    simp only [enter, through] at safe ⊢
    rcases s.enterTable_cases c call t with
      ⟨-, aborts, -⟩ | ⟨locked, seen, -⟩ | ⟨v, -, -, ⟨-, hs⟩ | ⟨-, -, hs⟩ | ⟨-, -, hs⟩⟩
    · rw [safe] at aborts
      cases aborts
    · have free := guard?_of_possible possible hc (by rw [phase]; rfl) through seen
      cases (SlotTable.isLocked_eq_false.mpr free).symm.trans locked
    all_goals
      rw [hs, phaseOf_setCall]
      intro same
      cases same

/-- A completion gets its call further, unless it aborts. -/
theorem phaseOf_complete_ne {executor : Executor} {ending : Ending} (inv : s.board.Inv)
    (possible : s.Possible (.advance c)) (hc : s.calls.get? c = some call)
    (phase : call.phase = .completing ending) (through : s.executorOf call = some executor)
    (safe : (s.complete c call ending).1.violation = none) :
    (s.complete c call ending).1.phaseOf c ≠ .completing ending := by
  cases executor with
  | registry r =>
    simp only [complete, through, retire] at safe ⊢
    split at safe
    · cases safe
    · rw [phaseOf_setPhase]
      intro same
      cases same
  | table t =>
    have free := SlotTable.isLocked_eq_false.mpr (guard?_of_possible possible hc
      (by rw [phase]; rfl) through (isSome_slotSeen? inv hc (by rw [phase]; rfl) through))
    simp only [complete, through, settle, free]
    show (State.phaseOf (State.setCall ..) c) ≠ _
    rw [phaseOf_setCall]
    intro same
    cases same

/-- A look at a slot that is not running gets a call further, unless it aborts. -/
theorem phaseOf_observe_ne {v : UInt32} (seen : s.slotSeen? call = some v) (ended : v ≠ slotRunning)
    (safe : (s.observe c call).1.violation = none) :
    (s.observe c call).1.phaseOf c ≠ .polling := by
  simp only [observe, seen, if_neg ended] at safe ⊢
  split at safe
  next done =>
    rw [if_pos done, phaseOf_setPhase]
    intro same
    cases same
  · cases safe

/-- A step that is not a wait gets its call further, unless it aborts. -/
theorem phaseOf_effect_ne {s' : State α} {notices : List (Notice α)}
    (effect : Effect s c call s' notices) (eager : call.phase.isPatient = false)
    (safe : s'.violation = none) : s'.phaseOf c ≠ call.phase := by
  have hset {next : State α} {mine : Call α} (h : mine.phase ≠ call.phase) :
      (next.setCall c mine).phaseOf c ≠ call.phase := by
    rwa [phaseOf_setCall]
  cases effect with
  | rests patient =>
    rw [patient] at eager
    cases eager
  | late phase | meets phase | joins phase | wins phase | lacks phase | recurs phase | loses phase
    | claims phase | resumes phase | parks phase | follows phase | breaks phase | misses phase
    | retires phase | settles phase =>
    rw [phase] at eager
    cases eager
  | fails => cases safe
  | @hands waiter rest ending phase =>
    rw [phaseOf_hands, phase]
    intro same
    exact List.cons_ne_self _ _ (Phase.resuming.inj same).1.symm
  | skips phase =>
    refine hset ?_
    rcases phase with phase | phase
    all_goals
      rw [phase]
      intro same
      cases same
  | returns phase =>
    refine hset ?_
    rcases phase with phase | phase
    all_goals
      rw [phase]
      intro same
      cases same
  | finds phase | asks phase | ties phase | strays phase | sees phase | contends phase
    | reserves phase | discards phase | publishes phase | marks phase | releases phase
    | goesOn phase | leaves phase | concludes phase =>
    refine hset ?_
    rw [phase]
    intro same
    cases same

/-- **A call that does not wait gets further** with its next step, unless its initializer runs or
the step aborts. -/
theorem phaseOf_advance_ne {executor : Executor} (inv : s.board.Inv) (alive : s.violation = none)
    (possible : s.Possible (.advance c)) (hc : s.calls.get? c = some call)
    (through : s.executorOf call = some executor) (seen : s.HasSeen call call.phase) (active : call.phase.isOver = false)
    (idle : call.phase ≠ .running) (goes : ¬s.Waits c)
    (safe : (s.advance c).1.violation = none) : (s.advance c).1.phaseOf c ≠ call.phase := by
  have eager (h : call.phase.isPatient = false) : (s.advance c).1.phaseOf c ≠ call.phase :=
    phaseOf_effect_ne (effect_advance alive hc) h safe
  cases phase : call.phase with
  | running => exact absurd phase idle
  | ended =>
    rw [phase] at active
    cases active
  | contending =>
    simp only [advance, alive, hc, phase] at safe ⊢
    exact phaseOf_enter_ne possible hc phase through safe
  | completing ending =>
    simp only [advance, alive, hc, phase] at safe ⊢
    exact phaseOf_complete_ne inv possible hc phase through safe
  | queued signal =>
    have raised : signal.isRaised = true := by
      rw [← Bool.not_eq_false]
      exact fun unraised => goes ⟨call, hc, Or.inl ⟨signal, phase, unraised⟩⟩
    simp only [advance, alive, hc, phase, await, raised, if_true]
    rw [phaseOf_setPhase]
    intro same
    cases same
  | polling =>
    rw [phase] at seen
    obtain ⟨o, n, htable, within, -⟩ := seen
    obtain ⟨table, maps, rfl⟩ := exists_maps htable
    obtain ⟨v, found⟩ : ∃ v, s.slotSeen? call = some v := by
      rw [slotSeen?, maps.executorOf]
      refine Option.ne_none_iff_exists'.mp fun none => ?_
      exact outside_iff.mp none within
    have ended : v ≠ slotRunning := by
      rintro rfl
      exact goes ⟨call, hc, Or.inr ⟨phase, found⟩⟩
    simp only [advance, alive, hc, phase] at safe ⊢
    exact phaseOf_observe_ne found ended safe
  | _ =>
    rw [← phase]
    exact eager (by rw [phase]; rfl)

end State

end RunOnce.Protocol
