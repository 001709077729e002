import RunOnce.Protocol.Step

/-!
# Runs of the protocol

**Actions** (`Action`). A caller starts a call (`issue`), a call takes its next atomic step
(`advance`), an initializer ends (`finish`), or the future of a call is dropped while it is not
being polled (`abandon`).

**Runs** (`Run`). A run is a list of moments, each an action in the state in which it is taken. At
every moment any possible action may come next, so what holds in all runs holds for every
interleaving. A rule may narrow down which actions are taken.

**Initializers.** `started` and `ended` read off a run whose initializers have started and ended,
in this order.
-/

namespace RunOnce.Protocol

variable {α : Type}

/-- One of the ways in which the state changes. -/
inductive Action (α : Type)
  | issue (call : Call α)
  | advance (c : Nat)
  | finish (c : Nat) (ending : Ending) (value : Option α)
  | abandon (c : Nat)

/-- The call that takes part in an action; a call that is only issued does not yet. -/
def Action.subject? : Action α → Option Nat
  | .issue _ => none
  | .advance c | .finish c _ _ | .abandon c => some c

/-- The call that an action is about: its subject, or the call that is issued. -/
def Action.call (s : State α) (a : Action α) : Nat := a.subject?.getD s.nextKey

/-- Whether an initializer runs, or stores the value that it returned. -/
def Phase.isInside : Phase α → Bool
  | .running | .storing _ | .publishing _ => true
  | _ => false

/-- Whether a future in this phase rests: it was never polled, or waits to be polled again. -/
def Phase.isResting : Phase α → Bool
  | .probing | .arriving | .running | .queued _ | .polling => true
  | _ => false

/-- Whether the next step of a call in this phase needs a lock. -/
def Phase.needsLock : Phase α → Bool
  | .contending | .completing _ => true
  | _ => false

/-- A call that a caller can start. One with an enclosing call is made by its initializer. -/
structure Call.IsNew (s : State α) (call : Call α) : Prop where
  phase : call.phase = .probing ∨ call.phase = .arriving
  initiator : call.initiator = none
  flag : ∃ flag, s.flags.get? call.flag = some flag
  target : ∃ target, s.targets.get? call.target = some target
  enclosing : ∀ outer, call.enclosing = some outer → s.phaseOf outer = .running

namespace State

/-- The state after an action. -/
def act (s : State α) : Action α → State α
  | .issue call => (s.issue call).2
  | .advance c => (s.advance c).1
  | .finish c ending value => s.finish c ending value
  | .abandon c => s.abandon c

/-- Whether a call has come to a lock that is taken. -/
def isLockedOut (s : State α) (c : Nat) : Bool :=
  match s.calls.get? c with
  | none => false
  | some call =>
    call.phase.needsLock && (s.slotSeen? call).isSome && (s.executorOf call).any Executor.isLocked

/-- Whether an action can be taken. A call takes no step before a lock that is taken. Initializers
return or unwind by themselves; only a future that rests is dropped. -/
def Possible (s : State α) : Action α → Prop
  | .issue call => call.IsNew s
  | .advance c => s.isLockedOut c = false
  | .finish _ ending _ => ending ≠ .dropped
  | .abandon c =>
    ∃ call, s.calls.get? c = some call ∧ call.flavour = .async ∧ call.phase.isResting = true

/-- Whether the initializer of a call runs. -/
def isInside (s : State α) (c : Nat) : Bool := (s.phaseOf c).isInside

theorem phaseOf_of_get? {s : State α} {c : Nat} {call : Call α} (hc : s.calls.get? c = some call) :
    s.phaseOf c = call.phase := by
  rw [phaseOf, hc]

/-- A call that is not over is there. -/
theorem get?_of_phaseOf {s : State α} {c : Nat} {phase : Phase α} (hc : s.phaseOf c = phase)
    (unended : ∀ outcome, phase ≠ .ended outcome) :
    ∃ call, s.calls.get? c = some call ∧ call.phase = phase := by
  cases known : s.calls.get? c with
  | none =>
    rw [phaseOf, known] at hc
    exact absurd hc.symm (unended _)
  | some call =>
    rw [phaseOf_of_get? known] at hc
    exact ⟨call, rfl, hc⟩

theorem table_of_slotSeen? {s : State α} {call : Call α} {v : UInt32}
    (seen : s.slotSeen? call = some v) : ∃ table, s.executorOf call = some (.table table) := by
  unfold slotSeen? at seen
  split at seen
  next table through => exact ⟨table, through⟩
  · cases seen
  · cases seen

/-- A call that needs no lock may take its next step. -/
theorem possible_of_needsLock {s : State α} {c : Nat} {call : Call α}
    (hc : s.calls.get? c = some call) (needs : call.phase.needsLock = false) :
    s.Possible (.advance c) := by
  simp only [Possible, isLockedOut, hc, needs, Bool.false_and]

theorem possible_of_phaseOf {s : State α} {c : Nat} {phase : Phase α} (hc : s.phaseOf c = phase)
    (needs : phase.needsLock = false) : s.Possible (.advance c) := by
  cases known : s.calls.get? c with
  | none => simp only [Possible, isLockedOut, known]
  | some call =>
    rw [phaseOf_of_get? known] at hc
    exact possible_of_needsLock known (by rw [hc]; exact needs)

/-- A call that comes to the lock of a slot table and takes its next step finds it free. -/
theorem guard?_of_possible {s : State α} {c : Nat} {call : Call α} {t : SlotTable}
    (possible : s.Possible (.advance c)) (hc : s.calls.get? c = some call)
    (needs : call.phase.needsLock = true) (through : s.executorOf call = some (.table t))
    (seen : (t.state? s.image.directory (s.flagOf call).id).isSome = true) : t.guard? = none := by
  have free : s.isLockedOut c = false := possible
  simp only [isLockedOut, hc, needs, slotSeen?, through, seen, Bool.true_and, Option.any_some,
    Executor.isLocked] at free
  exact SlotTable.isLocked_eq_false.mp free

theorem phaseOf_setCall (s : State α) (c : Nat) (call : Call α) :
    (s.setCall c call).phaseOf c = call.phase := phaseOf_of_get? (Store.get?_set_self ..)

theorem phaseOf_setPhase (s : State α) (c : Nat) (call : Call α) (phase : Phase α) :
    (s.setPhase c call phase).phaseOf c = phase := phaseOf_setCall ..

/-- Nothing is in flight, no lock is taken, and every slot table has its object. -/
structure IsFresh (s : State α) : Prop where
  calls : ∀ c, s.calls.get? c = none
  registries : ∀ t target r, s.targets.get? t = some target → target.executor = .registry r →
    r.operations = []
  tables : ∀ t target table, s.targets.get? t = some target → target.executor = .table table →
    table.claims = [] ∧ ∃ object, s.image.directory.objects.get? table.mapping.object = some object
  locks : ∀ t target, s.targets.get? t = some target → target.executor.isLocked = false
  violation : s.violation = none

/-- Without calls and with empty registries only, nothing is in flight. -/
theorem isFresh_of_registries {s : State α} (calls : ∀ c, s.calls.get? c = none)
    (targets : ∀ t target, s.targets.get? t = some target → target.executor = .registry {})
    (violation : s.violation = none) : s.IsFresh where
  calls := calls
  registries t target r ht he := by
    rw [targets t target ht] at he
    cases he
    rfl
  tables t target table ht he := by
    rw [targets t target ht] at he
    cases he
  locks t target ht := by
    rw [targets t target ht]
    rfl
  violation := violation

end State

/-- An action in the state in which it is taken. -/
structure Moment (α : Type) where
  state : State α
  action : Action α

namespace Moment

/-- The state that a moment leads to. -/
def next (m : Moment α) : State α := m.state.act m.action

/-- The call whose initializer starts. -/
def starts? (m : Moment α) : Option Nat :=
  m.action.subject?.filter fun c => !m.state.isInside c && m.next.isInside c

/-- The call whose initializer ends. -/
def ends? (m : Moment α) : Option Nat :=
  m.action.subject?.filter fun c => m.state.isInside c && !m.next.isInside c

end Moment

/-- The calls whose initializers have started, in order. -/
def started (past : List (Moment α)) : List Nat := past.filterMap Moment.starts?

/-- The calls whose initializers have ended, in order. -/
def ended (past : List (Moment α)) : List Nat := past.filterMap Moment.ends?

/-- The moments from one state to another, by actions that a rule admits. Nothing comes after a
violation. -/
inductive Run (rule : State α → Action α → Prop) (s₀ : State α) : List (Moment α) → State α → Prop
  | start : Run rule s₀ [] s₀
  | step {past : List (Moment α)} {s : State α} {a : Action α} (run : Run rule s₀ past s)
      (alive : s.violation = none) (possible : s.Possible a) (admitted : rule s a) :
      Run rule s₀ (past ++ [⟨s, a⟩]) (s.act a)

@[simp] theorem started_concat (past : List (Moment α)) (m : Moment α) :
    started (past ++ [m]) = started past ++ m.starts?.toList := by
  cases h : m.starts? <;> simp [started, h]

@[simp] theorem ended_concat (past : List (Moment α)) (m : Moment α) :
    ended (past ++ [m]) = ended past ++ m.ends?.toList := by
  cases h : m.ends? <;> simp [ended, h]

/-- What holds at the start and is kept by every moment holds after every run. -/
theorem Run.invariant {rule : State α → Action α → Prop} {s₀ s : State α}
    {past : List (Moment α)} {P : List (Moment α) → State α → Prop} (run : Run rule s₀ past s)
    (start : P [] s₀)
    (step : ∀ past s a, P past s → s.violation = none → s.Possible a → rule s a →
      P (past ++ [⟨s, a⟩]) (s.act a)) : P past s := by
  induction run with
  | start => exact start
  | step _ alive possible admitted ih => exact step _ _ _ ih alive possible admitted

/-- A run goes by every rule that admits its actions. -/
theorem Run.weaken {rule rule' : State α → Action α → Prop} {s₀ s : State α}
    {past : List (Moment α)} (run : Run rule s₀ past s)
    (admits : ∀ past s a, Run rule s₀ past s → rule s a → rule' s a) : Run rule' s₀ past s := by
  induction run with
  | start => exact .start
  | step run alive possible admitted ih => exact ih.step alive possible (admits _ _ _ run admitted)

/-- One run after another. -/
theorem Run.trans {rule : State α → Action α → Prop} {s₀ s s' : State α}
    {past later : List (Moment α)} (run : Run rule s₀ past s) (more : Run rule s later s') :
    Run rule s₀ (past ++ later) s' := by
  induction more with
  | start => simpa using run
  | step _ alive possible admitted ih =>
    rw [← List.append_assoc]
    exact ih.step alive possible admitted

/-- Every moment of a run comes after the run up to it. -/
theorem Run.split {rule : State α → Action α → Prop} {s₀ s : State α}
    {before after : List (Moment α)} {m : Moment α} (run : Run rule s₀ (before ++ m :: after) s) :
    Run rule s₀ before m.state ∧ m.state.violation = none ∧ m.state.Possible m.action ∧
      rule m.state m.action := by
  generalize hall : before ++ m :: after = past at run
  induction run generalizing after with
  | start => simp at hall
  | @step past s a run alive possible admitted ih =>
    rcases List.eq_nil_or_concat after with rfl | ⟨rest, last, rfl⟩
    · obtain ⟨rfl, hm⟩ := List.append_inj' hall rfl
      obtain rfl : m = ⟨s, a⟩ := List.singleton_inj.mp hm
      exact ⟨run, alive, possible, admitted⟩
    · have hall : (before ++ m :: rest) ++ [last] = past ++ [⟨s, a⟩] := by simpa using hall
      exact ih (List.append_inj' hall rfl).1

theorem Run.before_moment {rule : State α → Action α → Prop} {s₀ s : State α}
    {past : List (Moment α)} (run : Run rule s₀ past s) {m : Moment α} (hm : m ∈ past) :
    ∃ before, Run rule s₀ before m.state ∧ m.state.violation = none ∧
      m.state.Possible m.action ∧ rule m.state m.action := by
  obtain ⟨before, after, rfl⟩ := List.append_of_mem hm
  exact ⟨before, run.split⟩

/-! ## Given actions -/

/-- The state after actions, one after another. -/
def State.acts (s : State α) : List (Action α) → State α
  | [] => s
  | a :: rest => (s.act a).acts rest

/-- The moments of actions, one after another. -/
def State.moments (s : State α) : List (Action α) → List (Moment α)
  | [] => []
  | a :: rest => ⟨s, a⟩ :: (s.act a).moments rest

/-- Actions that can be taken and are admitted, one after another. -/
def State.Allows (rule : State α → Action α → Prop) (s : State α) : List (Action α) → Prop
  | [] => True
  | a :: rest => s.violation = none ∧ s.Possible a ∧ rule s a ∧ (s.act a).Allows rule rest

theorem State.acts_append (s : State α) (actions more : List (Action α)) :
    s.acts (actions ++ more) = (s.acts actions).acts more := by
  induction actions generalizing s with
  | nil => rfl
  | cons a rest ih => exact ih (s.act a)

theorem State.Allows.weaken {rule rule' : State α → Action α → Prop} {s : State α}
    {actions : List (Action α)} (allowed : s.Allows rule actions)
    (admits : ∀ s a, rule s a → rule' s a) : s.Allows rule' actions := by
  induction actions generalizing s with
  | nil => trivial
  | cons a rest ih =>
    obtain ⟨alive, possible, admitted, allowed⟩ := allowed
    exact ⟨alive, possible, admits s a admitted, ih allowed⟩

theorem State.Allows.append {rule : State α → Action α → Prop} {s : State α}
    {actions more : List (Action α)} (allowed : s.Allows rule actions)
    (after : (s.acts actions).Allows rule more) : s.Allows rule (actions ++ more) := by
  induction actions generalizing s with
  | nil => exact after
  | cons a rest ih =>
    obtain ⟨alive, possible, admitted, allowed⟩ := allowed
    exact ⟨alive, possible, admitted, ih allowed after⟩

/-- A run goes on with the actions that are allowed. -/
theorem Run.append {rule : State α → Action α → Prop} {s₀ s : State α} {past : List (Moment α)}
    (run : Run rule s₀ past s) {actions : List (Action α)} (allowed : s.Allows rule actions) :
    Run rule s₀ (past ++ s.moments actions) (s.acts actions) := by
  induction actions generalizing past s with
  | nil => simpa [State.moments, State.acts] using run
  | cons a rest ih =>
    obtain ⟨alive, possible, admitted, allowed⟩ := allowed
    have hnext := ih (run.step alive possible admitted) allowed
    rwa [List.append_assoc] at hnext

theorem Run.of_allows {rule : State α → Action α → Prop} {s : State α}
    {actions : List (Action α)} (allowed : s.Allows rule actions) :
    Run rule s (s.moments actions) (s.acts actions) := Run.start.append allowed

end RunOnce.Protocol
