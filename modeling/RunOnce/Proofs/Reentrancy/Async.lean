import RunOnce.Proofs.Reentrancy.Refusal
import RunOnce.Proofs.Waiting.Lock

/-!
# Reentrancy inside of asynchronous initializers

**Theorem (`async_reentrancy_caught`).** Let an asynchronous call run its initializer, with its flag
still clear. Every call for the same flag through the same target that this initializer makes, or
that an initializer makes which it made, and so on, blocking or asynchronous, is told that it is
reentrant, and it leaves everything untouched. It never queues, and it never looks at the slot. It
waits for nobody but a call that drops its guard for another handle, with the lock of the table
taken.

The call has a token, since it is asynchronous. All calls between the two take the token over,
whichever of them are blocking, so in its locked section the inner one meets its own identity.
-/

namespace RunOnce.Protocol

open Relation State

variable {α : Type} {s : State α} {c w : Nat} {outer call : Call α}
  {rule : State α → Action α → Prop} {s₀ : State α} {past : List (Moment α)}

/-- What becomes of a call that goes for what an initializer around it has in flight. -/
structure Caught (past : List (Moment α)) (s : State α) (c : Nat) (call : Call α) : Prop where
  /-- It has not entered yet, or it was told, or its future was dropped before that. A call that
  wants the value of a global may also be answered before it asks. -/
  phase : call.phase.isEarly = true ∨
    call.phase = .ended (.failed (.reentrant (s.flagOf call).id)) ∨
    call.phase = .ended .dropped ∨ call.cell ≠ none ∧ call.phase.isOver = true
  /-- Its flag is clear when it arrives. -/
  arrives : call.phase = .arriving → (s.act (.advance c)).phaseOf c = .contending
  told : call.phase = .contending → s.Possible (.advance c) →
    (s.act (.advance c)).phaseOf c = .ended (.failed (.reentrant (s.flagOf call).id)) ∧
      (Moment.mk s (.advance c)).Spares
  /-- A lock that is taken is given back. -/
  waits : s.isLockedOut c = true → ∃ k, s.FreedBy c k
  untouched : Untouched past c

/-- Whoever an asynchronous call encloses comes under its token. -/
theorem Run.identify_eq_of_recurs (run : Run rule s₀ past s) (fresh : s₀.IsFresh)
    (recurs : s.Recurs w c outer call) (async : outer.flavour = .async) :
    outer.initiator = some (s.identify call).1 := by
  have lineage := run.lineage fresh
  obtain ⟨who, hwho⟩ := Option.ne_none_iff_exists'.mp
    (lineage.inside w outer recurs.here recurs.inFlight)
  rcases run.initiator_cases fresh recurs.here hwho with ⟨token, rfl⟩ | ⟨blocking, -⟩
  · have htoken : s.tokenOf? w = some token := by
      rw [tokenOf?_of_get? recurs.here, hwho]
      rfl
    have inherits := lineage.inherited?_of_encloses htoken recurs.encloses recurs.mine
    rcases s.identify_cases call with ⟨t, hin, he⟩ | ⟨hnone, -⟩ | ⟨hnone, -⟩
    · rw [inherits] at hin
      cases hin
      rw [he, hwho]
    · rw [inherits] at hnone
      cases hnone
    · rw [inherits] at hnone
      cases hnone
  · rw [async] at blocking
    cases blocking

/-- **Reentrancy inside of an asynchronous initializer is always caught.** While an asynchronous
call runs the initializer of a flag that is clear, a call for this flag through the same target,
blocking or asynchronous, which it encloses at any depth, goes on to its locked section and is told
there that it is reentrant. It has changed nothing, and it waits for nothing but that the lock of
its table is given back. -/
theorem async_reentrancy_caught (run : Run rule s₀ past s) (fresh : s₀.IsFresh)
    (alive : s.violation = none) (hw : s.calls.get? w = some outer)
    (async : outer.flavour = .async) (running : outer.phase = .running)
    (clear : (s.flagOf outer).isDone = false) (hc : s.calls.get? c = some call)
    (encloses : Encloses s w c) (target : call.target = outer.target)
    (flag : call.flag = outer.flag) : Caught past s c call := by
  have hflag : s.flagOf call = s.flagOf outer := by rw [flagOf, flagOf, flag]
  rw [← hflag] at clear
  have recurs : s.Recurs w c outer call :=
    { here := hw, mine := hc, encloses := encloses, inFlight := by rw [running]; rfl
      target := target, id := by rw [hflag] }
  obtain ⟨barred, untouched⟩ := run.barred (P := (· = .async)) fresh
    (fun _ _ _ _ _ _ run recurs async _ => run.identify_eq_of_recurs fresh recurs async)
    recurs async
  refine { phase := barred.of_clear clear, arrives := ?_, told := ?_, untouched := untouched,
           waits := (run.locks fresh).freed alive }
  · intro arriving
    show (s.advance c).1.phaseOf c = _
    simp only [advance, alive, hc, arriving, load, clear]
    exact phaseOf_setCall ..
  · intro contending possible
    exact recurs.told (run.board_inv fresh) (run.lineage fresh) alive possible clear contending
      (run.identify_eq_of_recurs fresh recurs async)

/-- The asynchronous initializer of one flag makes a blocking call for the other one, and its
initializer an asynchronous call for the first one again, which is about to enter. -/
def chainActions : List (Action Unit) :=
  [.issue { flavour := .async, thread := "main", target := 0, flag := 1, phase := .arriving },
    .advance 3, .advance 3,
    .issue { flavour := .blocking, thread := "main", enclosing := some 3, target := 0, flag := 2,
             phase := .arriving },
    .advance 4, .advance 4,
    .issue { flavour := .async, thread := "main", enclosing := some 4, target := 0, flag := 1,
             phase := .arriving },
    .advance 5]

theorem chain_allowed : siblingsStart.Allows (fun _ _ => True) chainActions := by
  have hinside {s : State Unit} {k : Nat} (hs : s.phaseOf k = .running) (outer : Nat)
      (ho : some k = some outer) : s.phaseOf outer = .running := by
    cases ho
    exact hs
  exact ⟨rfl, ⟨Or.inr rfl, rfl, ⟨_, rfl⟩, ⟨_, rfl⟩, nofun⟩, trivial,
    rfl, rfl, trivial, rfl, rfl, trivial,
    rfl, ⟨Or.inr rfl, rfl, ⟨_, rfl⟩, ⟨_, rfl⟩, hinside rfl⟩, trivial,
    rfl, rfl, trivial, rfl, rfl, trivial,
    rfl, ⟨Or.inr rfl, rfl, ⟨_, rfl⟩, ⟨_, rfl⟩, hinside rfl⟩, trivial,
    rfl, rfl, trivial, trivial⟩

/-- The innermost call is told that it is reentrant, and it has left everything untouched. -/
theorem async_reentrancy_caught_chain :
    (siblingsStart.acts (chainActions ++ [.advance 5])).phaseOf 5 =
      .ended (.failed (.reentrant ⟨15⟩)) ∧
    (Moment.mk (siblingsStart.acts chainActions) (.advance 5)).Spares ∧
    Untouched (siblingsStart.moments chainActions) 5 := by
  have encloses : Encloses (siblingsStart.acts chainActions) 3 5 :=
    .tail (.single ⟨_, rfl, rfl⟩) ⟨_, rfl, rfl⟩
  have caught := async_reentrancy_caught (Run.of_allows chain_allowed) siblings_isFresh rfl
    (w := 3) (c := 5) rfl rfl rfl rfl rfl encloses rfl rfl
  obtain ⟨htold, spares⟩ := caught.told rfl rfl
  exact ⟨htold, spares, caught.untouched⟩

end RunOnce.Protocol
