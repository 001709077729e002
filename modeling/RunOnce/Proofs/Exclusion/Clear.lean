import RunOnce.Proofs.Exclusion.Local
import RunOnce.Proofs.Exclusion.Shared
import RunOnce.Proofs.Protocol.Effect
import RunOnce.Proofs.Waiting.Refine

/-!
# What is in flight is not done

**Theorem (`Run.clear_of_inFlight`).** While a call has the initialization of a flag in flight, this
flag is clear, as long as the flag is used through one target only.

Through a registry this is what its account says. Through a slot table nobody looks at the flag
under the lock; but a flag that is set has its slot done, and the slot of what is in flight is
running. This leaves flags that were set from the beginning: a call finds its flag clear before it
comes to the locked section (`Run.found_clear`).
-/

namespace RunOnce.Protocol

open State

variable {α : Type} {s s₀ : State α} {a : Action α} {past : List (Moment α)} {c : Nat}
  {call call' : Call α} {rule : State α → Action α → Prop}

/-- A flag that is set stays so in what comes later. -/
theorem Run.isSet_later (run : Run rule s₀ past s) (fresh : s₀.IsFresh) {f : Nat}
    (set : s.isSet f = true) {later : List (Moment α)} {s' : State α} (more : Run rule s later s') :
    s'.isSet f = true := by
  induction more with
  | start => exact set
  | step more alive possible _ ih =>
    exact (turn_act ((run.trans more).board_inv fresh) alive possible).isSet_mono ih

/-- Flags stay set in a run. -/
theorem Run.isSet_mono (run : Run rule s₀ past s) (fresh : s₀.IsFresh) {f : Nat}
    (set : s₀.isSet f = true) : s.isSet f = true := Run.start.isSet_later fresh set run

/-- The target of a call is there. -/
theorem Run.exists_target (run : Run rule s₀ past s) (fresh : s₀.IsFresh)
    (hc : s.calls.get? c = some call) : ∃ target, s.targets.get? call.target = some target := by
  induction run generalizing call with
  | start =>
    rw [fresh.calls c] at hc
    cases hc
  | step run alive possible _ ih =>
    refine exists_target_act alive possible ?_
    rcases calls_act hc with ⟨rfl, -⟩ | ⟨before, hbefore, becomes⟩
    · exact possible.target
    · rw [becomes.alike.target]
      exact ih hbefore

/-- A call comes to its locked section when it arrives and finds its flag clear. -/
theorem clear_effect {s' : State α} {notices : List (Notice α)}
    (effect : Effect s c call s' notices) (hc : s.calls.get? c = some call)
    (before : call.phase ≠ .contending) (after : s'.phaseOf c = .contending) :
    call.phase = .arriving ∧ (s.flagOf call).isDone = false := by
  have hset {next : State α} {mine : Call α} (h : (next.setCall c mine).phaseOf c = .contending) :
      mine.phase = .contending := by
    rwa [phaseOf_setCall] at h
  cases effect with
  | contends phase clear => exact ⟨phase, clear⟩
  | rests | lacks | breaks | misses | fails =>
    have hsame : s.phaseOf c = .contending := after
    rw [phaseOf_of_get? hc] at hsame
    exact absurd hsame before
  | late phase | meets phase | joins phase | wins phase | recurs phase | loses phase
    | claims phase => exact absurd phase before
  | @hands waiter rest ending =>
    rw [phaseOf_hands] at after
    cases after
  | _ => cases hset after

theorem clear_act (alive : s.violation = none) (possible : s.Possible a)
    (fresh : s.calls.get? s.nextKey = none) (hc : s.calls.get? c = some call)
    (before : call.phase ≠ .contending) (after : (s.act a).phaseOf c = .contending) :
    a = .advance c ∧ call.phase = .arriving ∧ (s.flagOf call).isDone = false := by
  have hphase := phaseOf_of_get? hc
  by_cases mine : c = a.call s
  · have impact := impact_act alive possible
    generalize s.act a = s' at impact after
    have hset {next : State α} {k : Nat} {mine : Call α} (hk : c = k)
        (h : (next.setCall k mine).phaseOf c = .contending) : mine.phase = .contending := by
      rwa [hk, phaseOf_setCall] at h
    cases impact with
    | idles =>
      rw [hphase] at after
      exact absurd after before
    | issues =>
      rw [show c = s.nextKey from mine, fresh] at hc
      cases hc
    | steps known effect =>
      obtain rfl : c = _ := mine
      rw [hc] at known
      cases known
      exact ⟨rfl, clear_effect effect hc before after⟩
    | yields => cases hset mine after
    | ends ending subject =>
      rw [Action.call, subject] at mine
      cases hset mine after
    | drops => cases hset mine after
  · rcases phaseOf_act_of_ne alive possible mine with hsame | ⟨signal, -, hqueued⟩
    · rw [hsame, hphase] at after
      exact absurd after before
    · rw [after] at hqueued
      cases hqueued

/-- **A call whose initialization is in flight found its flag clear**, and so did one that is about
to enter. -/
theorem Run.found_clear (run : Run rule s₀ past s) (fresh : s₀.IsFresh)
    (hc : s.calls.get? c = some call)
    (entered : call.phase = .contending ∨ call.phase.isInFlight = true) :
    s₀.isSet call.flag = false := by
  induction run generalizing call with
  | start =>
    rw [fresh.calls c] at hc
    cases hc
  | @step past s a run alive possible _ ih =>
    rcases calls_act hc with ⟨rfl, -⟩ | ⟨before, hbefore, becomes⟩
    · rcases possible.phase with hp | hp <;> rw [hp] at entered <;>
        rcases entered with entered | entered <;> cases entered
    · have hflag : call.flag = before.flag := becomes.alike.flag
      rw [hflag]
      by_cases contending : before.phase = .contending
      · exact ih hbefore (Or.inl contending)
      by_cases inFlight : before.phase.isInFlight = true
      · exact ih hbefore (Or.inr inFlight)
      -- The call comes to its locked section now.
      have harrived : call.phase = .contending := by
        rcases entered with entered | entered
        · exact entered
        · cases becomes with
          | stays => exact absurd entered inFlight
          | approaches phase _ after =>
            have early : phase.isEarly = false := Phase.isEarly_of_isInFlight entered
            rw [early] at after
            cases after
          | continues phase before => exact absurd before inFlight
          | moves phase plain =>
            have entered : phase.isInFlight = true := entered
            rw [Phase.isInFlight_of_isPlain plain] at entered
            cases entered
          | enters phase act before => exact absurd before contending
      rw [← phaseOf_of_get? hc] at harrived
      obtain ⟨-, -, clear⟩ := clear_act alive possible (run.fresh_keys fresh (Nat.le_refl _))
        hbefore contending harrived
      rw [← isSet_eq] at clear
      rw [Bool.eq_false_iff]
      intro set
      rw [run.isSet_mono fresh set] at clear
      cases clear

/-- **What is in flight is not done.** A flag that is used through one target is clear while a call
has its initialization in flight. -/
theorem Run.clear_of_inFlight {t f : Nat} (run : Run (UsedThrough t (· = f)) s₀ past s)
    (fresh : s₀.IsFresh) (hc : s.calls.get? c = some call) (flag : call.flag = f)
    (inFlight : call.phase.isInFlight = true) : (s.flagOf call).isDone = false := by
  have inv := run.board_inv fresh
  have hcard := card?_board hc
  have hp : forFlag f call.card.target call.card.flag = true := decide_eq_true flag
  obtain ⟨-, htarget⟩ := run.used_through fresh rfl hcard hp
  have hholder : call.stage.holder? = some (call.initiator.getD default) := by
    rw [holder?_stage, if_pos inFlight]
  rw [← isSet_eq, flag]
  cases htable : s.board.table? t with
  | none =>
    have bare : s₀.board.table? t = none := by
      rw [← (run.static fresh).1]
      exact htable
    have hstage : s.board.stageOf (forFlag f) c = call.stage := Board.stageOf_of_card hcard hp
    rw [Bool.eq_false_iff]
    rw [← hstage] at hholder
    exact ((run.account_bare fresh bare rfl).held c _ hholder).2
  | some table =>
    obtain ⟨o, n⟩ := table
    have hknown := known_flagOf inv hc
    rw [Bool.eq_false_iff]
    intro set
    have used : Run (UsedOver o (· = f)) s₀ past s := by
      refine run.weaken fun past s' a run' admitted => ?_
      cases a with
      | issue new =>
        intro hflag
        rw [State.objectOf?_eq, (run'.static fresh).1, ← (run.static fresh).1, admitted hflag,
          htable]
        rfl
      | advance | finish | abandon => trivial
    have hunset : s₀.isSet f = false := by
      rw [← flag]
      exact run.found_clear fresh hc (Or.inr inFlight)
    have hid : (s₀.board.flag? f).map Flag.id = some (s.flagOf call).id := by
      rw [← (run.static fresh).2, ← flag, hknown]
      rfl
    have hdone := used.slot_done fresh (fun g hg => by rw [hg]; exact hunset) rfl hid set
    -- The slot is running, since the call holds it.
    have hclaim : s.board.claim? c = some (t, (s.flagOf call).id, call.initiator.getD default) := by
      rw [← htarget, Board.claim?_of_card hcard]
      exact Board.claimOf_eq_some hholder hknown
    rw [(inv.running c _ _ _ o n hclaim htable).2] at hdone
    cases hdone

end RunOnce.Protocol
