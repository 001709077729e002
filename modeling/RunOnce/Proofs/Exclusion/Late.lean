import RunOnce.Proofs.Exclusion.Clear

/-!
# Calls that find their flag set under the lock

A call looks at its flag when it arrives, and once more in its locked section. In between it may be
delayed for as long as it takes another call to set the flag, be it through another registry and so
under another lock, and while its own registry has an operation for the handle in flight.

**Engaging** (`Phase.Engages`). A call starts its initializer, comes to wait in a queue, or is told
that it is reentrant. Through a registry this takes a locked section that finds the flag clear
(`engages_act`).

**Theorem (`set_flag_engages_nobody`).** Let flags be shared by any number of registries. Once a
flag is set, no call for it through a registry engages, so no initializer starts. A locked section
that comes later leaves all registries as they are, and its call returns.
-/

namespace RunOnce.Protocol

open State

variable {α : Type}

/-- Whether a call starts its initializer, comes to wait in a queue, or is told that it is
reentrant. -/
def Phase.Engages (before after : Phase α) : Prop :=
  (before.isInside = false ∧ after.isInside = true) ∨
  (before.isQueued = false ∧ after.isQueued = true) ∨
  (before.isReentrant = false ∧ after.isReentrant = true)

/-- How a call returns: its flag is set, and if it wants the value of a global, there is one or
there is none. -/
inductive Call.Returns (call : Call α) : Outcome α → Prop
  | plain (unwanted : call.cell = none) : call.Returns (.ok none)
  | value {key : Nat} (wanted : call.cell = some key) (value : α) : call.Returns (.ok (some value))
  | missing {key : Nat} (wanted : call.cell = some key) (id : FlagId) : call.Returns (.missing id)

theorem Phase.not_engages_self (phase : Phase α) : ¬phase.Engages phase := by
  rintro (⟨before, after⟩ | ⟨before, after⟩ | ⟨before, after⟩) <;> cases before.symm.trans after

/-- A phase that a call comes to without engaging. -/
theorem Phase.not_engages {before after : Phase α} (outside : after.isInside = false)
    (unqueued : after.isQueued = false) (untold : after.isReentrant = false) :
    ¬before.Engages after := by
  rintro (⟨-, h⟩ | ⟨-, h⟩ | ⟨-, h⟩)
  · cases outside.symm.trans h
  · cases unqueued.symm.trans h
  · cases untold.symm.trans h

section

variable {s s' s₀ : State α} {a : Action α} {c f t : Nat} {call : Call α} {r : Registry Nat}
  {past later : List (Moment α)} {rule rule' : State α → Action α → Prop}

theorem Call.Alike.trans {call' call'' : Call α} (h : call.Alike call') (h' : call'.Alike call'') :
    call.Alike call'' :=
  ⟨h'.flavour.trans h.flavour, h'.thread.trans h.thread, h'.enclosing.trans h.enclosing,
    h'.target.trans h.target, h'.flag.trans h.flag, h'.cell.trans h.cell⟩

/-- How a call returns depends on the global that it wants. -/
theorem Call.Alike.returns {now : Call α} {outcome : Outcome α} (h : call.Alike now)
    (how : now.Returns outcome) : call.Returns outcome := by
  cases how with
  | plain unwanted => exact .plain (h.cell ▸ unwanted)
  | value wanted value => exact .value (h.cell ▸ wanted) value
  | missing wanted id => exact .missing (h.cell ▸ wanted) id

theorem returns_result (s : State α) (call : Call α) : call.Returns (s.result call) := by
  unfold State.result
  split
  next unwanted => exact .plain unwanted
  next key wanted =>
    split
    next value _ => exact .value wanted value
    next => exact .missing wanted _

theorem Call.Returns.isReentrant {outcome : Outcome α} (how : call.Returns outcome) :
    (Phase.ended outcome).isReentrant = false := by
  cases how <;> rfl

/-- **A step that engages a call** is its locked section, which finds the flag clear. -/
theorem engages_effect {notices : List (Notice α)} (effect : Effect s c call s' notices)
    (hc : s.calls.get? c = some call) (through : s.executorOf call = some (.registry r))
    (engages : call.phase.Engages (s'.phaseOf c)) :
    call.phase = .contending ∧ (s.flagOf call).isDone = false := by
  have hset {next : State α} {mine : Call α}
      (h : call.phase.Engages ((next.setCall c mine).phaseOf c)) :
      call.phase.Engages mine.phase := by
    rwa [phaseOf_setCall] at h
  cases effect with
  | meets phase _ clear | joins phase _ clear | wins phase _ clear => exact ⟨phase, clear⟩
  | recurs _ table | loses _ table | claims _ table => cases through.symm.trans table
  | rests | lacks | breaks | misses | fails =>
    have hsame : call.phase.Engages (s.phaseOf c) := engages
    rw [phaseOf_of_get? hc] at hsame
    exact (Phase.not_engages_self _ hsame).elim
  | parks phase =>
    rcases hset engages with ⟨-, h⟩ | ⟨h, -⟩ | ⟨-, h⟩
    · cases h
    · rw [phase] at h
      cases h
    · cases h
  | reserves phase =>
    rcases hset engages with ⟨h, -⟩ | ⟨-, h⟩ | ⟨-, h⟩
    · rw [phase] at h
      cases h
    · cases h
    · cases h
  | @hands waiter rest ending =>
    rw [phaseOf_hands] at engages
    exact (Phase.not_engages rfl rfl rfl engages).elim
  | leaves phase cause =>
    rcases cause with ⟨-, rfl⟩ | ⟨-, rfl⟩
    · exact (Phase.not_engages rfl rfl rfl (hset engages)).elim
    · exact (Phase.not_engages rfl rfl rfl (hset engages)).elim
  | concludes =>
    exact (Phase.not_engages rfl rfl ((returns_result s call).isReentrant) (hset engages)).elim
  | _ => exact (Phase.not_engages rfl rfl rfl (hset engages)).elim

/-- **An action that engages a call** is its locked section, which finds the flag clear. -/
theorem engages_act (alive : s.violation = none) (possible : s.Possible a)
    (fresh : s.calls.get? s.nextKey = none) (hc : s.calls.get? c = some call)
    (through : s.executorOf call = some (.registry r))
    (engages : call.phase.Engages ((s.act a).phaseOf c)) :
    call.phase = .contending ∧ (s.flagOf call).isDone = false := by
  by_cases mine : a.call s = c
  · have impact := impact_act alive possible
    generalize s.act a = s' at impact engages
    have hset {next : State α} {k : Nat} {mine : Call α} (hk : k = c)
        (h : call.phase.Engages ((next.setCall k mine).phaseOf c)) :
        call.phase.Engages mine.phase := by
      rwa [hk, phaseOf_setCall] at h
    cases impact with
    | idles =>
      rw [phaseOf_of_get? hc] at engages
      exact (Phase.not_engages_self _ engages).elim
    | issues =>
      obtain rfl : s.nextKey = c := mine
      cases hc.symm.trans fresh
    | steps known effect =>
      obtain rfl : _ = c := mine
      cases hc.symm.trans known
      exact engages_effect effect hc through engages
    | yields value known running =>
      obtain rfl : _ = c := mine
      cases hc.symm.trans known
      rcases hset rfl engages with ⟨outside, -⟩ | ⟨-, h⟩ | ⟨-, h⟩
      · rw [running] at outside
        cases outside
      · cases h
      · cases h
    | ends ending subject =>
      rw [Action.call, subject] at mine
      exact (Phase.not_engages rfl rfl rfl (hset mine engages)).elim
    | drops => exact (Phase.not_engages rfl rfl rfl (hset mine engages)).elim
  · rcases phaseOf_act_of_ne alive possible (Ne.symm mine) with hsame | ⟨signal, hqueued, hraised⟩
    · rw [hsame, phaseOf_of_get? hc] at engages
      exact (Phase.not_engages_self _ engages).elim
    · rw [phaseOf_of_get? hc] at hqueued
      rw [hqueued, hraised] at engages
      rcases engages with ⟨-, h⟩ | ⟨h, -⟩ | ⟨-, h⟩ <;> cases h

/-! ## A locked section that comes late -/

/-- The last step of a call whose flag is set. -/
theorem conclude_of_set (alive : s.violation = none) (hc : s.calls.get? c = some call)
    (phase : call.phase = .concluding) (set : (s.flagOf call).isDone = true) :
    (s.advance c).1.phaseOf c = .ended (s.result call) := by
  have hadvance : s.advance c = s.conclude c call := by simp only [advance, alive, hc, phase]
  rw [hadvance]
  simp only [conclude, result, set]
  cases call.cell with
  | none => exact phaseOf_setCall ..
  | some key =>
    cases hvalue : (s.cells.get? key).bind LazyCell.value? with
    | none => simp [hvalue, phaseOf_setPhase]
    | some value => simp [hvalue, phaseOf_setPhase]

/-! ## Runs -/

theorem Run.isRegistry (run : Run rule s₀ past s) (fresh : s₀.IsFresh)
    (registry : s₀.IsRegistry call.target) (hc : s.calls.get? c = some call) :
    ∃ r, s.executorOf call = some (.registry r) := by
  obtain ⟨target, ht⟩ := run.exists_target fresh hc
  have hbare : s.board.table? call.target = none := by
    rw [(run.static fresh).1]
    exact registry.table?
  have hexecutor : s.executorOf call = some target.executor := by
    rw [executorOf, ht, Option.map_some]
  cases he : target.executor with
  | registry r => exact ⟨r, by rw [hexecutor, he]⟩
  | table table =>
    rw [table?_board hexecutor, he] at hbare
    cases hbare

/-- Once a flag is set, no action engages a call for it through a registry. -/
theorem Run.not_engages (run : Run rule s₀ past s) (fresh : s₀.IsFresh)
    (set : s.isSet call.flag = true) (registry : s₀.IsRegistry call.target)
    (alive : s.violation = none) (possible : s.Possible a) (hc : s.calls.get? c = some call) :
    ¬(s.phaseOf c).Engages ((s.act a).phaseOf c) := by
  intro engages
  rw [phaseOf_of_get? hc] at engages
  obtain ⟨r, through⟩ := run.isRegistry fresh registry hc
  obtain ⟨-, clear⟩ :=
    engages_act alive possible (run.fresh_keys fresh (Nat.le_refl _)) hc through engages
  rw [isSet_eq, clear] at set
  cases set

/-- What becomes of a call that has passed through. -/
structure Finishing (call now : Call α) : Prop where
  alike : call.Alike now
  phase : now.phase = .concluding ∨ ∃ outcome, now.phase = .ended outcome ∧ call.Returns outcome

theorem Finishing.act {now : Call α} (h : Finishing call now) (alive : s.violation = none)
    (possible : s.Possible a) (fresh : s.calls.get? s.nextKey = none)
    (hc : s.calls.get? c = some now) (set : (s.flagOf now).isDone = true) :
    ∃ later, (s.act a).calls.get? c = some later ∧ Finishing call later := by
  obtain ⟨later, hlater, becomes⟩ := call_act (a := a) fresh hc
  refine ⟨later, hlater, h.alike.trans becomes.alike, ?_⟩
  rw [← phaseOf_of_get? hlater]
  rcases h.phase with concluding | ⟨outcome, ended, how⟩
  · rcases phaseOf_act_cases alive possible hc fresh (by rw [concluding]; nofun) with
      hsame | ⟨signal, hqueued, -⟩ | ⟨rfl, -⟩ | ⟨rfl, -⟩
    · exact Or.inl (hsame.trans concluding)
    · cases concluding.symm.trans hqueued
    · exact Or.inr ⟨_, conclude_of_set alive hc concluding set,
        h.alike.returns (returns_result s now)⟩
    · obtain ⟨dropped, hdropped, -, resting⟩ := possible
      cases hc.symm.trans hdropped
      rw [concluding] at resting
      cases resting
  · rw [phaseOf_act_of_over alive possible hc (by rw [ended]; rfl) fresh, phaseOf_of_get? hc]
    exact Or.inr ⟨outcome, ended, how⟩

end

end RunOnce.Protocol
