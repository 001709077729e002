import RunOnce.Proofs.Reentrancy.Report
import RunOnce.Proofs.Waiting.Refine

/-!
# Calls that meet what encloses them

**Nesting** (`Encloses`). Actions keep which calls enclose which, and they add nothing to what
encloses a call that is there. A call takes over the token of every call that encloses it, over any
number of calls between them (`Lineage.inherited?_of_encloses`).

**Refusals** (`Untouched`). A call that is told that it is reentrant has done nothing before but
look, and it leaves flags, executors and slots exactly as they were.

**Calls that are barred** (`Barred`). Let a call go for what a call that encloses it has in flight,
and let it come under the same identity. Then it never waits, polls or starts: it has not entered
yet, or it was told, unless its flag was set elsewhere in the meantime (`Run.barred`).
-/

namespace RunOnce.Protocol

open Relation State

variable {α : Type} {s : State α} {a : Action α} {c w : Nat} {call call' : Call α}

/-! ## Nesting -/

theorem encloses_iff : Encloses s w c ↔ ∃ call outer, s.calls.get? c = some call ∧
    call.enclosing = some outer ∧ (w = outer ∨ Encloses s w outer) := by
  constructor
  · intro h
    obtain ⟨outer, hunder, call, hc, henclosing⟩ := TransGen.tail'_iff.mp h
    refine ⟨call, outer, hc, henclosing, ?_⟩
    rcases reflTransGen_iff_eq_or_transGen.mp hunder with heq | hencloses
    · exact Or.inl heq.symm
    · exact Or.inr hencloses
  · rintro ⟨call, outer, hc, henclosing, rfl | hencloses⟩
    · exact .single ⟨call, hc, henclosing⟩
    · exact hencloses.tail ⟨call, hc, henclosing⟩

/-- A call that encloses another one knows who it is. -/
theorem Lineage.named_of_encloses (h : Lineage s) (encloses : Encloses s w c) :
    ∃ outer, s.calls.get? w = some outer ∧ outer.initiator ≠ none := by
  obtain ⟨inner, ⟨call, hc, henclosing⟩, -⟩ := TransGen.head'_iff.mp encloses
  exact (h.earlier inner call w hc henclosing).2

theorem Encloses.act (fresh : s.calls.get? s.nextKey = none) (encloses : Encloses s w c) :
    Encloses (s.act a) w c := by
  refine TransGen.mono ?_ w c encloses
  rintro outer k ⟨call, hc, henclosing⟩
  obtain ⟨call', hc', becomes⟩ := call_act (a := a) fresh hc
  exact ⟨call', hc', becomes.initiator.1.trans henclosing⟩

/-- What encloses a call that is there did so before. -/
theorem Lineage.encloses_of_act (h : Lineage s) (fresh : s.calls.get? s.nextKey = none)
    (hc : s.calls.get? c = some call) (encloses : Encloses (s.act a) w c) : Encloses s w c := by
  induction c using Nat.strongRecOn generalizing call with
  | ind c ih =>
    obtain ⟨after, outer, hafter, henclosing, hcases⟩ := encloses_iff.mp encloses
    obtain ⟨call', hc', becomes⟩ := call_act (a := a) fresh hc
    rw [hafter] at hc'
    cases hc'
    rw [becomes.initiator.1] at henclosing
    obtain ⟨hlt, o, ho, -⟩ := h.earlier c call outer hc henclosing
    refine encloses_iff.mpr ⟨call, outer, hc, henclosing, ?_⟩
    rcases hcases with heq | hencloses
    · exact Or.inl heq
    · exact Or.inr (ih outer hlt ho hencloses)

/-- **A call takes over the token of whatever encloses it.** -/
theorem Lineage.inherited?_of_encloses (h : Lineage s) {token : Nat}
    (ht : s.tokenOf? w = some token) (encloses : Encloses s w c)
    (hc : s.calls.get? c = some call) : s.inherited? call = some token := by
  induction c using Nat.strongRecOn generalizing call with
  | ind c ih =>
    obtain ⟨mine, outer, hmine, henclosing, hcases⟩ := encloses_iff.mp encloses
    rw [hc] at hmine
    cases hmine
    have hinherits : s.inherited? call = s.tokenOf? outer := by
      rw [inherited?, henclosing]
      rfl
    rw [hinherits]
    rcases hcases with rfl | hencloses
    · exact ht
    · obtain ⟨hlt, o, ho, named⟩ := h.earlier c call outer hc henclosing
      exact h.passed outer o token ho named (ih outer hlt hencloses ho)

/-! ## Refusals -/

/-- Whether a call in this phase neither waits nor has anything in flight or to hand over. -/
def Phase.isIdle : Phase α → Bool
  | .probing | .binding | .arriving | .contending | .concluding | .ended _ => true
  | .running | .queued _ | .polling | .storing _ | .publishing _ | .completing _
  | .marking _ | .releasing _ | .resuming _ _ => false

/-- Whether a call in this phase has not entered yet, or was turned away when it did. -/
def Phase.isAloof (phase : Phase α) : Bool := phase.isEarly || phase.isReentrant

/-- The call is idle, if it is there. -/
def State.IsIdle (s : State α) (c : Nat) : Prop :=
  ∀ call, s.calls.get? c = some call → call.phase.isIdle = true

/-- The call is aloof, if it is there. -/
def State.IsAloof (s : State α) (c : Nat) : Prop :=
  ∀ call, s.calls.get? c = some call → call.phase.isAloof = true

/-- Flags, executors and slots stay exactly as they are. -/
structure Moment.Spares (m : Moment α) : Prop where
  flags : m.next.flags = m.state.flags
  targets : m.next.targets = m.state.targets
  image : m.next.image = m.state.image

/-- What a call leaves behind that does no more than look. -/
structure Untouched (past : List (Moment α)) (c : Nat) : Prop where
  spares : ∀ m ∈ past, m.action.call m.state = c → m.Spares
  /-- It has never waited in a queue, polled a slot or run its initializer. -/
  idle : ∀ m ∈ past, m.next.IsIdle c
  unstarted : c ∉ started past

theorem Phase.isAloof_of_isEarly {phase : Phase α} (early : phase.isEarly = true) :
    phase.isAloof = true := by
  simp [isAloof, early]

theorem Phase.isIdle_of_isAloof {phase : Phase α} (aloof : phase.isAloof = true) :
    phase.isIdle = true := by
  cases phase with
  | running | queued _ | polling | storing _ | publishing _ | completing _ | marking _ | releasing _
    | resuming _ _ => cases aloof
  | _ => rfl

theorem Phase.isInside_of_isIdle {phase : Phase α} (idle : phase.isIdle = true) :
    phase.isInside = false := by
  cases phase with
  | running | storing _ | publishing _ => cases idle
  | _ => rfl

theorem isIdle_phaseOf (idle : s.IsIdle c) : (s.phaseOf c).isIdle = true := by
  unfold phaseOf
  split
  next call hc => exact idle call hc
  · rfl

/-- A call that is aloof was so before. -/
theorem Becomes.isAloof {s' : State α} (becomes : Becomes s a s' c call call')
    (aloof : call'.phase.isAloof = true) : call.phase.isAloof = true := by
  cases becomes with
  | stays => exact aloof
  | approaches phase before => exact Phase.isAloof_of_isEarly before
  | continues phase before after =>
    cases phase with
    | running | storing _ | publishing _ | completing _ => cases aloof
    | _ => cases after
  | moves phase plain =>
    have aloof : phase.isAloof = true := aloof
    rw [Phase.isAloof, Phase.isEarly_of_isPlain plain, Bool.false_or] at aloof
    unfold Phase.isReentrant at aloof
    split at aloof
    · cases plain
    · cases aloof
  | enters phase act contending => exact Phase.isAloof_of_isEarly (by rw [contending]; rfl)

theorem isAloof_of_act (fresh : s.calls.get? s.nextKey = none) (aloof : (s.act a).IsAloof c) :
    s.IsAloof c := by
  intro call hc
  obtain ⟨call', hc', becomes⟩ := call_act (a := a) fresh hc
  exact becomes.isAloof (aloof call' hc')

theorem setExecutor_of_executorOf {executor : Executor} (he : s.executorOf call = some executor) :
    s.setExecutor call.target executor = s := by
  obtain ⟨target, ht, rfl⟩ := target_of_executorOf he
  rw [setExecutor, Store.modify_of_get? _ ht rfl]

/-- A locked section that leaves its executor as it is spares everything. -/
theorem spares_afterLock {executor : Executor} (he : s.executorOf call = some executor)
    (phase : Phase α) : (s.afterLock c call executor phase).flags = s.flags ∧
      (s.afterLock c call executor phase).targets = s.targets ∧
      (s.afterLock c call executor phase).image = s.image := by
  obtain ⟨n, -, hn⟩ := identify_eq s call
  rw [← executorOf_identify] at he
  rw [afterLock, setExecutor_of_executorOf he, hn]
  exact ⟨rfl, rfl, rfl⟩

/-- A step of a call that is idle and stays so spares everything. -/
theorem spares_effect {s' : State α} {notices : List (Notice α)}
    (effect : Effect s c call s' notices) (before : call.phase.isIdle = true)
    (after : (s'.phaseOf c).isIdle = true) :
    s'.flags = s.flags ∧ s'.targets = s.targets ∧ s'.image = s.image := by
  have hlock {executor : Executor} {phase : Phase α}
      (h : ((s.afterLock c call executor phase).phaseOf c).isIdle = true) :
      phase.isIdle = true := by
    rw [afterLock, phaseOf_setCall] at h
    exact h
  cases effect with
  | late phase through | meets phase through | recurs phase through | loses phase through =>
    exact spares_afterLock through _
  | joins | wins | claims => cases hlock after
  | follows phase | retires phase | settles phase | marks phase | releases phase | misses phase
    | hands phase =>
    rw [phase] at before
    cases before
  | _ => exact ⟨rfl, rfl, rfl⟩

theorem spares_act (alive : s.violation = none) (possible : s.Possible a)
    (before : s.IsIdle (a.call s)) (after : (s.act a).IsIdle (a.call s)) :
    (Moment.mk s a).Spares := by
  have hspares (h : (s.act a).flags = s.flags ∧ (s.act a).targets = s.targets ∧
      (s.act a).image = s.image) : (Moment.mk s a).Spares := ⟨h.1, h.2.1, h.2.2⟩
  have hphase := isIdle_phaseOf after
  have impact := impact_act alive possible
  refine hspares ?_
  clear hspares after
  generalize s.act a = s' at impact hphase
  cases impact with
  | steps known effect => exact spares_effect effect (before _ known) hphase
  | _ => exact ⟨rfl, rfl, rfl⟩

theorem Untouched.concat {past : List (Moment α)} (h : Untouched past c)
    (alive : s.violation = none) (possible : s.Possible a) (before : s.IsIdle c)
    (after : (s.act a).IsIdle c) : Untouched (past ++ [⟨s, a⟩]) c where
  spares m hm mine := by
    rcases List.mem_append.mp hm with hm | hm
    · exact h.spares m hm mine
    · obtain rfl := List.mem_singleton.mp hm
      obtain rfl : a.call s = c := mine
      exact spares_act alive possible before after
  idle m hm := by
    rcases List.mem_append.mp hm with hm | hm
    · exact h.idle m hm
    · obtain rfl := List.mem_singleton.mp hm
      exact after
  unstarted := by
    rw [started_concat, List.mem_append, Option.mem_toList]
    rintro (hstarted | hstarts)
    · exact h.unstarted hstarted
    · have hin := (Bool.and_eq_true_iff.mp (Option.mem_filter_iff.mp hstarts).2).2
      have hin : ((s.act a).phaseOf c).isInside = true := hin
      rw [Phase.isInside_of_isIdle (isIdle_phaseOf after)] at hin
      cases hin

section

variable {rule : State α → Action α → Prop} {s₀ : State α} {past : List (Moment α)}

/-- **A call that is aloof has left everything untouched.** -/
theorem Run.untouched (run : Run rule s₀ past s) (fresh : s₀.IsFresh) (aloof : s.IsAloof c) :
    Untouched past c := by
  induction run with
  | start =>
    refine { spares := ?_, idle := ?_, unstarted := List.not_mem_nil }
    · intro m hm
      cases hm
    · intro m hm
      cases hm
  | step run alive possible _ ih =>
    have before := isAloof_of_act (run.fresh_keys fresh (Nat.le_refl _)) aloof
    exact (ih before).concat alive possible
      (fun call hc => Phase.isIdle_of_isAloof (before call hc))
      (fun call hc => Phase.isIdle_of_isAloof (aloof call hc))

end

/-! ## Calls that are barred -/

/-- A call goes for what a call that encloses it has in flight. -/
structure State.Recurs (s : State α) (w c : Nat) (outer call : Call α) : Prop where
  here : s.calls.get? w = some outer
  mine : s.calls.get? c = some call
  encloses : Encloses s w c
  inFlight : outer.phase.isInFlight = true
  target : call.target = outer.target
  id : (s.flagOf call).id = (s.flagOf outer).id

/-- How far a call for a handle comes that would meet its own identity: given whether its flag is
set, and whether it wants a value. -/
inductive Phase.IsBarred (id : FlagId) (isSet wantsValue : Bool) : Phase α → Prop
  | early {phase : Phase α} (early : phase.isEarly = true) : IsBarred id isSet wantsValue phase
  | told : IsBarred id isSet wantsValue (.ended (.failed (.reentrant id)))
  | dropped : IsBarred id isSet wantsValue (.ended .dropped)
  | concluding (set : isSet = true) : IsBarred id isSet wantsValue .concluding
  | late (set : isSet = true) (outcome : Outcome α) : IsBarred id isSet wantsValue (.ended outcome)
  /-- The global had a value already, or belongs to another context. -/
  | answered (wants : wantsValue = true) (outcome : Outcome α) :
      IsBarred id isSet wantsValue (.ended outcome)

/-- The call has not entered, or it was told that it is reentrant, or its flag is set. -/
def State.Barred (s : State α) (call : Call α) : Prop :=
  call.phase.IsBarred (s.flagOf call).id (s.flagOf call).isDone call.cell.isSome

theorem Phase.IsBarred.mono {id : FlagId} {isSet isSet' wantsValue : Bool} {phase : Phase α}
    (h : phase.IsBarred id isSet wantsValue) (le : isSet = true → isSet' = true) :
    phase.IsBarred id isSet' wantsValue := by
  cases h with
  | early early => exact .early early
  | told => exact .told
  | dropped => exact .dropped
  | concluding set => exact .concluding (le set)
  | late set outcome => exact .late (le set) outcome
  | answered wants outcome => exact .answered wants outcome

theorem told_enter (hc : s.calls.get? c = some call) (contending : call.phase = .contending)
    (told : ((s.enter c call).1.phaseOf c).isReentrant = true) :
    (s.enter c call).1.phaseOf c = .ended (.failed (.reentrant (s.flagOf call).id)) := by
  have effect := effect_enter (s := s) (c := c) contending
  generalize (s.enter c call).1 = s', (s.enter c call).2 = notices at effect told
  have hnot {executor : Executor} {phase : Phase α} (hp : phase.isReentrant = false)
      (h : ((s.afterLock c call executor phase).phaseOf c).isReentrant = true) : False := by
    rw [afterLock, phaseOf_setCall, hp] at h
    cases h
  cases effect with
  | meets | recurs => exact phaseOf_setCall ..
  | late | joins | wins | loses | claims => exact (hnot rfl told).elim
  | rests | lacks =>
    have hsame : (s.phaseOf c).isReentrant = true := told
    rw [phaseOf_of_get? hc, contending] at hsame
    cases hsame
  | skips phase | returns phase =>
    rw [contending] at phase
    rcases phase with phase | phase <;> cases phase
  | finds phase | asks phase | ties phase | strays phase | sees phase | contends phase
    | resumes phase | parks phase | follows phase | breaks phase | reserves phase | discards phase
    | publishes phase | misses phase | retires phase | settles phase | marks phase | releases phase
    | hands phase | goesOn phase | leaves phase | fails phase | concludes phase =>
    rw [contending] at phase
    cases phase

/-- A call that meets its own identity is told so, unless its registry finds the flag set. -/
theorem enter_of_held (inv : s.board.Inv) (possible : s.Possible (.advance c))
    (hc : s.calls.get? c = some call) (contending : call.phase = .contending)
    (own : ((s.flagOf call).id, (s.identify call).1) ∈ s.board.held call.target) :
    (s.enter c call).1.phaseOf c = .ended (.failed (.reentrant (s.flagOf call).id)) ∨
      (s.flagOf call).isDone = true ∧ (s.enter c call).1.phaseOf c = .concluding := by
  by_cases hclear : s.SeesClear call
  · exact Or.inl (told_enter hc contending
      ((reentrant_enter_iff inv possible hc contending).mpr ⟨hclear, own⟩))
  · right
    unfold SeesClear at hclear
    push Not at hclear
    obtain ⟨r, through, hunclear⟩ := hclear
    have hset : (s.flagOf call).isDone = true := by simpa using hunclear
    refine ⟨hset, ?_⟩
    simp only [enter, through]
    obtain ⟨r', phase, hs, hcases⟩ := s.enterRegistry_cases c call r
    rw [hs, phaseOf_setCall]
    rcases hcases with ⟨-, rfl, -⟩ | ⟨hclear, -⟩ | ⟨hclear, -⟩ | ⟨hclear, -⟩
    · rfl
    all_goals
      rw [hset] at hclear
      cases hclear

theorem Phase.isIdle_of_isEarly {phase : Phase α} (early : phase.isEarly = true) :
    phase.isIdle = true := Phase.isIdle_of_isAloof (Phase.isAloof_of_isEarly early)

theorem Phase.IsBarred.isIdle {id : FlagId} {isSet wantsValue : Bool} {phase : Phase α}
    (h : phase.IsBarred id isSet wantsValue) : phase.isIdle = true := by
  cases h with
  | early early => exact Phase.isIdle_of_isEarly early
  | told | dropped | concluding | late | answered => rfl

/-- A call that is barred, and whose flag is clear, has not come far. -/
theorem State.Barred.of_clear (barred : s.Barred call) (clear : (s.flagOf call).isDone = false) :
    call.phase.isEarly = true ∨ call.phase = .ended (.failed (.reentrant (s.flagOf call).id)) ∨
      call.phase = .ended .dropped ∨ call.cell ≠ none ∧ call.phase.isOver = true := by
  unfold State.Barred at barred
  rw [clear] at barred
  generalize hp : call.phase = phase at barred
  cases barred with
  | early early => exact Or.inl early
  | told => exact Or.inr (Or.inl rfl)
  | dropped => exact Or.inr (Or.inr (Or.inl rfl))
  | concluding set => cases set
  | late set => cases set
  | answered wants => exact Or.inr (Or.inr (Or.inr ⟨Option.isSome_iff_ne_none.mp wants, rfl⟩))

/-- A step outside of the locked section. -/
theorem barred_effect {s' : State α} {notices : List (Notice α)}
    (effect : Effect s c call s' notices) (hc : s.calls.get? c = some call)
    (barred : s.Barred call) (other : call.phase ≠ .contending) :
    (s'.phaseOf c).IsBarred (s.flagOf call).id (s.flagOf call).isDone call.cell.isSome := by
  have hidle := Phase.IsBarred.isIdle barred
  have hmoves {next : State α} {after : Call α}
      (h : after.phase.IsBarred (s.flagOf call).id (s.flagOf call).isDone call.cell.isSome) :
      ((next.setCall c after).phaseOf c).IsBarred (s.flagOf call).id (s.flagOf call).isDone
        call.cell.isSome := by
    rw [phaseOf_setCall]
    exact h
  cases effect with
  | rests | lacks | fails =>
    show (s.phaseOf c).IsBarred _ _ _
    rw [phaseOf_of_get? hc]
    exact barred
  | skips | asks | ties | contends => exact hmoves (.early rfl)
  | finds phase known =>
    obtain ⟨key, wanted, -⟩ := Option.bind_eq_some_iff.mp known
    exact hmoves (.answered (by rw [wanted]; rfl) _)
  | strays phase wanted => exact hmoves (.answered (by rw [wanted]; rfl) _)
  | sees phase set => exact hmoves (.concluding set)
  | concludes phase set => exact hmoves (.late set _)
  | late phase | meets phase | joins phase | wins phase | recurs phase | loses phase
    | claims phase => exact absurd phase other
  | returns phase =>
    rcases phase with phase | phase <;> simp [phase, Phase.isIdle] at hidle
  | resumes phase | parks phase | follows phase | breaks phase | reserves phase | discards phase
    | publishes phase | misses phase | retires phase | settles phase | marks phase | releases phase
    | hands phase | goesOn phase | leaves phase => simp [phase, Phase.isIdle] at hidle

/-- An action keeps the handle of a call. -/
theorem id_flagOf_act (inv : s.board.Inv) (alive : s.violation = none) (possible : s.Possible a)
    (same : call'.flag = call.flag) : ((s.act a).flagOf call').id = (s.flagOf call).id :=
  id_flagOf_congr ((turn_act inv alive possible).flag_id call.flag) same

/-- Flags stay set. -/
theorem isDone_flagOf_act (inv : s.board.Inv) (alive : s.violation = none)
    (possible : s.Possible a) (same : call'.flag = call.flag)
    (set : (s.flagOf call).isDone = true) : ((s.act a).flagOf call').isDone = true := by
  rw [← isSet_eq] at set ⊢
  rw [same]
  exact (turn_act inv alive possible).isSet_mono set

/-- What a call that is barred is after an action, told from its phase. -/
theorem State.Barred.of_phase (inv : s.board.Inv) (alive : s.violation = none)
    (possible : s.Possible a) (hc : s.calls.get? c = some call)
    (hc' : (s.act a).calls.get? c = some call')
    (phase : ((s.act a).phaseOf c).IsBarred (s.flagOf call).id (s.flagOf call).isDone
      call.cell.isSome) : (s.act a).Barred call' := by
  obtain ⟨after, hafter, becomes⟩ := call_act (a := a) (absent_nextKey inv) hc
  obtain rfl : call' = after := Option.some.inj (hc'.symm.trans hafter)
  rw [State.Barred, becomes.alike.cell, id_flagOf_act inv alive possible becomes.alike.flag,
    ← phaseOf_of_get? hc']
  exact phase.mono (isDone_flagOf_act inv alive possible becomes.alike.flag)

/-- An action that is not a locked section of the call keeps it barred. -/
theorem State.Barred.act_of_other (barred : s.Barred call) (inv : s.board.Inv)
    (alive : s.violation = none) (possible : s.Possible a) (hc : s.calls.get? c = some call)
    (other : ¬(a = .advance c ∧ call.phase = .contending))
    (hc' : (s.act a).calls.get? c = some call') : (s.act a).Barred call' := by
  refine .of_phase inv alive possible hc hc' ?_
  have hidle := Phase.IsBarred.isIdle barred
  have hrunning : call.phase ≠ .running := by
    intro running
    simp [running, Phase.isIdle] at hidle
  rcases phaseOf_act_cases alive possible hc (absent_nextKey inv) hrunning with
    hphase | ⟨signal, hqueued, -⟩ | ⟨hact, notices, effect⟩ | ⟨-, hdropped⟩
  · rw [hphase]
    exact barred
  · simp [hqueued, Phase.isIdle] at hidle
  · exact barred_effect effect hc barred fun contending => other ⟨hact, contending⟩
  · rw [hdropped]
    exact .dropped

/-- **One action keeps a call barred** that would meet its own identity. -/
theorem State.Barred.act (barred : s.Barred call) (inv : s.board.Inv) (alive : s.violation = none)
    (possible : s.Possible a) (hc : s.calls.get? c = some call)
    (own : call.phase = .contending →
      ((s.flagOf call).id, (s.identify call).1) ∈ s.board.held call.target)
    (hc' : (s.act a).calls.get? c = some call') : (s.act a).Barred call' := by
  by_cases entering : a = .advance c ∧ call.phase = .contending
  · obtain ⟨rfl, contending⟩ := entering
    refine .of_phase inv alive possible hc hc' ?_
    have henter : s.act (.advance c) = (s.enter c call).1 := by
      show (s.advance c).1 = _
      simp only [advance, alive, hc, contending]
    rw [henter]
    rcases enter_of_held inv possible hc contending (own contending) with htold | ⟨hset, hlate⟩
    · rw [htold]
      exact .told
    · rw [hlate]
      exact .concluding hset
  · exact barred.act_of_other inv alive possible hc entering hc'

section

variable {rule : State α → Action α → Prop} {s₀ : State α} {past : List (Moment α)}

/-- What a call that knew who it is has in flight it had in flight before. -/
theorem Lineage.inFlight_of_act (h : Lineage s) (hc : s.calls.get? c = some call)
    (named : call.initiator ≠ none) (becomes : Becomes s a (s.act a) c call call')
    (inFlight : call'.phase.isInFlight = true) : call.phase.isInFlight = true := by
  cases becomes with
  | stays => exact inFlight
  | approaches phase before after =>
    have early : phase.isEarly = false := Phase.isEarly_of_isInFlight inFlight
    rw [early] at after
    cases after
  | continues phase before after => exact before
  | moves phase plain =>
    have free : phase.isInFlight = false := Phase.isInFlight_of_isPlain plain
    have inFlight : phase.isInFlight = true := inFlight
    rw [free] at inFlight
    cases inFlight
  | enters phase act contending =>
    exact absurd (h.early c call hc (by rw [contending]; rfl)) named

/-- What has an initialization in flight after an action and encloses a call that was there before
had it in flight before. -/
theorem Lineage.recurs_of_act {outer' : Call α} (lineage : Lineage s) (inv : s.board.Inv)
    (alive : s.violation = none) (possible : s.Possible a)
    (recurs : (s.act a).Recurs w c outer' call') (hc : s.calls.get? c = some call) :
    ∃ outer, s.Recurs w c outer call ∧ outer.Alike outer' ∧ call.Alike call' := by
  have hfresh := absent_nextKey inv
  have encloses := lineage.encloses_of_act hfresh hc recurs.encloses
  obtain ⟨outer, hw, named⟩ := lineage.named_of_encloses encloses
  obtain ⟨after, hafter, becomes⟩ := call_act (a := a) hfresh hw
  rw [recurs.here] at hafter
  cases hafter
  obtain ⟨mine, hmine, becomes'⟩ := call_act (a := a) hfresh hc
  rw [recurs.mine] at hmine
  cases hmine
  have hid := recurs.id
  rw [id_flagOf_act inv alive possible becomes'.alike.flag,
    id_flagOf_act inv alive possible becomes.alike.flag] at hid
  refine ⟨outer, { here := hw, mine := hc, encloses := encloses
                   inFlight := lineage.inFlight_of_act hw named becomes recurs.inFlight
                   target := ?_, id := hid }, becomes.alike, becomes'.alike⟩
  rw [← becomes'.alike.target, ← becomes.alike.target, recurs.target]

/-- A call that goes for what is in flight under its own identity meets this entry. -/
theorem State.Recurs.mem_held {outer : Call α} (recurs : s.Recurs w c outer call)
    (inv : s.board.Inv) (lineage : Lineage s)
    (same : outer.initiator = some (s.identify call).1) :
    ((s.flagOf call).id, (s.identify call).1) ∈ s.board.held call.target := by
  rw [inv.mem_held]
  exact ⟨w, (claim?_iff inv lineage).mpr ⟨⟨outer, recurs.here, recurs.target.symm,
    recurs.id.symm, recurs.inFlight⟩, outer, recurs.here, same⟩⟩

/-- In its locked section a call meets its own entry, if its flag is clear. -/
theorem State.Recurs.told {outer : Call α} (recurs : s.Recurs w c outer call)
    (inv : s.board.Inv) (lineage : Lineage s) (alive : s.violation = none)
    (possible : s.Possible (.advance c)) (clear : (s.flagOf call).isDone = false)
    (contending : call.phase = .contending) (same : outer.initiator = some (s.identify call).1) :
    (s.act (.advance c)).phaseOf c = .ended (.failed (.reentrant (s.flagOf call).id)) ∧
      (Moment.mk s (.advance c)).Spares := by
  have henter : s.act (.advance c) = (s.enter c call).1 := by
    show (s.advance c).1 = _
    simp only [advance, alive, recurs.mine, contending]
  have htold : (s.act (.advance c)).phaseOf c =
      .ended (.failed (.reentrant (s.flagOf call).id)) := by
    rw [henter]
    rcases enter_of_held inv possible recurs.mine contending (recurs.mem_held inv lineage same) with
      htold | ⟨hset, -⟩
    · exact htold
    · rw [clear] at hset
      cases hset
  refine ⟨htold, spares_act alive possible ?_ ?_⟩
  · intro mine hmine
    obtain rfl : call = mine := Option.some.inj (recurs.mine.symm.trans hmine)
    rw [contending]
    rfl
  · intro mine hmine
    have hmine : (s.act (.advance c)).calls.get? c = some mine := hmine
    rw [phaseOf_of_get? hmine] at htold
    rw [htold]
    rfl

/-- **Calls that would meet their own identity are barred.** Let a call be inside of another one
that has an initialization in flight, go for the same handle through the same target, and be picked
by what actions leave alone. If all that are picked come under the identity of the outer call when
they enter, the call is barred, and it has left everything untouched. -/
theorem Run.barred_of {Q : State α → Nat → Nat → Call α → Call α → Prop}
    (run : Run rule s₀ past s) (fresh : s₀.IsFresh)
    (back : ∀ past s a w c outer outer' call call', Run rule s₀ past s →
      s.Recurs w c outer call → outer.Alike outer' → call.Alike call' →
      Q (s.act a) w c outer' call' → Q s w c outer call)
    (own : ∀ past s w c outer call, Run rule s₀ past s → s.Recurs w c outer call →
      Q s w c outer call → call.phase = .contending →
        outer.initiator = some (s.identify call).1)
    {w c : Nat} {outer call : Call α} (recurs : s.Recurs w c outer call)
    (picked : Q s w c outer call) : s.Barred call ∧ Untouched past c := by
  induction run generalizing w c outer call with
  | start =>
    have hnone := fresh.calls c
    rw [recurs.mine] at hnone
    cases hnone
  | @step past s a run alive possible admitted ih =>
    have inv := run.board_inv fresh
    have lineage := run.lineage fresh
    rcases calls_act recurs.mine with ⟨rfl, -⟩ | ⟨before, hc, -⟩
    · have early : call.phase.isEarly = true := by
        rcases possible.phase with hp | hp <;> rw [hp] <;> rfl
      refine ⟨.early early, (run.step alive possible admitted).untouched fresh ?_⟩
      intro call' hc'
      rw [recurs.mine] at hc'
      cases hc'
      exact Phase.isAloof_of_isEarly early
    · obtain ⟨holder, hbefore, alike, alike'⟩ :=
        lineage.recurs_of_act inv alive possible recurs hc
      have hpicked := back past s a w c holder outer before call run hbefore alike alike' picked
      obtain ⟨barred, untouched⟩ := ih hbefore hpicked
      have barred' : (s.act a).Barred call := by
        refine barred.act inv alive possible hc (fun contending => ?_) recurs.mine
        exact hbefore.mem_held inv lineage
          (own past s w c holder before run hbefore hpicked contending)
      have hidle {s : State α} {call : Call α} (hc : s.calls.get? c = some call)
          (barred : s.Barred call) : s.IsIdle c := by
        intro call' hc'
        rw [hc] at hc'
        cases hc'
        exact Phase.IsBarred.isIdle barred
      exact ⟨barred', untouched.concat alive possible (hidle hc barred) (hidle recurs.mine barred')⟩

/-- It is enough to pick outer calls by their flavour. -/
theorem Run.barred {P : Flavour → Prop} (run : Run rule s₀ past s) (fresh : s₀.IsFresh)
    (own : ∀ past s w c outer call, Run rule s₀ past s → s.Recurs w c outer call →
      P outer.flavour → call.phase = .contending → outer.initiator = some (s.identify call).1)
    {w c : Nat} {outer call : Call α} (recurs : s.Recurs w c outer call)
    (picked : P outer.flavour) : s.Barred call ∧ Untouched past c := by
  refine run.barred_of (Q := fun _ _ _ outer _ => P outer.flavour) fresh ?_ own recurs picked
  intro _ _ _ _ _ _ _ _ _ _ _ alike _ picked
  rw [← alike.flavour]
  exact picked

/-- Who a call is fits how it was made: it has a token, or it is known by its thread. -/
theorem Run.initiator_cases (run : Run rule s₀ past s) (fresh : s₀.IsFresh) {who : Initiator}
    (hc : s.calls.get? c = some call) (hwho : call.initiator = some who) :
    (∃ token, who = .scope token) ∨ (call.flavour = .blocking ∧ who = .thread call.thread) := by
  induction run generalizing call with
  | start =>
    rw [fresh.calls c] at hc
    cases hc
  | @step past s a run alive possible _ ih =>
    rcases calls_act hc with ⟨rfl, -⟩ | ⟨before, hbefore, becomes⟩
    · rw [possible.initiator] at hwho
      cases hwho
    · rw [becomes.alike.flavour, becomes.alike.thread]
      rcases becomes.initiator.2 with hinitiator | ⟨-, -, hinitiator, -⟩
      · rw [hinitiator] at hwho
        exact ih hbefore hwho
      · rw [hwho] at hinitiator
        cases hinitiator
        rcases s.identify_cases before with ⟨token, -, he⟩ | ⟨-, blocking, he⟩ | ⟨-, -, he⟩
        · rw [he]
          exact Or.inl ⟨token, rfl⟩
        · rw [he]
          exact Or.inr ⟨blocking, rfl⟩
        · rw [he]
          exact Or.inl ⟨_, rfl⟩

end

end RunOnce.Protocol
