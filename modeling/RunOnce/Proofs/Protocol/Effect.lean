import RunOnce.Proofs.Protocol.Enter
import RunOnce.Proofs.Protocol.Run

/-!
# What a step of a call does

**Effects** (`Effect`). A step that a call takes by itself has one of these effects. Each says what
the call found and what it leaves: the whole state, and what it lets others know.

**Actions** (`Impact`). An action issues a call, is a step of a call, ends an initializer, drops a
call that waits, or does nothing.

**Inversion** (`effect_advance`, `impact_act`). There are no other effects and no other impacts, so
what all of them keep is kept by every run.

**The others** (`phaseOf_act_of_ne`). An action leaves all calls but one where they are, unless it
raises the signal of a waiter. A call that is over stays as it is (`phaseOf_act_of_over`), an
initializer runs until it ends (`running_act`), and for a call that runs none there are four things
that an action may do (`phaseOf_act_cases`).
-/

namespace RunOnce.Protocol

variable {α : Type}

/-- Whether a call in this phase may take a step that changes nothing. -/
def Phase.isPatient : Phase α → Bool
  | .contending | .running | .queued _ | .polling | .completing _ | .ended _ => true
  | _ => false

/-- Whether a call in this phase waits in a queue. -/
def Phase.isQueued : Phase α → Bool
  | .queued _ => true
  | _ => false

/-- Whether a call in this phase is over. -/
def Phase.isOver : Phase α → Bool
  | .ended _ => true
  | _ => false

namespace State

/-- The state after a locked section: the call knows who it is, goes on to a phase, and leaves an
executor behind. -/
def afterLock (s : State α) (c : Nat) (call : Call α) (executor : Executor) (phase : Phase α) :
    State α :=
  ((s.identify call).2.setExecutor call.target executor).setCall c
    { call with initiator := some (s.identify call).1, phase }

/-- How a call ends whose flag is set. -/
def result (s : State α) (call : Call α) : Outcome α :=
  match call.cell with
  | none => .ok none
  | some key =>
    match (s.cells.get? key).bind LazyCell.value? with
    | some value => .ok (some value)
    | none => .missing (s.flagOf call).id

end State

open State

/-- What comes out of a step that a call takes by itself. -/
inductive Effect (s : State α) (c : Nat) (call : Call α) : State α → List (Notice α) → Prop
  /-- The call has to wait, or is not the one to go on. -/
  | rests (patient : call.phase.isPatient = true) : Effect s c call s []
  /-- There is no global to look at. -/
  | skips (phase : call.phase = .probing ∨ call.phase = .binding)
      (absent : call.cell.bind s.cells.get? = none) :
      Effect s c call (s.setPhase c call .arriving) []
  | finds {cell : LazyCell α} {value : α} (phase : call.phase = .probing)
      (known : call.cell.bind s.cells.get? = some cell) (stored : cell.value? = some value) :
      Effect s c call (s.setPhase c call (.ended (.ok (some value)))) []
  | asks {cell : LazyCell α} (phase : call.phase = .probing)
      (known : call.cell.bind s.cells.get? = some cell) (bare : cell.value? = none) :
      Effect s c call (s.setPhase c call .binding) []
  | ties {key : Nat} {cell bound : LazyCell α} (phase : call.phase = .binding)
      (wanted : call.cell = some key) (known : s.cells.get? key = some cell)
      (tied : cell.bind call.target = some bound) :
      Effect s c call ({ s with cells := s.cells.set key bound }.setPhase c call .arriving) []
  | strays {key : Nat} {cell : LazyCell α} (phase : call.phase = .binding)
      (wanted : call.cell = some key) (known : s.cells.get? key = some cell)
      (untied : cell.bind call.target = none) :
      Effect s c call
        (s.setPhase c call (.ended (.failed (.foreignContext (s.flagOf call).id))))
        [.log (.foreign (s.flagOf call).id)]
  | sees (phase : call.phase = .arriving) (set : (s.flagOf call).isDone = true) :
      Effect s c call (s.setPhase c call .concluding) []
  | contends (phase : call.phase = .arriving) (clear : (s.flagOf call).isDone = false) :
      Effect s c call (s.setPhase c call .contending) []
  /-- The flag was set since the call looked at it. -/
  | late {r : Registry Nat} (phase : call.phase = .contending)
      (through : s.executorOf call = some (.registry r))
      (set : (s.flagOf call).isDone = true) :
      Effect s c call (s.afterLock c call (.registry r) .concluding) []
  /-- The call meets its own operation. -/
  | meets {r : Registry Nat} {op : Operation Nat} (phase : call.phase = .contending)
      (through : s.executorOf call = some (.registry r))
      (clear : (s.flagOf call).isDone = false) (found : r.find? (s.flagOf call).id = some op)
      (own : op.initiator = (s.identify call).1) :
      Effect s c call
        (s.afterLock c call (.registry r) (.ended (.failed (.reentrant (s.flagOf call).id))))
        [.log (.reentrant (s.flagOf call).id false)]
  | joins {r : Registry Nat} {op : Operation Nat} (phase : call.phase = .contending)
      (through : s.executorOf call = some (.registry r))
      (clear : (s.flagOf call).isDone = false) (found : r.find? (s.flagOf call).id = some op)
      (other : op.initiator ≠ (s.identify call).1) :
      Effect s c call
        (s.afterLock c call (.registry ⟨Registry.enqueue (s.flagOf call).id c r.operations⟩)
          (.queued (signalFor call.flavour)))
        [.log (.waits (s.identify call).1 (s.flagOf call).id (op.waiters.length + 1))]
  | wins {r : Registry Nat} (phase : call.phase = .contending)
      (through : s.executorOf call = some (.registry r))
      (clear : (s.flagOf call).isDone = false) (free : r.find? (s.flagOf call).id = none) :
      Effect s c call
        (s.afterLock c call (.registry ⟨r.operations ++
          [{ flag := (s.flagOf call).id, initiator := (s.identify call).1 }]⟩) .running)
        [.log (.initializes (s.identify call).1 (s.flagOf call).id)]
  /-- The handle has no slot in the table. -/
  | lacks {t : SlotTable} (phase : call.phase = .contending)
      (through : s.executorOf call = some (.table t))
      (outside : t.state? s.image.directory (s.flagOf call).id = none) :
      Effect s c call
        { s with violation := some (.outsideTable (s.flagOf call).id t.slotCount) }
        [.log (.violated (.outsideTable (s.flagOf call).id t.slotCount))]
  /-- The call meets its own claim. -/
  | recurs {t : SlotTable} (phase : call.phase = .contending)
      (through : s.executorOf call = some (.table t))
      (own : ((s.flagOf call).id, (s.identify call).1) ∈ t.claims) (free : t.guard? = none) :
      Effect s c call
        (s.afterLock c call (.table t) (.ended (.failed (.reentrant (s.flagOf call).id))))
        [.log (.reentrant (s.flagOf call).id true)]
  | loses {t : SlotTable} {v : UInt32} (phase : call.phase = .contending)
      (through : s.executorOf call = some (.table t))
      (other : ((s.flagOf call).id, (s.identify call).1) ∉ t.claims)
      (seen : t.state? s.image.directory (s.flagOf call).id = some v) (taken : v ≠ slotIdle)
      (free : t.guard? = none) :
      Effect s c call (s.afterLock c call (.table t) .polling)
        [.log (.polls (s.identify call).1 (s.flagOf call).id v)]
  | claims {t : SlotTable} (phase : call.phase = .contending)
      (through : s.executorOf call = some (.table t))
      (other : ((s.flagOf call).id, (s.identify call).1) ∉ t.claims)
      (idle : t.state? s.image.directory (s.flagOf call).id = some slotIdle)
      (free : t.guard? = none) :
      Effect s c call
        ((s.afterLock c call (.table { t with
          claims := t.claims ++ [((s.flagOf call).id, (s.identify call).1)] }) .running).markSlot t
            (s.flagOf call).id slotRunning)
        [.log (.claims (s.identify call).1 (s.flagOf call).id)]
  | resumes {signal : Signal} (phase : call.phase = .queued signal)
      (raised : signal.isRaised = true) :
      Effect s c call (s.setPhase c call .concluding) []
  | parks {w : Wakeup} (phase : call.phase = .queued (.cell w)) (clear : w.isSet = false) :
      Effect s c call (s.setPhase c call (.queued (.cell w.park))) []
  | follows (phase : call.phase = .polling) (done : s.slotSeen? call = some slotDone) :
      Effect s c call ((s.completeFlag call.flag).setPhase c call .concluding) []
  /-- The slot is in a state that no participant leaves it in. -/
  | breaks {v : UInt32} (phase : call.phase = .polling) (seen : s.slotSeen? call = some v)
      (ended : v ≠ slotRunning) (undone : v ≠ slotDone) :
      Effect s c call { s with violation := some (.slotEnded (s.flagOf call).id v) }
        [.log (.violated (.slotEnded (s.flagOf call).id v))]
  /-- Nobody wants the value. -/
  | returns {value : α} (phase : call.phase = .storing value ∨ call.phase = .publishing value)
      (unwanted : call.cell = none) :
      Effect s c call (s.setPhase c call (.completing .returned)) []
  | reserves {value : α} {key : Nat} {cell claimed : LazyCell α}
      (phase : call.phase = .storing value) (wanted : call.cell = some key)
      (known : s.cells.get? key = some cell) (free : cell.claim = some claimed) :
      Effect s c call
        ({ s with cells := s.cells.set key claimed }.setPhase c call (.publishing value)) []
  | discards {value : α} {key : Nat} (phase : call.phase = .storing value)
      (wanted : call.cell = some key) (taken : (s.cells.get? key).bind LazyCell.claim = none) :
      Effect s c call (s.setPhase c call (.completing .returned))
        [.log (.secondValue (s.flagOf call).id), .discarded value]
  | publishes {value : α} {key : Nat} (phase : call.phase = .publishing value)
      (wanted : call.cell = some key) :
      Effect s c call ({ s with cells := s.cells.modify key (·.publish value) }.setPhase c call
        (.completing .returned)) []
  /-- The operation of the call is not in its registry. -/
  | misses {ending : Ending} {r : Registry Nat} (phase : call.phase = .completing ending)
      (through : s.executorOf call = some (.registry r))
      (missing : r.retire (s.flagOf call).id = none) :
      Effect s c call { s.completeFlag call.flag with violation := some .missingOperation }
        [.log (.violated .missingOperation)]
  | retires {ending : Ending} {r r' : Registry Nat} {waiters : List Nat}
      (phase : call.phase = .completing ending)
      (through : s.executorOf call = some (.registry r))
      (taken : r.retire (s.flagOf call).id = some (waiters, r')) :
      Effect s c call
        (((s.completeFlag call.flag).setExecutor call.target (.registry r')).setPhase c call
          (.resuming waiters ending))
        (if waiters.isEmpty then [] else [.log (.resumes (s.flagOf call).id waiters.length)])
  | settles {ending : Ending} {t : SlotTable} (phase : call.phase = .completing ending)
      (through : s.executorOf call = some (.table t)) (free : t.guard? = none) :
      Effect s c call
        (((s.markSlot t (s.flagOf call).id slotDone).setExecutor call.target
          (.table (t.lock (s.flagOf call).id))).setPhase c call (.marking ending)) []
  /-- The slot of the call is done, and its flag is next. -/
  | marks {ending : Ending} (phase : call.phase = .marking ending) :
      Effect s c call ((s.completeFlag call.flag).setPhase c call (.releasing ending)) []
  /-- The slot is done and the flag set, and the claim goes. -/
  | releases {ending : Ending} (phase : call.phase = .releasing ending) :
      Effect s c call ((s.unlock call.target).setPhase c call (.resuming [] ending)) []
  /-- The next waiter is handed control, unless its future is gone. -/
  | hands {waiter : Nat} {rest : List Nat} {ending : Ending}
      (phase : call.phase = .resuming (waiter :: rest) ending) :
      Effect s c call ((s.setPhase c call (.resuming rest ending)).handOver waiter).1
        ((s.setPhase c call (.resuming rest ending)).handOver waiter).2
  /-- Nobody waits any more, and the call returns. -/
  | goesOn (phase : call.phase = .resuming [] .returned) :
      Effect s c call (s.setPhase c call .concluding) []
  /-- Nobody waits any more, and the call does not return. -/
  | leaves {ending : Ending} {outcome : Outcome α} (phase : call.phase = .resuming [] ending)
      (cause : ending = .unwound ∧ outcome = .unwound ∨ ending = .dropped ∧ outcome = .dropped) :
      Effect s c call (s.setPhase c call (.ended outcome)) []
  | fails (phase : call.phase = .concluding) (clear : (s.flagOf call).isDone = false) :
      Effect s c call { s with violation := some (.unsetFlag (s.flagOf call).id) }
        [.log (.violated (.unsetFlag (s.flagOf call).id))]
  | concludes (phase : call.phase = .concluding) (set : (s.flagOf call).isDone = true) :
      Effect s c call (s.setPhase c call (.ended (s.result call))) []

/-- What comes out of an action. -/
inductive Impact (s : State α) : Action α → State α → Prop
  /-- The call is not there, or it is not the one to act on. -/
  | idles (a : Action α) : Impact s a s
  | issues (call : Call α) (new : call.IsNew s) :
      Impact s (.issue call) ({ s with nextKey := s.nextKey + 1 }.setCall s.nextKey call)
  | steps {c : Nat} {call : Call α} {s' : State α} {notices : List (Notice α)}
      (known : s.calls.get? c = some call) (effect : Effect s c call s' notices) :
      Impact s (.advance c) s'
  /-- The initializer returns a value for the global. -/
  | yields {c : Nat} {call : Call α} (value : α) (known : s.calls.get? c = some call)
      (running : call.phase = .running) :
      Impact s (.finish c .returned (some value)) (s.setPhase c call (.storing value))
  /-- The initializer returns without a value, unwinds, or is dropped. -/
  | ends {a : Action α} {c : Nat} {call : Call α} (ending : Ending) (subject : a.subject? = some c)
      (known : s.calls.get? c = some call) (running : call.phase = .running) :
      Impact s a (s.setPhase c call (.completing ending))
  | drops {c : Nat} {call : Call α} (known : s.calls.get? c = some call)
      (resting : call.phase.isResting = true) (waits : call.phase ≠ .running) :
      Impact s (.abandon c) (s.setPhase c call (.ended .dropped))

namespace State

variable {s : State α} {c k : Nat} {call : Call α}

/-! ## Phases after updates -/

theorem phaseOf_setCall_of_ne (call : Call α) (hk : k ≠ c) :
    (s.setCall c call).phaseOf k = s.phaseOf k := by
  have hget : (s.setCall c call).calls.get? k = s.calls.get? k :=
    Store.get?_set_of_ne _ (Ne.symm hk) _
  rw [phaseOf, phaseOf, hget]

/-- Handing control changes the phase of the waiter only, if it waits. -/
theorem phaseOf_handOver (other : k ≠ c ∨ (s.phaseOf k).isQueued = false) :
    (s.handOver c).1.phaseOf k = s.phaseOf k := by
  unfold handOver
  split
  · rfl
  next call hc =>
    split
    next signal hp =>
      refine phaseOf_setCall_of_ne _ ?_
      rintro rfl
      rcases other with hne | hnot
      · exact hne rfl
      · rw [phaseOf_of_get? hc, hp] at hnot
        cases hnot
    · rfl

/-- A call that hands control has one waiter less. -/
theorem phaseOf_hands (s : State α) (c : Nat) (call : Call α) (waiter : Nat) (rest : List Nat)
    (ending : Ending) : ((s.setPhase c call (.resuming rest ending)).handOver waiter).1.phaseOf c =
      .resuming rest ending := by
  have hnow := phaseOf_setPhase s c call (.resuming rest ending)
  rw [phaseOf_handOver (Or.inr (by rw [hnow]; rfl)), hnow]

/-- Handing control changes calls only. -/
theorem handOver_eq (s : State α) (k : Nat) : ∃ calls, (s.handOver k).1 = { s with calls } := by
  unfold handOver
  split
  · exact ⟨s.calls, rfl⟩
  · split
    · exact ⟨_, rfl⟩
    · exact ⟨s.calls, rfl⟩

theorem violation_handOver (s : State α) (k : Nat) :
    (s.handOver k).1.violation = s.violation := by
  obtain ⟨calls, hcalls⟩ := handOver_eq s k
  rw [hcalls]

theorem phaseOf_handOver_self {signal : Signal} (phase : s.phaseOf k = .queued signal) :
    (s.handOver k).1.phaseOf k = .queued signal.raise := by
  cases hk : s.calls.get? k with
  | none =>
    rw [phaseOf, hk] at phase
    cases phase
  | some call =>
    rw [phaseOf_of_get? hk] at phase
    simp only [handOver, hk, phase]
    exact phaseOf_setCall ..

/-! ## The effect of each step -/

theorem effect_probe (phase : call.phase = .probing) :
    Effect s c call (s.probe c call).1 (s.probe c call).2 := by
  unfold probe
  split
  next absent => exact .skips (Or.inl phase) absent
  next cell known =>
    split
    next value stored => exact .finds phase known stored
    next bare => exact .asks phase known bare

theorem effect_bind (phase : call.phase = .binding) :
    Effect s c call (s.bind c call).1 (s.bind c call).2 := by
  unfold bind
  split
  next unwanted => exact .skips (Or.inr phase) (by rw [unwanted]; rfl)
  next key wanted =>
    split
    next absent => exact .skips (Or.inr phase) (by rw [wanted]; exact absent)
    next cell known =>
      split
      next bound tied => exact .ties phase wanted known tied
      next untied => exact .strays phase wanted known untied

theorem effect_load (phase : call.phase = .arriving) :
    Effect s c call (s.load c call).1 (s.load c call).2 := by
  unfold load
  cases hdone : (s.flagOf call).isDone with
  | true => exact .sees phase hdone
  | false => exact .contends phase hdone

theorem effect_enterRegistry {r : Registry Nat} (phase : call.phase = .contending)
    (through : s.executorOf call = some (.registry r)) :
    Effect s c call (s.enterRegistry c call r).1 (s.enterRegistry c call r).2 := by
  cases hdone : (s.flagOf call).isDone with
  | true =>
    have he : r.enter (s.flagOf call) (s.identify call).1 c = (.done, r) := by
      simp [Registry.enter, hdone]
    simp only [enterRegistry, he]
    exact .late phase through hdone
  | false =>
    cases hfind : r.find? (s.flagOf call).id with
    | none =>
      have he : r.enter (s.flagOf call) (s.identify call).1 c = (.won, ⟨r.operations ++
          [{ flag := (s.flagOf call).id, initiator := (s.identify call).1 }]⟩) := by
        simp [Registry.enter, hdone, hfind]
      simp only [enterRegistry, he]
      exact .wins phase through hdone hfind
    | some op =>
      by_cases hown : op.initiator = (s.identify call).1
      · have he : r.enter (s.flagOf call) (s.identify call).1 c = (.reentrant, r) := by
          simp [Registry.enter, hdone, hfind, hown]
        simp only [enterRegistry, he]
        exact .meets phase through hdone hfind hown
      · have he : r.enter (s.flagOf call) (s.identify call).1 c =
            (.waiting (op.waiters.length + 1),
              ⟨Registry.enqueue (s.flagOf call).id c r.operations⟩) := by
          simp [Registry.enter, hdone, hfind, hown]
        simp only [enterRegistry, he]
        exact .joins phase through hdone hfind hown

theorem effect_enterTable {t : SlotTable} (phase : call.phase = .contending)
    (through : s.executorOf call = some (.table t)) :
    Effect s c call (s.enterTable c call t).1 (s.enterTable c call t).2 := by
  cases hseen : t.state? s.image.directory (s.flagOf call).id with
  | none =>
    simp only [enterTable, hseen]
    exact .lacks phase through hseen
  | some v =>
    by_cases locked : t.isLocked = true
    · simp only [enterTable, hseen, if_pos locked]
      exact .rests (by rw [phase]; rfl)
    have free := SlotTable.isLocked_eq_false.mp (Bool.eq_false_iff.mpr locked)
    by_cases hmine : t.claims.contains ((s.flagOf call).id, (s.identify call).1) = true
    · simp only [enterTable, hseen, if_neg locked, SlotTable.claim, if_pos hmine]
      exact .recurs phase through (List.contains_iff_mem.mp hmine) free
    · have hother := mt List.contains_iff_mem.mpr hmine
      by_cases hidle : v = slotIdle
      · simp only [enterTable, hseen, if_neg locked, SlotTable.claim, if_neg hmine, if_pos hidle]
        rw [hidle] at hseen
        exact .claims phase through hother hseen free
      · simp only [enterTable, hseen, if_neg locked, SlotTable.claim, if_neg hmine, if_neg hidle]
        exact .loses phase through hother hseen hidle free

theorem effect_enter (phase : call.phase = .contending) :
    Effect s c call (s.enter c call).1 (s.enter c call).2 := by
  cases through : s.executorOf call with
  | none =>
    simp only [enter, through]
    exact .rests (by rw [phase]; rfl)
  | some executor =>
    cases executor with
    | registry r =>
      simp only [enter, through]
      exact effect_enterRegistry phase through
    | table t =>
      simp only [enter, through]
      exact effect_enterTable phase through

theorem effect_await {signal : Signal} (phase : call.phase = .queued signal) :
    Effect s c call (s.await c call signal).1 (s.await c call signal).2 := by
  unfold await
  split
  next raised => exact .resumes phase raised
  next unraised =>
    cases signal with
    | cell w => exact .parks phase (Bool.eq_false_iff.mpr unraised)
    | channel sent => exact .rests (by rw [phase]; rfl)

theorem effect_observe (phase : call.phase = .polling) :
    Effect s c call (s.observe c call).1 (s.observe c call).2 := by
  unfold observe
  cases seen : s.slotSeen? call with
  | none => exact .rests (by rw [phase]; rfl)
  | some v =>
    dsimp only
    split
    · exact .rests (by rw [phase]; rfl)
    next ended =>
      split
      next done => exact .follows phase (by rw [seen, done])
      next undone => exact .breaks phase seen ended undone

theorem effect_store {value : α} (phase : call.phase = .storing value) :
    Effect s c call (s.store c call value).1 (s.store c call value).2 := by
  unfold store
  split
  next unwanted => exact .returns (Or.inl phase) unwanted
  next key wanted =>
    split
    next claimed hclaim =>
      obtain ⟨cell, known, free⟩ := Option.bind_eq_some_iff.mp hclaim
      exact .reserves phase wanted known free
    next taken => exact .discards phase wanted taken

theorem effect_publish {value : α} (phase : call.phase = .publishing value) :
    Effect s c call (s.publish c call value).1 (s.publish c call value).2 := by
  cases wanted : call.cell with
  | none =>
    simp only [publish, wanted]
    exact .returns (Or.inr phase) wanted
  | some key =>
    simp only [publish, wanted]
    exact .publishes phase wanted

theorem effect_complete {ending : Ending} (phase : call.phase = .completing ending) :
    Effect s c call (s.complete c call ending).1 (s.complete c call ending).2 := by
  cases through : s.executorOf call with
  | none =>
    simp only [complete, through]
    exact .rests (by rw [phase]; rfl)
  | some executor =>
    cases executor with
    | registry r =>
      simp only [complete, through, retire]
      split
      next missing => exact .misses phase through missing
      next waiters r' taken => exact .retires phase through taken
    | table t =>
      simp only [complete, through, settle]
      split
      next locked => exact .rests (by rw [phase]; rfl)
      next free =>
        exact .settles phase through
          (SlotTable.isLocked_eq_false.mp (Bool.eq_false_iff.mpr free))

theorem effect_resume {waiters : List Nat} {ending : Ending}
    (phase : call.phase = .resuming waiters ending) :
    Effect s c call (s.resume c call ending waiters).1 (s.resume c call ending waiters).2 := by
  cases waiters with
  | cons waiter rest => exact .hands phase
  | nil =>
    cases ending with
    | returned => exact .goesOn phase
    | unwound => exact .leaves phase (Or.inl ⟨rfl, rfl⟩)
    | dropped => exact .leaves phase (Or.inr ⟨rfl, rfl⟩)

theorem effect_conclude (phase : call.phase = .concluding) :
    Effect s c call (s.conclude c call).1 (s.conclude c call).2 := by
  cases hdone : (s.flagOf call).isDone with
  | false =>
    simp only [conclude, hdone]
    exact .fails phase hdone
  | true =>
    have hresult : s.conclude c call = (s.setPhase c call (.ended (s.result call)), []) := by
      simp only [conclude, hdone, result]
      cases call.cell with
      | none => rfl
      | some key => cases hvalue : (s.cells.get? key).bind LazyCell.value? <;> simp [hvalue]
    rw [hresult]
    exact .concludes phase hdone

/-- **A step of a call has one of the effects.** -/
theorem effect_advance (alive : s.violation = none) (hc : s.calls.get? c = some call) :
    Effect s c call (s.advance c).1 (s.advance c).2 := by
  simp only [advance, alive, hc]
  cases phase : call.phase with
  | probing => exact effect_probe phase
  | binding => exact effect_bind phase
  | arriving => exact effect_load phase
  | contending => exact effect_enter phase
  | running => exact .rests (by rw [phase]; rfl)
  | queued signal => exact effect_await phase
  | polling => exact effect_observe phase
  | storing value => exact effect_store phase
  | publishing value => exact effect_publish phase
  | completing ending => exact effect_complete phase
  | marking ending => exact .marks phase
  | releasing ending => exact .releases phase
  | resuming waiters ending => exact effect_resume phase
  | concluding => exact effect_conclude phase
  | ended outcome => exact .rests (by rw [phase]; rfl)

/-! ## The impact of each action -/

theorem impact_finish (c : Nat) (ending : Ending) (value : Option α) :
    Impact s (.finish c ending value) (s.finish c ending value) := by
  cases known : s.calls.get? c with
  | none =>
    simp only [finish, known]
    exact .idles _
  | some call =>
    cases running : call.phase with
    | running =>
      have hends (he : s.finish c ending value = s.setPhase c call (.completing ending)) :
          Impact s (.finish c ending value) (s.finish c ending value) := by
        rw [he]
        exact .ends ending rfl known running
      cases ending with
      | returned =>
        cases value with
        | none => exact hends (by simp only [finish, known, running])
        | some v =>
          simp only [finish, known, running]
          exact .yields v known running
      | unwound | dropped => exact hends (by simp only [finish, known, running])
    | _ =>
      simp only [finish, known, running]
      exact .idles _

theorem impact_abandon (possible : s.Possible (.abandon c)) :
    Impact s (.abandon c) (s.abandon c) := by
  obtain ⟨call, known, -, resting⟩ := possible
  have hdrops (waits : call.phase ≠ .running)
      (he : s.abandon c = s.setPhase c call (.ended .dropped)) :
      Impact s (.abandon c) (s.abandon c) := by
    rw [he]
    exact .drops known resting waits
  cases phase : call.phase with
  | running =>
    have he : s.abandon c = s.setPhase c call (.completing .dropped) := by
      simp only [abandon, finish, known, phase]
    rw [he]
    exact .ends .dropped rfl known phase
  | probing | arriving | queued _ | polling =>
    exact hdrops (by simp [phase]) (by simp only [abandon, known, phase])
  | _ => simp [phase, Phase.isResting] at resting

/-- **An action has one of the impacts.** -/
theorem impact_act {a : Action α} (alive : s.violation = none) (possible : s.Possible a) :
    Impact s a (s.act a) := by
  cases a with
  | issue call => exact .issues call possible
  | advance c =>
    cases known : s.calls.get? c with
    | none =>
      have hsame : s.act (.advance c) = s := by simp only [act, advance, alive, known]
      rw [hsame]
      exact .idles _
    | some call => exact .steps known (effect_advance alive known)
  | finish c ending value => exact impact_finish c ending value
  | abandon c => exact impact_abandon possible

/-! ## What others do to a call -/

theorem phaseOf_afterLock_of_ne {executor : Executor} {phase : Phase α} (hk : k ≠ c) :
    (s.afterLock c call executor phase).phaseOf k = s.phaseOf k := by
  obtain ⟨n, -, hn⟩ := identify_eq s call
  rw [afterLock, phaseOf_setCall_of_ne _ hk, hn]
  rfl

/-- A call to which control is handed at most has its signal raised. -/
theorem phaseOf_handOver_cases (s : State α) (k waiter : Nat) :
    (s.handOver waiter).1.phaseOf k = s.phaseOf k ∨ ∃ signal, s.phaseOf k = .queued signal ∧
      (s.handOver waiter).1.phaseOf k = .queued signal.raise := by
  cases hk : s.phaseOf k with
  | queued signal =>
    by_cases hw : k = waiter
    · subst hw
      exact Or.inr ⟨signal, rfl, phaseOf_handOver_self hk⟩
    · exact Or.inl ((phaseOf_handOver (Or.inl hw)).trans hk)
  | _ => exact Or.inl ((phaseOf_handOver (Or.inr (by rw [hk]; rfl))).trans hk)

theorem phaseOf_effect_of_ne {s' : State α} {notices : List (Notice α)}
    (effect : Effect s c call s' notices) (hk : k ≠ c) :
    s'.phaseOf k = s.phaseOf k ∨ ∃ signal, s.phaseOf k = .queued signal ∧
      s'.phaseOf k = .queued signal.raise := by
  have hset (next : State α) (call : Call α) (same : next.calls = s.calls) :
      (next.setCall c call).phaseOf k = s.phaseOf k := by
    rw [phaseOf_setCall_of_ne _ hk, phaseOf, phaseOf, same]
  cases effect with
  | rests | lacks | breaks | misses | fails => exact Or.inl rfl
  | late | meets | joins | wins | recurs | loses | claims =>
    exact Or.inl (phaseOf_afterLock_of_ne hk)
  | @hands waiter rest ending =>
    have hfirst := hset s { call with phase := .resuming rest ending } rfl
    rw [← hfirst]
    exact phaseOf_handOver_cases ..
  | _ => exact Or.inl (hset _ _ rfl)

/-- **What an action does to the other calls**: one of them may have its signal raised. -/
theorem phaseOf_act_of_ne {a : Action α} (alive : s.violation = none) (possible : s.Possible a)
    (other : k ≠ a.call s) : (s.act a).phaseOf k = s.phaseOf k ∨
      ∃ signal, s.phaseOf k = .queued signal ∧ (s.act a).phaseOf k = .queued signal.raise := by
  have impact := impact_act alive possible
  generalize s.act a = s' at impact
  cases impact with
  | idles => exact Or.inl rfl
  | steps known effect => exact phaseOf_effect_of_ne effect other
  | ends ending subject =>
    rw [Action.call, subject] at other
    exact Or.inl (phaseOf_setCall_of_ne _ other)
  | issues | yields | drops => exact Or.inl (phaseOf_setCall_of_ne _ other)

/-- A call that is over stays as it is. -/
theorem phaseOf_act_of_over {a : Action α} (alive : s.violation = none) (possible : s.Possible a)
    (hc : s.calls.get? c = some call) (isOver : call.phase.isOver = true)
    (fresh : s.calls.get? s.nextKey = none) : (s.act a).phaseOf c = s.phaseOf c := by
  by_cases mine : c = a.call s
  · cases hp : call.phase with
    | ended outcome =>
      suffices s.act a = s by rw [this]
      cases a with
      | issue =>
        rw [show c = s.nextKey from mine, fresh] at hc
        cases hc
      | advance k =>
        obtain rfl : c = k := mine
        simp only [act, advance, alive, hc, hp]
      | finish k =>
        obtain rfl : c = k := mine
        simp only [act, finish, hc, hp]
      | abandon k =>
        obtain rfl : c = k := mine
        simp only [act, abandon, hc, hp]
    | _ =>
      rw [hp] at isOver
      cases isOver
  · rcases phaseOf_act_of_ne alive possible mine with hsame | ⟨signal, hqueued, -⟩
    · exact hsame
    · rw [phaseOf_of_get? hc] at hqueued
      rw [hqueued] at isOver
      cases isOver

/-- A call whose initializer does not run rests, takes a step by itself, or is dropped. -/
theorem idle_act {a : Action α} (alive : s.violation = none) (possible : s.Possible a)
    (hc : s.calls.get? c = some call) (fresh : s.calls.get? s.nextKey = none)
    (idle : call.phase ≠ .running) (mine : a.call s = c) :
    s.act a = s ∨ (a = .advance c ∧ ∃ notices, Effect s c call (s.act a) notices) ∨
      a = .abandon c ∧ (s.act a).phaseOf c = .ended .dropped := by
  have impact := impact_act alive possible
  generalize s.act a = s' at impact ⊢
  cases impact with
  | idles => exact Or.inl rfl
  | issues =>
    obtain rfl : s.nextKey = c := mine
    rw [fresh] at hc
    cases hc
  | @steps k other s' notices known effect =>
    obtain rfl : k = c := mine
    obtain rfl : call = other := Option.some.inj (hc.symm.trans known)
    exact Or.inr (Or.inl ⟨rfl, notices, effect⟩)
  | yields value known running =>
    obtain rfl : _ = c := mine
    obtain rfl : call = _ := Option.some.inj (hc.symm.trans known)
    exact absurd running idle
  | ends ending subject known running =>
    rw [Action.call, subject] at mine
    obtain rfl : _ = c := mine
    obtain rfl : call = _ := Option.some.inj (hc.symm.trans known)
    exact absurd running idle
  | @drops k other known =>
    obtain rfl : k = c := mine
    exact Or.inr (Or.inr ⟨rfl, phaseOf_setCall ..⟩)

/-- **What becomes of a call** whose initializer does not run: it stays where it is, is handed
control, takes a step by itself, or is dropped. -/
theorem phaseOf_act_cases {a : Action α} (alive : s.violation = none) (possible : s.Possible a)
    (hc : s.calls.get? c = some call) (fresh : s.calls.get? s.nextKey = none)
    (idle : call.phase ≠ .running) :
    (s.act a).phaseOf c = call.phase ∨
      (∃ signal, call.phase = .queued signal ∧ (s.act a).phaseOf c = .queued signal.raise) ∨
      (a = .advance c ∧ ∃ notices, Effect s c call (s.act a) notices) ∨
      a = .abandon c ∧ (s.act a).phaseOf c = .ended .dropped := by
  rw [← phaseOf_of_get? hc]
  by_cases mine : c = a.call s
  · rcases idle_act alive possible hc fresh idle mine.symm with hact | stepped | dropped
    · rw [hact]
      exact Or.inl rfl
    · exact Or.inr (Or.inr (Or.inl stepped))
    · exact Or.inr (Or.inr (Or.inr dropped))
  · exact (phaseOf_act_of_ne alive possible mine).imp_right Or.inl

/-- An initializer that runs goes on to run, unless it ends. -/
theorem running_act {a : Action α} (alive : s.violation = none) (possible : s.Possible a)
    (running : s.phaseOf c = .running) (fresh : s.calls.get? s.nextKey = none)
    (unended : ∀ ending value, a ≠ .finish c ending value) (undropped : a ≠ .abandon c) :
    (s.act a).phaseOf c = .running := by
  by_cases mine : c = a.call s
  · cases a with
    | issue =>
      rw [show c = s.nextKey from mine, phaseOf, fresh] at running
      cases running
    | advance k =>
      obtain rfl : c = k := mine
      cases hc : s.calls.get? c with
      | none => simp only [act, advance, alive, hc, running]
      | some call =>
        have hp := running
        rw [phaseOf_of_get? hc] at hp
        simp only [act, advance, alive, hc, hp, running]
    | finish k ending value =>
      obtain rfl : c = k := mine
      exact absurd rfl (unended ending value)
    | abandon k =>
      obtain rfl : c = k := mine
      exact absurd rfl undropped
  · rcases phaseOf_act_of_ne alive possible mine with hsame | ⟨signal, hqueued, -⟩
    · rw [hsame, running]
    · rw [running] at hqueued
      cases hqueued

/-! ## Targets -/

/-- A step changes at most what is under the key of a target. -/
theorem targets_effect {s' : State α} {notices : List (Notice α)}
    (effect : Effect s c call s' notices) :
    s'.targets = s.targets ∨ ∃ k f, s'.targets = s.targets.modify k f := by
  have lock (executor : Executor) (phase : Phase α) : ∃ k f,
      (s.afterLock c call executor phase).targets = s.targets.modify k f := by
    obtain ⟨n, -, hn⟩ := identify_eq s call
    refine ⟨call.target, ({ · with executor }), ?_⟩
    rw [afterLock, hn]
    rfl
  cases effect with
  | late | meets | joins | wins | recurs | loses => exact Or.inr (lock _ _)
  | claims => exact Or.inr (lock _ .running)
  | retires | settles | releases => exact Or.inr ⟨_, _, rfl⟩
  | hands =>
    obtain ⟨calls, hcalls⟩ := handOver_eq ..
    exact Or.inl (by rw [hcalls]; rfl)
  | _ => exact Or.inl rfl

/-- Targets stay. -/
theorem exists_target_act {a : Action α} {t : Nat} (alive : s.violation = none)
    (possible : s.Possible a) (known : ∃ target, s.targets.get? t = some target) :
    ∃ target, (s.act a).targets.get? t = some target := by
  obtain ⟨target, ht⟩ := known
  have impact := impact_act alive possible
  generalize s.act a = s' at impact ⊢
  cases impact with
  | steps here effect =>
    rcases targets_effect effect with same | ⟨k, f, changed⟩
    · exact ⟨target, by rw [same, ht]⟩
    · rw [changed, Store.get?_modify, ht]
      split
      · exact ⟨_, rfl⟩
      · exact ⟨_, rfl⟩
  | _ => exact ⟨target, ht⟩

end State

end RunOnce.Protocol
