import RunOnce.Proofs.Abandon.Frames

/-!
# What would be if the initializers returned

**Two runs.** Take a run in which frames are abandoned, and let each initializer of theirs return
where it was abandoned (`Moment.returning`). This is a run too, and it comes to the same flags,
globals, executors and slots (`Run.returning`).

**Mirroring** (`Mirrors`). The two states agree in all that calls share, and in all calls that are
no frames. A frame that is completed as one that did not return stands against one that did; both
complete the same operation and hand control to the same waiters. In the end the one is over, and the
other one has only to make sure that its flag is set. Every step keeps this (`Mirrors.act`), because
no step looks at how an initializer has ended before its waiters have control.
-/

namespace RunOnce.Protocol

open State

variable {α : Type}

/-- A phase of a call, and the one it would be in if its initializer had returned. -/
inductive Phase.Like (isFrame : Prop) : Phase α → Phase α → Prop
  | same (phase : Phase α) : Like isFrame phase phase
  | completing (mine : isFrame) (ending : Ending) :
      Like isFrame (.completing ending) (.completing .returned)
  | marking (mine : isFrame) (ending : Ending) :
      Like isFrame (.marking ending) (.marking .returned)
  | releasing (mine : isFrame) (ending : Ending) :
      Like isFrame (.releasing ending) (.releasing .returned)
  | resuming (mine : isFrame) (waiters : List Nat) (ending : Ending) :
      Like isFrame (.resuming waiters ending) (.resuming waiters .returned)
  | concluding (mine : isFrame) (outcome : Outcome α) : Like isFrame (.ended outcome) .concluding

/-- Calls that differ in the phases of frames only, and in how their initializers have ended. -/
def Alike (frames : List Nat) (calls calls' : Store Nat (Call α)) : Prop :=
  ∀ c, (calls.get? c = none ∧ calls'.get? c = none) ∨
    ∃ call phase, calls.get? c = some call ∧ calls'.get? c = some { call with phase } ∧
      call.phase.Like (c ∈ frames) phase

/-- The state with other calls. -/
def State.withCalls (s : State α) (calls : Store Nat (Call α)) : State α := { s with calls }

/-- Two states that differ in frames only, and in how their initializers have ended. -/
def Mirrors (frames : List Nat) (s t : State α) : Prop :=
  ∃ calls, Alike frames s.calls calls ∧ t = s.withCalls calls

/-- The action, but where an initializer of a frame ends, it returns. -/
def Moment.returning (frames : List Nat) (m : Moment α) : Action α :=
  match m.ends? with
  | some c => if c ∈ frames then .finish c .returned none else m.action
  | none => m.action

/-- The actions of a run, but initializers of frames return instead of being abandoned. -/
def returning (frames : List Nat) (past : List (Moment α)) : List (Action α) :=
  past.map (·.returning frames)

section

variable {s t : State α} {a : Action α} {c k : Nat} {call call' : Call α} {frames : List Nat}
  {calls : Store Nat (Call α)}

@[simp] theorem withCalls_flagOf : (s.withCalls calls).flagOf call = s.flagOf call := rfl
@[simp] theorem withCalls_executorOf :
    (s.withCalls calls).executorOf call = s.executorOf call := rfl
@[simp] theorem withCalls_slotSeen? : (s.withCalls calls).slotSeen? call = s.slotSeen? call := rfl
@[simp] theorem withCalls_cells : (s.withCalls calls).cells = s.cells := rfl
@[simp] theorem withCalls_image : (s.withCalls calls).image = s.image := rfl
@[simp] theorem withCalls_violation : (s.withCalls calls).violation = s.violation := rfl
@[simp] theorem withCalls_calls : (s.withCalls calls).calls = calls := rfl

/-! ## Calls -/

namespace Alike

theorem refl (frames : List Nat) (calls : Store Nat (Call α)) : Alike frames calls calls := by
  intro c
  cases hc : calls.get? c with
  | none => exact Or.inl ⟨rfl, rfl⟩
  | some call => exact Or.inr ⟨call, call.phase, rfl, rfl, .same _⟩

theorem of_get? (alike : Alike frames s.calls calls) (hc : s.calls.get? c = some call) :
    ∃ phase, calls.get? c = some { call with phase } ∧ call.phase.Like (c ∈ frames) phase := by
  rcases alike c with ⟨hnone, -⟩ | ⟨mine, phase, hmine, hcall, like⟩
  · rw [hc] at hnone
    cases hnone
  · rw [hc] at hmine
    cases hmine
    exact ⟨phase, hcall, like⟩

theorem of_none (alike : Alike frames s.calls calls) (hc : s.calls.get? c = none) :
    calls.get? c = none := by
  rcases alike c with ⟨-, hnone⟩ | ⟨mine, phase, hmine, -⟩
  · exact hnone
  · rw [hc] at hmine
    cases hmine

theorem set (alike : Alike frames s.calls calls) {phase phase' : Phase α} (call : Call α)
    (like : phase.Like (c ∈ frames) phase') :
    Alike frames (s.calls.set c { call with phase })
      (calls.set c { call with phase := phase' }) := by
  intro k
  rw [Store.get?_set, Store.get?_set]
  by_cases hk : c = k
  · subst hk
    rw [if_pos rfl, if_pos rfl]
    exact Or.inr ⟨_, phase', rfl, rfl, like⟩
  · rw [if_neg hk, if_neg hk]
    exact alike k

/-- Who a call is does not depend on how initializers have ended. -/
theorem identify (alike : Alike frames s.calls calls) (call : Call α) :
    (s.withCalls calls).identify call =
      ((s.identify call).1, (s.identify call).2.withCalls calls) := by
  have haround : (s.withCalls calls).around? call = s.around? call := by
    unfold around?
    cases call.enclosing with
    | none => rfl
    | some outer =>
      cases houter : s.calls.get? outer with
      | none => simp [alike.of_none houter, houter]
      | some o =>
        obtain ⟨phase, hphase, -⟩ := alike.of_get? houter
        simp [hphase, houter]
  unfold State.identify
  rw [haround]
  cases s.around? call with
  | none => cases call.flavour <;> rfl
  | some who =>
    cases who with
    | thread => cases call.flavour <;> rfl
    | scope => rfl

end Alike

/-! ## Steps of one call -/

theorem Mirrors.refl (frames : List Nat) (s : State α) : Mirrors frames s s :=
  ⟨s.calls, Alike.refl frames _, rfl⟩

section

variable (alike : Alike frames s.calls calls)

include alike

theorem mirrors_setPhase {phase phase' : Phase α} (call : Call α)
    (like : phase.Like (c ∈ frames) phase') :
    Mirrors frames (s.setPhase c call phase) ((s.withCalls calls).setPhase c call phase') :=
  ⟨_, alike.set call like, rfl⟩

theorem mirrors_same (phase : Phase α) (call : Call α) :
    Mirrors frames (s.setPhase c call phase) ((s.withCalls calls).setPhase c call phase) :=
  mirrors_setPhase alike call (.same phase)

theorem mirrors_probe :
    Mirrors frames (s.probe c call).1 ((s.withCalls calls).probe c call).1 := by
  simp only [probe, withCalls_cells]
  cases call.cell.bind s.cells.get? with
  | none => exact mirrors_same alike ..
  | some cell =>
    dsimp only
    cases cell.value? <;> exact mirrors_same alike ..

theorem mirrors_bind :
    Mirrors frames (s.bind c call).1 ((s.withCalls calls).bind c call).1 := by
  simp only [State.bind, withCalls_cells, withCalls_flagOf]
  cases call.cell with
  | none => exact mirrors_same alike ..
  | some key =>
    dsimp only
    cases s.cells.get? key with
    | none => exact mirrors_same alike ..
    | some cell =>
      dsimp only
      cases cell.bind call.target with
      | none => exact mirrors_same alike ..
      | some bound => exact mirrors_same (s := { s with cells := s.cells.set key bound }) alike ..

theorem mirrors_enterRegistry (r : Registry Nat) : Mirrors frames (s.enterRegistry c call r).1
    ((s.withCalls calls).enterRegistry c call r).1 := by
  obtain ⟨n, -, hknown⟩ := identify_eq s call
  simp only [enterRegistry, alike.identify call, withCalls_flagOf, hknown]
  cases hadmission : r.enter (s.flagOf call) (s.identify call).1 c with
  | mk admission registry =>
    have hsame (phase : Phase α) := mirrors_same (c := c)
      (s := ({ s with nextToken := n } : State α).setExecutor call.target (.registry registry))
      alike phase { call with initiator := some (s.identify call).1 }
    cases admission <;> exact hsame _

theorem mirrors_enterTable (table : SlotTable) : Mirrors frames (s.enterTable c call table).1
    ((s.withCalls calls).enterTable c call table).1 := by
  obtain ⟨n, -, hknown⟩ := identify_eq s call
  simp only [enterTable, alike.identify call, withCalls_flagOf, withCalls_image, hknown]
  cases table.state? s.image.directory (s.flagOf call).id with
  | none => exact ⟨calls, alike, rfl⟩
  | some state =>
    dsimp only
    split
    · exact ⟨calls, alike, rfl⟩
    cases table.claim state (s.flagOf call).id (s.identify call).1 with
    | mk claim table' =>
      have hsame (image : Region.Image) (phase : Phase α) := mirrors_same (c := c)
        (s := ({ s with nextToken := n, image } : State α).setExecutor call.target (.table table'))
        alike phase { call with initiator := some (s.identify call).1 }
      cases claim <;> exact hsame _ _

theorem mirrors_enter :
    Mirrors frames (s.enter c call).1 ((s.withCalls calls).enter c call).1 := by
  simp only [enter, withCalls_executorOf]
  cases s.executorOf call with
  | none => exact ⟨calls, alike, rfl⟩
  | some executor =>
    cases executor with
    | registry r => exact mirrors_enterRegistry alike r
    | table table => exact mirrors_enterTable alike table

theorem mirrors_await (signal : Signal) :
    Mirrors frames (s.await c call signal).1 ((s.withCalls calls).await c call signal).1 := by
  unfold await
  split
  · exact mirrors_same alike ..
  · cases signal with
    | cell => exact mirrors_same alike ..
    | channel => exact ⟨calls, alike, rfl⟩

theorem mirrors_observe :
    Mirrors frames (s.observe c call).1 ((s.withCalls calls).observe c call).1 := by
  simp only [observe, withCalls_slotSeen?, withCalls_flagOf]
  cases s.slotSeen? call with
  | none => exact ⟨calls, alike, rfl⟩
  | some state =>
    dsimp only
    split
    · exact ⟨calls, alike, rfl⟩
    · split
      · exact mirrors_same (s := s.completeFlag call.flag) alike ..
      · exact ⟨calls, alike, rfl⟩

theorem mirrors_store (value : α) :
    Mirrors frames (s.store c call value).1 ((s.withCalls calls).store c call value).1 := by
  simp only [store, withCalls_cells, withCalls_flagOf]
  cases call.cell with
  | none => exact mirrors_same alike ..
  | some key =>
    dsimp only
    cases (s.cells.get? key).bind LazyCell.claim with
    | none => exact mirrors_same alike ..
    | some claimed =>
      exact mirrors_same (s := { s with cells := s.cells.set key claimed }) alike ..

theorem mirrors_publish (value : α) :
    Mirrors frames (s.publish c call value).1 ((s.withCalls calls).publish c call value).1 := by
  unfold publish
  cases call.cell with
  | none => exact mirrors_same alike ..
  | some key =>
    exact mirrors_same (s := { s with cells := s.cells.modify key (·.publish value) }) alike ..

theorem mirrors_conclude :
    Mirrors frames (s.conclude c call).1 ((s.withCalls calls).conclude c call).1 := by
  cases hdone : (s.flagOf call).isDone with
  | false =>
    simp only [conclude, withCalls_flagOf, hdone, Bool.not_false, if_true]
    exact ⟨calls, alike, rfl⟩
  | true =>
    simp only [conclude, withCalls_flagOf, withCalls_cells, hdone, Bool.not_true,
      Bool.false_eq_true, if_false]
    cases call.cell with
    | none => exact mirrors_same alike ..
    | some key =>
      cases hvalue : (s.cells.get? key).bind LazyCell.value? <;> simp only [hvalue] <;>
        exact mirrors_same alike ..

/-- The operation is retired, however the initializer has ended. -/
theorem mirrors_complete {ending ending' : Ending}
    (like : ending' = ending ∨ c ∈ frames ∧ ending' = .returned) :
    Mirrors frames (s.complete c call ending).1
      ((s.withCalls calls).complete c call ending').1 := by
  have hresuming (waiters : List Nat) : (Phase.resuming waiters ending : Phase α).Like (c ∈ frames)
      (.resuming waiters ending') := by
    rcases like with rfl | ⟨mine, rfl⟩
    · exact .same _
    · exact .resuming mine waiters ending
  have hmarking : (Phase.marking ending : Phase α).Like (c ∈ frames) (.marking ending') := by
    rcases like with rfl | ⟨mine, rfl⟩
    · exact .same _
    · exact .marking mine ending
  simp only [complete, withCalls_executorOf, retire, settle, withCalls_flagOf]
  cases s.executorOf call with
  | none => exact ⟨calls, alike, rfl⟩
  | some executor =>
    cases executor with
    | registry r =>
      dsimp only
      cases r.retire (s.flagOf call).id with
      | none => exact ⟨calls, alike, rfl⟩
      | some taken =>
        exact mirrors_setPhase (s := (s.completeFlag call.flag).setExecutor call.target _) alike
          call (hresuming _)
    | table table =>
      dsimp only
      split
      · exact ⟨calls, alike, rfl⟩
      · exact mirrors_setPhase (s := (s.markSlot table _ slotDone).setExecutor _ _) alike call
          hmarking

/-- The flag is set, however the initializer has ended. -/
theorem mirrors_markFlag {ending ending' : Ending}
    (like : ending' = ending ∨ c ∈ frames ∧ ending' = .returned) :
    Mirrors frames (s.markFlag c call ending).1
      ((s.withCalls calls).markFlag c call ending').1 := by
  refine mirrors_setPhase (s := s.completeFlag call.flag) alike call ?_
  rcases like with rfl | ⟨mine, rfl⟩
  · exact .same _
  · exact .releasing mine ending

/-- The lock is given back, however the initializer has ended. -/
theorem mirrors_release {ending ending' : Ending}
    (like : ending' = ending ∨ c ∈ frames ∧ ending' = .returned) :
    Mirrors frames (s.release c call ending).1
      ((s.withCalls calls).release c call ending').1 := by
  refine mirrors_setPhase (s := s.unlock call.target) alike call ?_
  rcases like with rfl | ⟨mine, rfl⟩
  · exact .same _
  · exact .resuming mine [] ending

/-- The same waiter is handed control: no frame waits that is on its way out. -/
theorem mirrors_handOver (k : Nat) :
    Mirrors frames (s.handOver k).1 ((s.withCalls calls).handOver k).1 := by
  unfold handOver
  cases hk : s.calls.get? k with
  | none =>
    simp only [withCalls_calls, alike.of_none hk]
    exact ⟨calls, alike, rfl⟩
  | some waiter =>
    obtain ⟨phase, hphase, like⟩ := alike.of_get? hk
    simp only [withCalls_calls, hphase]
    generalize hwaiter : waiter.phase = before at like
    cases like with
    | same =>
      cases phase with
      | queued signal => exact mirrors_same alike _ waiter
      | _ => exact ⟨calls, alike, rfl⟩
    | completing | marking | releasing | resuming | concluding => exact ⟨calls, alike, rfl⟩

theorem mirrors_resume {ending ending' : Ending} {waiters : List Nat}
    (like : ending' = ending ∨ c ∈ frames ∧ ending' = .returned) :
    Mirrors frames (s.resume c call ending waiters).1
      ((s.withCalls calls).resume c call ending' waiters).1 := by
  cases waiters with
  | cons waiter rest =>
    have hresuming : (Phase.resuming rest ending : Phase α).Like (c ∈ frames)
        (.resuming rest ending') := by
      rcases like with rfl | ⟨mine, rfl⟩
      · exact .same _
      · exact .resuming mine rest ending
    obtain ⟨calls', alike', hcalls⟩ := mirrors_setPhase (s := s) alike call hresuming
    simp only [resume]
    rw [hcalls]
    exact mirrors_handOver alike' waiter
  | nil =>
    rcases like with rfl | ⟨mine, rfl⟩
    · cases ending' <;> exact mirrors_same alike ..
    · cases ending with
      | returned => exact mirrors_same alike ..
      | unwound | dropped => exact mirrors_setPhase alike call (.concluding mine _)

end

/-! ## Actions -/

theorem Mirrors.violation (mirrors : Mirrors frames s t) : t.violation = s.violation := by
  obtain ⟨calls, -, rfl⟩ := mirrors
  rfl

/-- A step that a call takes by itself. A frame that is over takes none. -/
theorem Mirrors.advance (mirrors : Mirrors frames s t)
    (goesOn : c ∈ frames → (s.phaseOf c).isLeaving = true) :
    Mirrors frames (s.advance c).1 (t.advance c).1 := by
  obtain ⟨calls, alike, rfl⟩ := mirrors
  have hsame : Mirrors frames s (s.withCalls calls) := ⟨calls, alike, rfl⟩
  unfold State.advance
  cases halive : s.violation with
  | some v =>
    simp only [withCalls_violation, halive]
    exact hsame
  | none =>
    cases hc : s.calls.get? c with
    | none =>
      simp only [withCalls_violation, halive, withCalls_calls, alike.of_none hc]
      exact hsame
    | some call =>
      obtain ⟨phase, hphase, like⟩ := alike.of_get? hc
      simp only [withCalls_violation, halive, withCalls_calls, hphase]
      rw [phaseOf_of_get? hc] at goesOn
      generalize hp : call.phase = now at like goesOn
      cases like with
      | concluding mine =>
        have hover := goesOn mine
        cases hover
      | completing mine ending => exact mirrors_complete alike (Or.inr ⟨mine, rfl⟩)
      | marking mine ending => exact mirrors_markFlag alike (Or.inr ⟨mine, rfl⟩)
      | releasing mine ending => exact mirrors_release alike (Or.inr ⟨mine, rfl⟩)
      | resuming mine waiters ending => exact mirrors_resume alike (Or.inr ⟨mine, rfl⟩)
      | same =>
        have hcall : { call with phase } = call := by rw [← hp]
        simp only [hcall]
        cases phase with
        | probing => exact mirrors_probe alike
        | binding => exact mirrors_bind alike
        | arriving => exact mirrors_same alike ..
        | contending => exact mirrors_enter alike
        | running | ended => exact hsame
        | queued signal => exact mirrors_await alike signal
        | polling => exact mirrors_observe alike
        | storing value => exact mirrors_store alike value
        | publishing value => exact mirrors_publish alike value
        | completing ending => exact mirrors_complete alike (Or.inl rfl)
        | marking ending => exact mirrors_markFlag alike (Or.inl rfl)
        | releasing ending => exact mirrors_release alike (Or.inl rfl)
        | resuming waiters ending => exact mirrors_resume alike (Or.inl rfl)
        | concluding => exact mirrors_conclude alike

/-- Only a call that is completed or over is in another phase if its initializer returned. -/
theorem Phase.Like.eq_of_isResting {isFrame : Prop} {phase phase' : Phase α}
    (like : phase.Like isFrame phase') (resting : phase.isResting = true) : phase' = phase := by
  cases like with
  | same => rfl
  | completing | marking | releasing | resuming | concluding => cases resting

/-- Whether a call needs a lock does not depend on how initializers have ended. -/
theorem Phase.Like.needsLock_eq {isFrame : Prop} {phase phase' : Phase α}
    (like : phase.Like isFrame phase') : phase'.needsLock = phase.needsLock := by
  cases like <;> rfl

/-- A call waits for the same locks. -/
theorem Mirrors.isLockedOut (mirrors : Mirrors frames s t) (c : Nat) :
    t.isLockedOut c = s.isLockedOut c := by
  obtain ⟨calls, alike, rfl⟩ := mirrors
  cases hc : s.calls.get? c with
  | none => simp only [State.isLockedOut, withCalls_calls, alike.of_none hc, hc]
  | some call =>
    obtain ⟨phase, hphase, like⟩ := alike.of_get? hc
    simp only [State.isLockedOut, withCalls_calls, hphase, hc, like.needsLock_eq]
    rfl

theorem Mirrors.finish (mirrors : Mirrors frames s t) (ending : Ending) (value : Option α) :
    Mirrors frames (s.finish c ending value) (t.finish c ending value) := by
  obtain ⟨calls, alike, rfl⟩ := mirrors
  have hsame : Mirrors frames s (s.withCalls calls) := ⟨calls, alike, rfl⟩
  unfold State.finish
  cases hc : s.calls.get? c with
  | none =>
    simp only [withCalls_calls, alike.of_none hc]
    exact hsame
  | some call =>
    obtain ⟨phase, hphase, like⟩ := alike.of_get? hc
    simp only [withCalls_calls, hphase]
    generalize call.phase = now at like
    cases like with
    | completing | marking | releasing | resuming | concluding => exact hsame
    | same =>
      cases phase with
      | running =>
        cases ending with
        | returned => cases value <;> exact mirrors_same alike _ call
        | unwound | dropped => exact mirrors_same alike _ call
      | _ => exact hsame

/-- The initializer of a frame ends: in one state it is abandoned, in the other one it returns. -/
theorem Mirrors.finish_returned (mirrors : Mirrors frames s t) (mine : c ∈ frames)
    (hc : s.calls.get? c = some call) (running : call.phase = .running) (ending : Ending) :
    Mirrors frames (s.setPhase c call (.completing ending)) (t.finish c .returned none) := by
  obtain ⟨calls, alike, rfl⟩ := mirrors
  obtain ⟨phase, hphase, like⟩ := alike.of_get? hc
  rw [running] at like
  obtain rfl := like.eq_of_isResting rfl
  have hfinish : (s.withCalls calls).finish c .returned none =
      (s.withCalls calls).setPhase c call (.completing .returned) := by
    simp only [State.finish, withCalls_calls, hphase]
    rfl
  rw [hfinish]
  exact mirrors_setPhase alike call (.completing mine ending)

/-- A call is dropped that waits, or one that is no frame. -/
theorem Mirrors.abandon (mirrors : Mirrors frames s t) (possible : s.Possible (.abandon c)) :
    t.Possible (.abandon c) ∧ Mirrors frames (s.abandon c) (t.abandon c) := by
  obtain ⟨calls, alike, rfl⟩ := mirrors
  obtain ⟨call, hc, async, resting⟩ := possible
  obtain ⟨phase, hphase, like⟩ := alike.of_get? hc
  obtain rfl := like.eq_of_isResting resting
  refine ⟨⟨_, hphase, async, resting⟩, ?_⟩
  have hdropped (phase : Phase α) : Mirrors frames (s.setPhase c call phase)
      ((s.withCalls calls).setPhase c call phase) := mirrors_same alike phase call
  unfold State.abandon
  simp only [withCalls_calls, hc, hphase]
  cases hp : call.phase with
  | running => exact Mirrors.finish ⟨calls, alike, rfl⟩ .dropped none
  | probing | arriving | queued | polling => exact hdropped _
  | _ =>
    rw [hp] at resting
    cases resting

theorem Mirrors.issue (mirrors : Mirrors frames s t) (possible : call.IsNew s) :
    call.IsNew t ∧ Mirrors frames (s.issue call).2 (t.issue call).2 := by
  obtain ⟨calls, alike, rfl⟩ := mirrors
  refine ⟨{ phase := possible.phase, initiator := possible.initiator, flag := possible.flag
            target := possible.target, enclosing := ?_ }, ?_⟩
  · intro outer henclosing
    have hrunning := possible.enclosing outer henclosing
    cases houter : s.calls.get? outer with
    | none =>
      rw [phaseOf, houter] at hrunning
      cases hrunning
    | some o =>
      obtain ⟨phase, hphase, like⟩ := alike.of_get? houter
      rw [phaseOf_of_get? houter] at hrunning
      rw [phaseOf_of_get? hphase]
      exact (like.eq_of_isResting (by rw [hrunning]; rfl)).trans hrunning
  · exact ⟨_, alike.set call (.same call.phase), rfl⟩

theorem returning_of_ends (hends : Moment.ends? ⟨s, a⟩ = some c) (mine : c ∈ frames) :
    Moment.returning frames ⟨s, a⟩ = .finish c .returned none := by
  simp only [Moment.returning, hends, if_pos mine]

theorem returning_of_not (hends : ∀ c ∈ frames, Moment.ends? ⟨s, a⟩ ≠ some c) :
    Moment.returning frames ⟨s, a⟩ = a := by
  unfold Moment.returning
  split
  next c hc => exact if_neg fun mine => hends c mine hc
  · rfl

theorem ends?_eq_some : Moment.ends? ⟨s, a⟩ = some c ↔ a.subject? = some c ∧
    (s.phaseOf c).isInside = true ∧ ((s.act a).phaseOf c).isInside = false := by
  rw [Moment.ends?, Option.filter_eq_some_iff, Bool.and_eq_true_iff, Bool.not_eq_true']
  rfl

/-- An initializer of a frame ends as one that does not return. -/
theorem of_ends (possible : s.Possible a) (leads : Leads s c a)
    (hends : Moment.ends? ⟨s, a⟩ = some c) : ∃ call ending, s.calls.get? c = some call ∧
      call.phase = .running ∧ s.act a = s.setPhase c call (.completing ending) := by
  obtain ⟨-, inside, outside⟩ := ends?_eq_some.mp hends
  cases hc : s.calls.get? c with
  | none =>
    rw [phaseOf, hc] at inside
    cases inside
  | some call =>
    rw [phaseOf_of_get? hc] at inside
    cases leads with
    | unwinds value =>
      cases hp : call.phase with
      | running => exact ⟨call, .unwound, rfl, hp, by simp only [act, finish, hc, hp]⟩
      | _ =>
        have hact : s.act (.finish c .unwound value) = s := by simp only [act, finish, hc, hp]
        rw [hact, phaseOf_of_get? hc, inside] at outside
        cases outside
    | drops =>
      obtain ⟨mine, hmine, -, resting⟩ := possible
      rw [hc] at hmine
      cases hmine
      cases hp : call.phase with
      | running => exact ⟨call, .dropped, rfl, hp, by simp only [act, abandon, finish, hc, hp]⟩
      | storing | publishing =>
        rw [hp] at resting
        cases resting
      | _ =>
        rw [hp] at inside
        cases inside
    | goesOn leaving =>
      rw [phaseOf_of_get? hc] at leaving
      cases hp : call.phase with
      | completing | marking | releasing | resuming =>
        rw [hp] at inside
        cases inside
      | _ =>
        rw [hp] at leaving
        cases leaving

/-- **Every action keeps the two states alike**, if initializers of frames return where they are
abandoned. -/
theorem Mirrors.act (mirrors : Mirrors frames s t) (possible : s.Possible a)
    (admitted : Unwinding frames s a) :
    t.Possible (Moment.returning frames ⟨s, a⟩) ∧
      Mirrors frames (s.act a) (t.act (Moment.returning frames ⟨s, a⟩)) := by
  by_cases hends : ∃ c ∈ frames, Moment.ends? ⟨s, a⟩ = some c
  · obtain ⟨c, mine, hends⟩ := hends
    obtain ⟨hsubject, -⟩ := ends?_eq_some.mp hends
    obtain ⟨call, ending, hc, running, hact⟩ :=
      of_ends possible (admitted.outward c mine hsubject) hends
    rw [returning_of_ends hends mine, hact]
    exact ⟨by simp [Possible], mirrors.finish_returned mine hc running ending⟩
  · rw [returning_of_not fun c mine hc => hends ⟨c, mine, hc⟩]
    cases a with
    | issue call => exact mirrors.issue possible
    | advance c =>
      refine ⟨(mirrors.isLockedOut c).trans possible, mirrors.advance fun mine => ?_⟩
      cases admitted.outward c mine rfl with
      | goesOn leaving => exact leaving
    | finish c ending value => exact ⟨possible, mirrors.finish ending value⟩
    | abandon c => exact mirrors.abandon possible

/-! ## Runs -/

/-- The states of the two runs agree. -/
structure Agrees (frames : List Nat) (s t : State α) : Prop where
  flags : t.flags = s.flags
  cells : t.cells = s.cells
  targets : t.targets = s.targets
  image : t.image = s.image
  violation : t.violation = s.violation
  calls : ∀ c, c ∉ frames → t.calls.get? c = s.calls.get? c

theorem Mirrors.agrees (mirrors : Mirrors frames s t) : Agrees frames s t := by
  obtain ⟨calls, alike, rfl⟩ := mirrors
  refine ⟨rfl, rfl, rfl, rfl, rfl, fun c other => ?_⟩
  cases hc : s.calls.get? c with
  | none => exact alike.of_none hc
  | some call =>
    obtain ⟨phase, hphase, like⟩ := alike.of_get? hc
    generalize hp : call.phase = now at like
    cases like with
    | completing mine | marking mine | releasing mine | resuming mine | concluding mine =>
      exact absurd mine other
    | same =>
      subst hp
      exact hphase

/-- **The run in which the initializers return** is a run too, and comes to the same state. -/
theorem Run.returning {later : List (Moment α)} (leaving : Run (Unwinding frames) s later t) :
    s.Allows (fun _ _ => True) (returning frames later) ∧
      Mirrors frames t (s.acts (returning frames later)) := by
  induction leaving with
  | start => exact ⟨trivial, Mirrors.refl frames s⟩
  | @step later t a _ alive possible admitted ih =>
    obtain ⟨allowed, mirrors⟩ := ih
    obtain ⟨possible', mirrors'⟩ := mirrors.act possible admitted
    have hsnoc : Protocol.returning frames (later ++ [⟨t, a⟩]) =
        Protocol.returning frames later ++ [Moment.returning frames ⟨t, a⟩] := by
      simp [Protocol.returning]
    rw [hsnoc, acts_append]
    exact ⟨allowed.append ⟨mirrors.violation.trans alive, possible', trivial, trivial⟩, mirrors'⟩

end

end RunOnce.Protocol
