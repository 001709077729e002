import RunOnce.Proofs.Abandon.Frames
import RunOnce.Proofs.Waiting.Guards

/-!
# Frames can be left without help

**Theorem (`Run.completes`).** Wherever an abandonment has come, steps of the frames bring it to an
end, and none of them aborts. The only others that have to act are calls that have the lock of a
slot table for which a frame waits.

A frame whose turn it is waits for nobody else: it ends its initializer, completes its operation,
which is there, and hands control to one waiter after another, whether this waiter is still there or
not (`State.AtFrame.leave`). The frames that come later rest until then, so none of them has a lock
(`Run.begun`).
-/

namespace RunOnce.Protocol

open Relation State

variable {α : Type}

/-- Only frames act, as they are abandoned, and calls that have a lock. -/
def Leaving (frames : List Nat) (s : State α) (a : Action α) : Prop :=
  Unwinding frames s a ∧ ((∃ c ∈ frames, a.subject? = some c) ∨
    ∃ k, a = .advance k ∧ (s.phaseOf k).isDropping = true)

/-- A frame can be left without help, and without an abort. -/
def State.CanEnd (s : State α) (frames : List Nat) (c : Nat) : Prop :=
  ∃ more s', Run (Leaving frames) s more s' ∧ s'.violation = none ∧ (s'.phaseOf c).isOver = true

/-- It is the turn of a frame to be left. -/
structure State.AtFrame (s : State α) (frames : List Nat) (c : Nat) : Prop where
  alive : s.violation = none
  inv : s.board.Inv
  lineage : Lineage s
  locks : Locks s
  there : ∀ k ∈ frames, ∃ call, s.calls.get? k = some call
  inTurn : ∀ k, Precedes frames k c → (s.phaseOf k).isOver = true
  /-- No other frame has a lock. -/
  others : ∀ k ∈ frames, k ≠ c → (s.phaseOf k).isDropping = false
  mine : c ∈ frames

section

variable {s s' s₀ : State α} {a : Action α} {c k : Nat} {call : Call α} {frames : List Nat}
  {past later more : List (Moment α)} {rule : State α → Action α → Prop}

theorem isOver_act (alive : s.violation = none) (possible : s.Possible a)
    (fresh : s.calls.get? s.nextKey = none) (hc : s.calls.get? c = some call)
    (isOver : (s.phaseOf c).isOver = true) : ((s.act a).phaseOf c).isOver = true := by
  rw [phaseOf_act_of_over alive possible hc (by rwa [phaseOf_of_get? hc] at isOver) fresh]
  exact isOver

/-- A call that is over stays so. -/
theorem Run.isOver (run : Run rule s past s') (inv : s.board.Inv)
    (hc : s.calls.get? c = some call) (isOver : (s.phaseOf c).isOver = true) :
    (s'.phaseOf c).isOver = true := by
  have hkept : s'.board.Inv ∧ (∃ call', s'.calls.get? c = some call') ∧
      (s'.phaseOf c).isOver = true := by
    induction run with
    | start => exact ⟨inv, ⟨call, hc⟩, isOver⟩
    | @step past s' a _ alive possible _ ih =>
      obtain ⟨inv', ⟨call', hcall'⟩, isOver'⟩ := ih
      have fresh := absent_nextKey inv'
      obtain ⟨call'', hcall'', -⟩ := call_act (a := a) fresh hcall'
      exact ⟨inv'.turn (turn_act inv' alive possible), ⟨call'', hcall''⟩,
        isOver_act alive possible fresh hcall' isOver'⟩
  exact hkept.2.2

/-- What leads out of a frame whose turn it is, is admitted. -/
theorem unwinding_of (subject : a.subject? = some c) (leads : Leads s c a)
    (inTurn : ∀ k, Precedes frames k c → (s.phaseOf k).isOver = true) : Unwinding frames s a := by
  have hsame {k : Nat} (hk : a.subject? = some k) : k = c :=
    Option.some.inj (hk.symm.trans subject)
  refine { outward := ?_, inTurn := ?_ }
  · intro k _ hk
    rw [hsame hk]
    exact leads
  · intro j k precedes hk
    rw [hsame hk] at precedes
    exact inTurn j precedes

/-- What calls do that are no frames is admitted. -/
theorem unwinding_of_other (subject : a.subject? = some k) (other : k ∉ frames) :
    Unwinding frames s a where
  outward c mine hc := by
    obtain rfl : c = k := Option.some.inj (hc.symm.trans subject)
    exact absurd mine other
  inTurn j c precedes hc := by
    obtain rfl : c = k := Option.some.inj (hc.symm.trans subject)
    exact absurd precedes.mem_right other

/-! ## The next step of a frame -/

/-- A call that completes its operation finds it, and a call that has to wait for a lock does not
come this far. -/
theorem completes_next {ending : Ending} (inv : s.board.Inv) (alive : s.violation = none)
    (possible : s.Possible (.advance c)) (phase : s.phaseOf c = .completing ending) :
    (s.act (.advance c)).violation = none ∧
      ((s.act (.advance c)).phaseOf c = .marking ending ∨
        ∃ waiters, (s.act (.advance c)).phaseOf c = .resuming waiters ending) := by
  obtain ⟨call, hc, phase⟩ := get?_of_phaseOf phase nofun
  have hact : s.act (.advance c) = (s.complete c call ending).1 := by
    simp only [act, advance, alive, hc, phase]
  rw [hact]
  cases through : s.executorOf call with
  | none =>
    have hclaim := claim?_board inv hc (by rw [holder?_stage, phase]; rfl)
    have hmem := (inv.mem_held _ _ _).mpr ⟨c, hclaim⟩
    have hheld : s.board.held call.target = [] := by
      show ((s.targets.get? call.target).map fun target => target.executor.held).getD [] = []
      rw [Option.map_eq_none_iff.mp through]
      rfl
    rw [hheld] at hmem
    cases hmem
  | some executor =>
    cases executor with
    | registry r =>
      cases taken : r.retire (s.flagOf call).id with
      | none => exact absurd taken (retire_ne_none inv hc phase through)
      | some left =>
        simp only [complete, through, retire, taken]
        exact ⟨alive, Or.inr ⟨_, phaseOf_setCall ..⟩⟩
    | table t =>
      have free := guard?_of_possible possible hc (by rw [phase]; rfl) through
        (isSome_slotSeen? inv hc (by rw [phase]; rfl) through)
      simp only [complete, through, settle, SlotTable.isLocked_eq_false.mpr free]
      exact ⟨alive, Or.inl (phaseOf_setCall ..)⟩

theorem marks_next {ending : Ending} (alive : s.violation = none)
    (phase : s.phaseOf c = .marking ending) :
    (s.act (.advance c)).phaseOf c = .releasing ending := by
  obtain ⟨call, hc, phase⟩ := get?_of_phaseOf phase nofun
  simp only [act, advance, alive, hc, phase]
  exact phaseOf_setCall ..

theorem releases_next {ending : Ending} (alive : s.violation = none)
    (phase : s.phaseOf c = .releasing ending) :
    (s.act (.advance c)).phaseOf c = .resuming [] ending := by
  obtain ⟨call, hc, phase⟩ := get?_of_phaseOf phase nofun
  simp only [act, advance, alive, hc, phase]
  exact phaseOf_setCall ..

theorem alive_resuming {waiters : List Nat} {ending : Ending} (alive : s.violation = none)
    (phase : s.phaseOf c = .resuming waiters ending) :
    (s.act (.advance c)).violation = none := by
  obtain ⟨call, hc, phase⟩ := get?_of_phaseOf phase nofun
  simp only [act, advance, alive, hc, phase]
  cases waiters with
  | nil => cases ending <;> exact alive
  | cons waiter rest => exact (violation_handOver ..).trans alive

/-- A call that did not return is over when nobody waits any more. -/
theorem leaves_next {ending : Ending} (alive : s.violation = none)
    (phase : s.phaseOf c = .resuming [] ending) (astray : ending ≠ .returned) :
    ((s.act (.advance c)).phaseOf c).isOver = true := by
  obtain ⟨call, hc, phase⟩ := get?_of_phaseOf phase nofun
  simp only [act, advance, alive, hc, phase]
  cases ending with
  | returned => exact absurd rfl astray
  | unwound | dropped =>
    simp only [resume]
    rw [phaseOf_setPhase]
    rfl

namespace State.AtFrame

/-- It goes on to be the turn of the frame, as long as no other frame acts. -/
theorem act (h : s.AtFrame frames c) (possible : s.Possible a)
    (alive : (s.act a).violation = none) (elsewhere : ∀ k ∈ frames, k ≠ c → k ≠ a.call s) :
    (s.act a).AtFrame frames c where
  alive := alive
  inv := h.inv.turn (turn_act h.inv h.alive possible)
  lineage := h.lineage.act (fun _ hk => Option.map_eq_none_iff.mp (h.inv.fresh _ hk)) possible
  locks := h.locks.act h.inv h.lineage h.alive possible
  there k hk := by
    obtain ⟨call, hcall⟩ := h.there k hk
    obtain ⟨call', hcall', -⟩ := call_act (a := a) (absent_nextKey h.inv) hcall
    exact ⟨call', hcall'⟩
  inTurn k precedes := by
    obtain ⟨call, hcall⟩ := h.there k precedes.mem_left
    exact isOver_act h.alive possible (absent_nextKey h.inv) hcall (h.inTurn k precedes)
  others k hk hne := by
    rcases phaseOf_act_of_ne h.alive possible (elsewhere k hk hne) with hsame | ⟨_, -, hraised⟩
    · rw [hsame]
      exact h.others k hk hne
    · rw [hraised]
      rfl
  mine := h.mine

/-- After a step of the frame it is still its turn. -/
theorem act_self (h : s.AtFrame frames c) (possible : s.Possible a)
    (alive : (s.act a).violation = none) (subject : a.subject? = some c) :
    (s.act a).AtFrame frames c := by
  refine h.act possible alive fun k _ hne => ?_
  rw [Action.call, subject]
  exact hne

/-- One step of the frame, and then others. -/
theorem goOn (h : s.AtFrame frames c) (subject : a.subject? = some c) (leads : Leads s c a)
    (possible : s.Possible a) (rest : (s.act a).CanEnd frames c) : s.CanEnd frames c := by
  obtain ⟨more, s', run, alive, isOver⟩ := rest
  have admitted : Leaving frames s a :=
    ⟨unwinding_of subject leads h.inTurn, Or.inl ⟨c, h.mine, subject⟩⟩
  exact ⟨_, s', (Run.start.step h.alive possible admitted).trans run, alive, isOver⟩

/-- Whoever waits is handed control, and then the frame is over. -/
theorem leave_of_resuming {waiters : List Nat} {ending : Ending} (h : s.AtFrame frames c)
    (phase : s.phaseOf c = .resuming waiters ending) (astray : ending ≠ .returned) :
    s.CanEnd frames c := by
  induction waiters generalizing s with
  | nil =>
    have leads : Leads s c (.advance c) := .goesOn (by rw [phase]; rfl)
    have possible := possible_of_phaseOf phase rfl
    exact h.goOn rfl leads possible
      ⟨[], _, .start, alive_resuming h.alive phase, leaves_next h.alive phase astray⟩
  | cons waiter rest ih =>
    have leads : Leads s c (.advance c) := .goesOn (by rw [phase]; rfl)
    have possible := possible_of_phaseOf phase rfl
    have alive := alive_resuming h.alive phase
    exact h.goOn rfl leads possible
      (ih (h.act_self possible alive rfl) (hands_next h.alive phase).1)

/-- The guard is dropped: the flag is set, and the claim goes. -/
theorem leave_of_dropping {ending : Ending} (h : s.AtFrame frames c)
    (phase : s.phaseOf c = .marking ending ∨ s.phaseOf c = .releasing ending)
    (astray : ending ≠ .returned) : s.CanEnd frames c := by
  have release {s : State α} (h : s.AtFrame frames c) (phase : s.phaseOf c = .releasing ending) :
      s.CanEnd frames c := by
    have possible := possible_of_phaseOf phase rfl
    have alive := alive_of_dropping h.alive (by rw [phase]; rfl)
    exact h.goOn rfl (.goesOn (by rw [phase]; rfl)) possible
      ((h.act_self possible alive rfl).leave_of_resuming
        (releases_next h.alive phase) astray)
  rcases phase with marking | releasing
  · have possible := possible_of_phaseOf marking rfl
    have alive := alive_of_dropping h.alive (by rw [marking]; rfl)
    exact h.goOn rfl (.goesOn (by rw [marking]; rfl)) possible
      (release (h.act_self possible alive rfl) (marks_next h.alive marking))
  · exact release h releasing

/-- A frame that waits for a lock gets it. Whoever has the lock is no frame. -/
theorem unlocked {ending : Ending} (h : s.AtFrame frames c)
    (phase : s.phaseOf c = .completing ending) : ∃ more s', Run (Leaving frames) s more s' ∧
      s'.AtFrame frames c ∧ s'.phaseOf c = .completing ending ∧ s'.Possible (.advance c) := by
  cases locked : s.isLockedOut c with
  | false => exact ⟨[], s, .start, h, phase, locked⟩
  | true =>
    obtain ⟨k, n, -, allowed, free⟩ := h.locks.freed_by h.alive locked
    have hkept : ∀ {past s'}, Run (Dropping k) s past s' → Run (Leaving frames) s past s' ∧
        s'.AtFrame frames c ∧ s'.phaseOf c = .completing ending := by
      intro past s' run
      induction run with
      | start => exact ⟨.start, h, phase⟩
      | @step past s' a _ alive possible admitted ih =>
        obtain ⟨run', h', phase'⟩ := ih
        obtain ⟨rfl, dropping⟩ := admitted
        have hne : c ≠ k := by
          rintro rfl
          rw [phase'] at dropping
          cases dropping
        have other : k ∉ frames := by
          intro mine
          rw [h'.others k mine hne.symm] at dropping
          cases dropping
        refine ⟨run'.step alive possible ⟨unwinding_of_other rfl other, Or.inr ⟨k, rfl, dropping⟩⟩,
          h'.act possible (alive_of_dropping alive dropping) ?_, ?_⟩
        · rintro j hj - rfl
          exact other hj
        · rcases phaseOf_act_of_ne (a := .advance k) alive possible hne with hsame | ⟨_, hqueued, -⟩
          · rw [hsame, phase']
          · rw [phase'] at hqueued
            cases hqueued
    obtain ⟨run, h', phase'⟩ := hkept (Run.of_allows allowed)
    exact ⟨_, _, run, h', phase', free⟩

theorem leave_of_completing {ending : Ending} (h : s.AtFrame frames c)
    (phase : s.phaseOf c = .completing ending) (astray : ending ≠ .returned) :
    s.CanEnd frames c := by
  obtain ⟨more, s', run, h', phase', possible⟩ := h.unlocked phase
  have leads : Leads s' c (.advance c) := .goesOn (by rw [phase']; rfl)
  obtain ⟨alive, hnext⟩ := completes_next h'.inv h'.alive possible phase'
  have next := h'.act_self possible alive rfl
  have ends : (s'.act (.advance c)).CanEnd frames c := by
    rcases hnext with marking | ⟨waiters, resuming⟩
    · exact next.leave_of_dropping (Or.inl marking) astray
    · exact next.leave_of_resuming resuming astray
  obtain ⟨later, s'', run', done⟩ := h'.goOn rfl leads possible ends
  exact ⟨_, s'', run.trans run', done⟩

/-- A panic unwinds out of the initializer. -/
theorem leave_of_running (h : s.AtFrame frames c) (phase : s.phaseOf c = .running) :
    s.CanEnd frames c := by
  obtain ⟨call, hc, running⟩ := get?_of_phaseOf phase nofun
  have possible : s.Possible (.finish c .unwound none) := by simp [Possible]
  have hact : s.act (.finish c .unwound none) = s.setPhase c call (.completing .unwound) := by
    simp only [State.act, finish, hc, running]
  have alive : (s.act (.finish c .unwound none)).violation = none := by
    rw [hact]
    exact h.alive
  have hnow : (s.act (.finish c .unwound none)).phaseOf c = .completing .unwound := by
    rw [hact]
    exact phaseOf_setCall ..
  exact h.goOn rfl (.unwinds none) possible
    ((h.act_self possible alive rfl).leave_of_completing hnow (by simp))

/-- The future is dropped where it waits. -/
theorem leave_of_waiting (h : s.AtFrame frames c) (hc : s.calls.get? c = some call)
    (async : call.flavour = .async) (resting : call.phase.isResting = true)
    (waits : call.phase ≠ .running) : s.CanEnd frames c := by
  have possible : s.Possible (.abandon c) := ⟨call, hc, async, resting⟩
  have hact : s.act (.abandon c) = s.setPhase c call (.ended .dropped) := by
    simp only [State.act, abandon, hc]
    cases hp : call.phase with
    | running => exact absurd hp waits
    | completing | marking | releasing | resuming | ended =>
      rw [hp] at resting
      cases resting
    | _ => rfl
  refine h.goOn rfl .drops possible ⟨[], _, .start, ?_, ?_⟩
  · rw [hact]
    exact h.alive
  · rw [hact, phaseOf_setPhase]
    rfl

/-- **A frame can be left** wherever it has come. -/
theorem leave {start : Phase α} (h : s.AtFrame frames c) (hc : s.calls.get? c = some call)
    (resting : start.isResting = true) (blocking : call.flavour = .blocking → start = .running)
    (outward : Outward start call.phase) : s.CanEnd frames c := by
  have hasync (waits : start ≠ .running) : call.flavour = .async := by
    cases hflavour : call.flavour with
    | blocking => exact absurd (blocking hflavour) waits
    | async => rfl
  have hphase := phaseOf_of_get? hc
  generalize hp : call.phase = phase at outward hphase
  cases outward with
  | rests =>
    by_cases running : start = .running
    · exact h.leave_of_running (hphase.trans running)
    · exact h.leave_of_waiting hc (hasync running) (by rw [hp]; exact resting)
        (by rw [hp]; exact running)
  | signalled =>
    exact h.leave_of_waiting hc (hasync (by simp)) (by rw [hp]; rfl) (by rw [hp]; simp)
  | completing astray => exact h.leave_of_completing hphase astray
  | marking astray => exact h.leave_of_dropping (Or.inl hphase) astray
  | releasing astray => exact h.leave_of_dropping (Or.inr hphase) astray
  | resuming waiters astray => exact h.leave_of_resuming hphase astray
  | ended =>
    refine ⟨[], s, .start, h.alive, ?_⟩
    rw [hphase]
    rfl

end State.AtFrame

/-! ## All frames -/

section

variable (run : Run (fun _ _ => True) s₀ past s) (fresh : s₀.IsFresh)
  (abandoned : ∀ c ∈ frames, s.CanLeave c)

include run fresh abandoned

/-- **A frame begins to leave** when all frames in front of it are over. -/
theorem Run.begun (leaving : Run (Unwinding frames) s later s') (precedes : Precedes frames k c)
    (begun : (s'.phaseOf c).isResting = false) : (s'.phaseOf k).isOver = true := by
  have mine := precedes.mem_right
  induction leaving with
  | start =>
    obtain ⟨call, hc, resting, -⟩ := abandoned c mine
    rw [phaseOf_of_get? hc, resting] at begun
    cases begun
  | @step later s' a leaving alive possible admitted ih =>
    have hfresh := absent_nextKey ((run.onward leaving).board_inv fresh)
    obtain ⟨call, hc, resting, -⟩ := abandoned c mine
    obtain ⟨now, hnow, -⟩ := run.frame fresh leaving mine hc resting
    obtain ⟨other, hother, rests, -⟩ := abandoned k precedes.mem_left
    obtain ⟨there, hthere, -⟩ := run.frame fresh leaving precedes.mem_left hother rests
    refine isOver_act alive possible hfresh hthere ?_
    by_cases still : (s'.phaseOf c).isResting = true
    · -- The call is moved by nobody else, so it is the one to act.
      have hact : c = a.call s' := by
        by_contra other
        rcases phaseOf_act_of_ne alive possible other with hsame | ⟨signal, -, hraised⟩
        · rw [hsame, still] at begun
          cases begun
        · rw [hraised] at begun
          cases begun
      exact admitted.inTurn k c precedes (subject_of_call hfresh hnow hact)
    · exact ih (Bool.eq_false_iff.mpr still)

/-- It is the turn of a frame when those in front of it are over and it is not. -/
theorem Run.atFrame {done rest : List Nat} (once : frames.Nodup)
    (leaving : Run (Unwinding frames) s later s') (alive : s'.violation = none)
    (split : frames = done ++ c :: rest) (isOver : ∀ k ∈ done, (s'.phaseOf k).isOver = true)
    (still : (s'.phaseOf c).isOver = false) : s'.AtFrame frames c where
  alive := alive
  inv := (run.onward leaving).board_inv fresh
  lineage := (run.onward leaving).lineage fresh
  locks := (run.onward leaving).locks fresh
  there k hk := by
    obtain ⟨call, hcall, resting, -⟩ := abandoned k hk
    obtain ⟨call', hcall', -⟩ := run.frame fresh leaving hk hcall resting
    exact ⟨call', hcall'⟩
  inTurn k precedes := by
    subst split
    exact isOver k (precedes.mem_done once)
  others k hk hne := by
    have rests {phase : Phase α} (h : phase.isOver = true ∨ phase.isResting = true) :
        phase.isDropping = false := by
      cases phase <;> simp [Phase.isOver, Phase.isResting, Phase.isDropping] at h ⊢
    refine rests ?_
    subst split
    rcases List.mem_append.mp hk with hdone | hk
    · exact Or.inl (isOver k hdone)
    · right
      rcases List.mem_cons.mp hk with heq | hrest
      · exact absurd heq hne
      · by_contra begun
        have precedes : Precedes (done ++ c :: rest) c k :=
          (Precedes.cons_iff.mpr (.inr ⟨rfl, hrest⟩)).append_left done
        have isOver := run.begun fresh abandoned leaving precedes (Bool.eq_false_iff.mpr begun)
        rw [still] at isOver
        cases isOver
  mine := by
    rw [split]
    exact List.mem_append_right _ (List.mem_cons_self ..)

/-- The frames are left one after the other, behind those that are over already. -/
theorem Run.completes_behind (once : frames.Nodup) (done rest : List Nat)
    (split : frames = done ++ rest) (leaving : Run (Unwinding frames) s later s')
    (alive : s'.violation = none) (isOver : ∀ k ∈ done, (s'.phaseOf k).isOver = true) :
    ∃ more s'', Run (Leaving frames) s' more s'' ∧ s''.violation = none ∧
      ∀ k ∈ frames, (s''.phaseOf k).isOver = true := by
  induction rest generalizing done later s' with
  | nil =>
    rw [List.append_nil] at split
    subst split
    exact ⟨[], s', .start, alive, isOver⟩
  | cons c rest ih =>
    have hsplit : frames = (done ++ [c]) ++ rest := by rw [split, List.append_assoc]; rfl
    cases still : (s'.phaseOf c).isOver with
    | true =>
      refine ih (done ++ [c]) hsplit leaving alive fun k hk => ?_
      rcases List.mem_append.mp hk with hk | hk
      · exact isOver k hk
      · rw [List.mem_singleton.mp hk]
        exact still
    | false =>
      have turn := run.atFrame fresh abandoned once leaving alive split isOver still
      obtain ⟨call, hcall, resting, blocking⟩ := abandoned c turn.mine
      obtain ⟨now, hnow, hflavour, outward⟩ := run.frame fresh leaving turn.mine hcall resting
      rw [← hflavour] at blocking
      obtain ⟨more, next, left, alive', gone⟩ := turn.leave hnow resting blocking outward
      have leaving' := leaving.trans (left.weaken fun _ _ _ _ admitted => admitted.1)
      have isOver' : ∀ k ∈ done ++ [c], (next.phaseOf k).isOver = true := by
        intro k hk
        rcases List.mem_append.mp hk with hk | hk
        · obtain ⟨call, hcall⟩ := turn.there k (by rw [split]; exact List.mem_append_left _ hk)
          exact left.isOver turn.inv hcall (isOver k hk)
        · rw [List.mem_singleton.mp hk]
          exact gone
      obtain ⟨rest, s'', run', done⟩ := ih (done ++ [c]) hsplit leaving' alive' isOver'
      exact ⟨more ++ rest, s'', left.trans run', done⟩

/-- **What was begun can be finished**: the frames are left, and no step aborts. -/
theorem Run.completes (once : frames.Nodup) (leaving : Run (Unwinding frames) s later s')
    (alive : s'.violation = none) :
    ∃ more s'', Run (Leaving frames) s' more s'' ∧ s''.violation = none ∧
      ∀ k ∈ frames, (s''.phaseOf k).isOver = true :=
  run.completes_behind fresh abandoned once [] frames rfl leaving alive nofun

end

end

end RunOnce.Protocol
