import RunOnce.Proofs.Abandon.Progress
import RunOnce.Proofs.Abandon.Return
import RunOnce.Proofs.Exclusion.Shared

/-!
# Abandoned initializers are completed, and no others

**Theorem (`unwinding_exact`).** Let a nest of calls be abandoned, on whichever executors, so that
what an initializer holds is dropped before the guard of its call, while all other calls do what
they like. Then

* each frame that had an operation in flight retires it once, and no other frame retires anything.
  In a call tree the inner ones come before the outer ones;
* through a registry the flag is set and the entry removed at one moment, and only then the waiters
  are handed control, in their order;
* through a slot table the slot is done first, and nobody who polls it goes on before. Then the flag
  is set, then the claim goes, and no other call gets into a locked section of the table meanwhile;
* nothing else that a frame does touches flags, executors or slots, and whatever other calls have in
  flight stays as it is, also where the frame waited for it. Only a flag that both calls want is set;
* flags, globals, executors and slots are what they would be if each initializer had returned where
  it was abandoned;
* wherever this has come, the frames can be left without help.

**Pollers take no lock** (`unwinding_in_parts`). A call that polls can be over while the flag of the
abandoned call is still clear and its claim still there. A flag that is used through two executors
is set for both, whichever of its operations is completed. And a future that is polled inside of an
initializer and held outside of it is dropped after the outer call.
-/

namespace RunOnce.Protocol

open Relation State

variable {α : Type}

/-- What a step of `c` leaves to another call: all that it has in flight. -/
structure Moment.Keeps (m : Moment α) (c w : Nat) : Prop where
  /-- The other call stays where it is, unless it is the next waiter. -/
  phase : m.next.phaseOf w = m.state.phaseOf w ∨ m.hands? c = some w
  /-- It has the same in flight, under the same identity, and this is listed. -/
  claim : m.next.board.claim? w = m.state.board.claim? w
  entry : ∀ t id who, m.state.board.claim? w = some (t, id, who) → (id, who) ∈ m.next.listed t
  queue : ∀ t id who, m.state.board.claim? w = some (t, id, who) →
    m.next.waitersFor (t, id) = m.state.waitersFor (t, id)
  slot : ∀ t id who o n, m.state.board.claim? w = some (t, id, who) →
    m.state.board.table? t = some (o, n) → m.next.board.slot? o id = m.state.board.slot? o id
  /-- Its flag stays as it is, unless both calls want one flag. -/
  flag : ∀ mine other, m.state.calls.get? c = some mine → m.state.calls.get? w = some other →
    other.flag ≠ mine.flag → (m.next.isSet other.flag = true ↔ m.state.isSet other.flag = true)

/-- A call polls the slot that another one goes for. -/
def State.Polls (s : State α) (w c : Nat) : Prop :=
  ∃ other mine table table', s.calls.get? w = some other ∧ s.calls.get? c = some mine ∧
    s.executorOf other = some (.table table) ∧ s.executorOf mine = some (.table table') ∧
    table.mapping.object = table'.mapping.object ∧ (s.flagOf other).id = (s.flagOf mine).id ∧
    other.phase = .polling

/-- A call has come to a locked section of the executor that another one goes through. -/
def State.Competes (s : State α) (w c : Nat) : Prop :=
  ∃ other mine, s.calls.get? w = some other ∧ s.calls.get? c = some mine ∧
    other.target = mine.target ∧ other.phase.needsLock = true ∧ (s.slotSeen? other).isSome = true

/-- The slot of a call is done, if it has one, and its flag is set or comes next. -/
def State.IsSettled (s : State α) (c : Nat) : Prop :=
  ∀ call, s.calls.get? c = some call →
    (∀ o n, s.board.table? call.target = some (o, n) →
      s.board.slot? o (s.flagOf call).id = some slotDone) ∧
    ((∃ ending, call.phase = .marking ending) ∨ s.isSet call.flag = true)

/-- What it means that a nest of calls is abandoned from one state to another. -/
structure Unwound (nest : Nest) (s : State α) (later : List (Moment α)) (s' : State α) :
    Prop where
  /-- A frame retires its operation once, if it has one in flight, and until then it has it. -/
  exact : ∀ c ∈ nest.guards, (retired later).count c =
    if (s.phaseOf c).isInFlight && !(s'.phaseOf c).isInFlight then 1 else 0
  /-- Where calls are held by those that have made them, the innermost frames come first. -/
  inward : s.CallTree nest → (retired later).Pairwise fun c k =>
    c ∈ nest.guards → k ∈ nest.guards → ¬Encloses s c k
  /-- What a frame completes in a step is up to its phase, and all else stays as it is. -/
  steps : ∀ m ∈ later, ∀ c ∈ nest.guards, m.action.subject? = some c → ∃ call parts,
    m.state.calls.get? c = some call ∧ Completion m.state call parts (m.next.phaseOf c) ∧
      Retirement m.state call parts m.next ∧ (parts = [] → m.Spares)
  settled : ∀ c ∈ nest.guards, c ∈ retired later → s'.IsSettled c
  /-- No waiter is handed control before. -/
  resumes : ∀ before m after, later = before ++ m :: after → ∀ c ∈ nest.guards, ∀ w,
    m.hands? c = some w → c ∈ retired before
  /-- Nobody goes on before who polls its slot. -/
  polls : ∀ c ∈ nest.guards, (s.phaseOf c).isInFlight = true → c ∉ retired later → ∀ w,
    s'.Polls w c → s'.act (.advance w) = s'
  /-- Nobody gets the lock while its flag is not set yet, or its claim still there. -/
  locked : ∀ c ∈ nest.guards, (s'.phaseOf c).isDropping = true → ∀ w, s'.Competes w c →
    ¬s'.Possible (.advance w)
  /-- What others have in flight stays theirs. -/
  keeps : ∀ m ∈ later, ∀ c ∈ nest.guards, m.action.subject? = some c → ∀ w, w ≠ c → m.Keeps c w
  /-- It is a run too that each initializer returns where it was abandoned. -/
  returned : s.Allows (fun _ _ => True) (returning nest.guards later) ∧
    Agrees nest.guards s' (s.acts (returning nest.guards later))
  /-- The frames can be left without help, and then all operations are retired. -/
  completes : s'.violation = none → ∃ more s'', Run (Leaving nest.guards) s' more s'' ∧
    s''.violation = none ∧ ∀ c ∈ nest.guards, (s''.phaseOf c).isOver = true ∧
      (retired (later ++ more)).count c = if (s.phaseOf c).isInFlight then 1 else 0

section

variable {s s' s₀ : State α} {a : Action α} {c k w : Nat} {call : Call α} {frames : List Nat}
  {m : Moment α} {past later : List (Moment α)} {rule : State α → Action α → Prop}

/-! ## What others have in flight -/

/-- An entry that goes is not that of another call. -/
theorem Completion.entry_ne {parts : List Part} {phase : Phase α} {t : Nat} {id : FlagId}
    {who : Initiator} (completion : Completion s call parts phase) (inv : s.board.Inv)
    (locks : Locks s) (hc : s.calls.get? c = some call) (hw : w ≠ c)
    (claim : s.board.claim? w = some (t, id, who)) (goes : .entry ∈ parts) :
    (t, id) ≠ (call.target, (s.flagOf call).id) := by
  intro same
  obtain ⟨rfl, rfl⟩ := Prod.mk.inj same
  cases completion with
  | rests | moves => cases goes
  | settles | marks => simp at goes
  | retires phase =>
    have hclaim := claim?_board inv hc (by rw [holder?_stage, phase]; rfl)
    exact hw (inv.unique w c _ _ _ _ _ claim hclaim rfl)
  | releases phase =>
    -- The slot is done, but that of a call that has it in flight is running.
    obtain ⟨claims, taken⟩ := locks.taken c call.target (s.flagOf call).id
      ⟨by rw [phaseOf_of_get? hc, phase]; rfl, place?_of_get? hc⟩
    obtain ⟨o, n, table⟩ := table?_of_lock? taken
    have done := locks.done _ _ _ o n taken table
    rw [(inv.running w _ _ _ o n claim table).2] at done
    cases done

/-- A slot that is settled is not that of another call. -/
theorem Completion.slot_ne {parts : List Part} {phase : Phase α} {t o : Nat} {n : UInt32}
    {id : FlagId} {who : Initiator} (completion : Completion s call parts phase)
    (inv : s.board.Inv) (hc : s.calls.get? c = some call) (hw : w ≠ c)
    (claim : s.board.claim? w = some (t, id, who)) (table : s.board.table? t = some (o, n))
    (settles : .slot ∈ parts) :
    ¬((s.board.table? call.target).map Prod.fst = some o ∧ id = (s.flagOf call).id) := by
  rintro ⟨hobject, rfl⟩
  obtain ⟨⟨o', n'⟩, table', rfl⟩ := Option.map_eq_some_iff.mp hobject
  cases completion with
  | rests | moves => cases settles
  | retires | marks | releases => simp at settles
  | settles phase =>
    have hclaim := claim?_board inv hc (by rw [holder?_stage, phase]; rfl)
    refine hw (inv.unique w c _ _ _ _ _ claim hclaim ?_)
    rw [Board.site, Board.site, table, table']

section

variable (inv : s.board.Inv) (locks : Locks s) (alive : s.violation = none)
  (possible : s.Possible a) (subject : a.subject? = some c) (hc : s.calls.get? c = some call)
  (leads : Leads s c a)

include inv alive possible hc leads

/-- A step of a frame moves another call only by handing control to it. -/
theorem phase_of_leads (hw : w ≠ c) :
    (s.act a).phaseOf w = s.phaseOf w ∨ Moment.hands? ⟨s, a⟩ c = some w := by
  have departure := departure_act inv alive possible hc leads
  rcases departure.phaseOf_of_ne hw with hsame | ⟨rest, ending, before, after⟩
  · exact Or.inl hsame
  · right
    have hleft : (s.phaseOf c).left = w :: rest := by
      rw [phaseOf_of_get? hc, before]
      rfl
    have hnow : ((s.act a).phaseOf c).left = rest := by
      rw [after]
      rfl
    simp only [Moment.hands?, hleft, Moment.next, hnow, if_true]

include locks

/-- **A step of a frame** completes what its phase says, and nothing else. -/
theorem completion_act : ∃ parts, Completion s call parts ((s.act a).phaseOf c) ∧
    Retirement s call parts (s.act a) ∧ (parts = [] → (Moment.mk s a).Spares) := by
  have departure := departure_act inv alive possible hc leads
  obtain ⟨parts, completion, retirement, spares⟩ := departure.completion inv locks hc
  refine ⟨parts, completion, retirement, fun nothing => ?_⟩
  obtain ⟨flags, targets, image⟩ := spares nothing
  exact ⟨flags, targets, image⟩

include subject

/-- **A step of a frame leaves to others what they have in flight.** -/
theorem keeps_act (hw : w ≠ c) : Moment.Keeps ⟨s, a⟩ c w := by
  have turn : Turn s.board c (s.act a).board := by
    have hturn := turn_act inv alive possible
    rw [Action.call, subject] at hturn
    exact hturn
  have hclaim := turn.claim?_of_ne hw
  obtain ⟨parts, completion, retirement, -⟩ := completion_act inv locks alive possible hc leads
  refine { phase := phase_of_leads inv alive possible hc leads hw, claim := hclaim
           entry := ?_, queue := ?_, slot := ?_, flag := ?_ }
  · intro t id who claim
    exact mem_listed (((inv.turn turn).mem_held t id who).mpr ⟨w, hclaim.trans claim⟩)
  · intro t id who claim
    refine (retirement.queue (t, id)).trans (if_neg fun h => ?_)
    exact completion.entry_ne inv locks hc hw claim h.1 h.2
  · intro t id who o n claim table
    refine (retirement.slot o id).trans (if_neg fun h => ?_)
    exact completion.slot_ne inv hc hw claim table h.1 h.2
  · intro mine other hmine _ hne
    obtain rfl : call = mine := Option.some.inj (hc.symm.trans hmine)
    exact (retirement.flag other.flag).trans (or_iff_left fun h => hne h.2)

end

/-! ## What is settled -/

/-- What a call goes for stays the same. -/
theorem wants_act {call' : Call α} (inv : s.board.Inv) (alive : s.violation = none)
    (possible : s.Possible a) (hc : s.calls.get? c = some call)
    (hc' : (s.act a).calls.get? c = some call') : call'.target = call.target ∧
      call'.flag = call.flag ∧ ((s.act a).flagOf call').id = (s.flagOf call).id := by
  obtain ⟨mine, hmine, becomes⟩ := call_act (a := a) (absent_nextKey inv) hc
  obtain rfl : call' = mine := Option.some.inj (hc'.symm.trans hmine)
  have hplace : (s.act a).place? c = some (call.target, (s.flagOf call).id) :=
    (shift_act inv alive possible).place?_eq (place?_of_get? hc)
  rw [place?_of_get? hc', Option.some.injEq, Prod.mk.injEq] at hplace
  exact ⟨hplace.1, becomes.alike.flag, hplace.2⟩

theorem Completion.parts_of_retires {parts : List Part} {phase : Phase α}
    (completion : Completion s call parts phase) (before : call.phase.isInFlight = true)
    (after : phase.isInFlight = false) :
    (.flag ∈ parts ∧ ∃ r, s.executorOf call = some (.registry r)) ∨
      (.slot ∈ parts ∧ ∃ ending, phase = .marking ending) := by
  cases completion with
  | rests =>
    rw [before] at after
    cases after
  | moves _ _ same =>
    rw [same, before] at after
    cases after
  | retires _ through => exact Or.inl ⟨by simp, _, through⟩
  | settles => exact Or.inr ⟨by simp, _, rfl⟩
  | marks phase | releases phase =>
    rw [phase] at before
    cases before

section

variable (inv : s.board.Inv) (locks : Locks s) (alive : s.violation = none)
  (possible : s.Possible a) (hc : s.calls.get? c = some call)
  (leads : a.subject? = some c → Leads s c a)

include inv locks alive possible hc leads

/-- A frame that retires its operation has settled it. -/
theorem isSettled_of_retires (retires : Moment.retires? ⟨s, a⟩ = some c) :
    (s.act a).IsSettled c := by
  obtain ⟨subject, before, after⟩ := retires?_eq_some.mp retires
  have before : (s.phaseOf c).isInFlight = true := before
  rw [phaseOf_of_get? hc] at before
  obtain ⟨parts, completion, retirement, -⟩ :=
    completion_act inv locks alive possible hc (leads subject)
  have turn := turn_act inv alive possible
  intro call' hc'
  obtain ⟨target, flag, id⟩ := wants_act inv alive possible hc hc'
  rw [turn.table?_eq, target, id, flag]
  rcases completion.parts_of_retires before after with ⟨sets, r, through⟩ | ⟨slot, ending, phase⟩
  · refine ⟨fun o n table => ?_, Or.inr ((retirement.flag _).mpr (Or.inr ⟨sets, rfl⟩))⟩
    rw [table?_board through] at table
    cases table
  · refine ⟨fun o n table => ?_, Or.inl ⟨ending, (phaseOf_of_get? hc').symm.trans phase⟩⟩
    rw [retirement.slot, if_pos ⟨slot, by rw [table]; rfl, rfl⟩]

/-- What a frame has settled stays so. -/
theorem State.IsSettled.act (settled : s.IsSettled c) : (s.act a).IsSettled c := by
  obtain ⟨done, set⟩ := settled call hc
  have turn := turn_act inv alive possible
  have shift := shift_act inv alive possible
  intro call' hc'
  obtain ⟨target, flag, id⟩ := wants_act inv alive possible hc hc'
  rw [turn.table?_eq, target, id, flag]
  refine ⟨fun o n table => turn.slot?_done (done o n table), ?_⟩
  rcases set with ⟨ending, phase⟩ | set
  · have hphase := phaseOf_of_get? hc
    rw [phase] at hphase
    rw [← phaseOf_of_get? hc']
    by_cases hact : c = a.call s
    · have subject := subject_of_call (absent_nextKey inv) hc hact
      obtain ⟨parts, completion, retirement, -⟩ :=
        completion_act inv locks alive possible hc (leads subject)
      generalize (s.act a).phaseOf c = now at completion
      cases completion with
      | rests => exact Or.inl ⟨ending, phase⟩
      | marks => exact Or.inr ((retirement.flag _).mpr (Or.inr ⟨by simp, rfl⟩))
      | moves before =>
        rw [phase] at before
        cases before
      | retires other | settles other | releases other =>
        rw [phase] at other
        cases other
    · rcases phaseOf_act_of_ne alive possible hact with hsame | ⟨_, hqueued, -⟩
      · exact Or.inl ⟨ending, hsame.trans hphase⟩
      · rw [hphase] at hqueued
        cases hqueued
  · exact Or.inr (shift.isSet_mono set)

end

/-! ## Who waits meanwhile -/

/-- A slot that a call has in flight makes others wait. -/
theorem act_of_polls (inv : s.board.Inv) (polls : s.Polls w c)
    (inFlight : (s.phaseOf c).isInFlight = true) : s.act (.advance w) = s := by
  obtain ⟨other, mine, table, table', hw, hc, through, through', hobject, hid, phase⟩ := polls
  rw [phaseOf_of_get? hc] at inFlight
  have hclaim := claim?_board inv hc (by rw [holder?_stage, inFlight]; rfl)
  obtain ⟨-, hslot⟩ := inv.running c _ _ _ _ _ hclaim (table?_board through')
  have hobserve : (s.observe w other).1 = s := by
    unfold observe
    split
    · rfl
    next state seen =>
      rw [slotSeen?, through] at seen
      obtain ⟨-, hseen⟩ := slot?_board inv through seen
      rw [hobject, hid, hslot] at hseen
      cases hseen
      rw [if_pos rfl]
  cases alive : s.violation with
  | some violation => simp only [act, advance, alive]
  | none => simpa only [act, advance, alive, hw, phase] using hobserve

/-- As long as a call drops its guard, nobody gets its lock. -/
theorem Locks.not_possible (locks : Locks s) (competes : s.Competes w c)
    (dropping : (s.phaseOf c).isDropping = true) : ¬s.Possible (.advance w) := by
  obtain ⟨other, mine, hw, hc, same, needs, seen⟩ := competes
  obtain ⟨claims, taken⟩ := locks.taken c mine.target (s.flagOf mine).id
    ⟨dropping, place?_of_get? hc⟩
  obtain ⟨v, hv⟩ := Option.isSome_iff_exists.mp seen
  obtain ⟨table, through⟩ := table_of_slotSeen? hv
  have locked : (Executor.table table).isLocked = true := by
    rw [Executor.isLocked_eq, ← lock?_of_executorOf through, same, taken]
    rfl
  simp only [Possible, isLockedOut, hw, needs, seen, through, Option.any_some, locked]
  simp

/-! ## The innermost frames come first -/

theorem Phase.isInFlight_of_isOver {phase : Phase α} (isOver : phase.isOver = true) :
    phase.isInFlight = false := by
  cases phase with
  | ended => rfl
  | _ => cases isOver

/-- A frame that has retired its operation is not where it was abandoned. -/
theorem Outward.isResting_eq_false {start now : Phase α} (outward : Outward start now)
    (before : start.isInFlight = true) (after : now.isInFlight = false) :
    now.isResting = false := by
  cases outward with
  | rests =>
    rw [before] at after
    cases after
  | signalled => cases before
  | completing | marking | releasing | resuming | ended => rfl

section

variable (run : Run (fun _ _ => True) s₀ past s) (fresh : s₀.IsFresh)
  (leaving : Run (Unwinding frames) s later s')

include run fresh leaving

/-- When the operation of a frame is retired, all frames in front of it are over. -/
theorem Run.isOver_of_retired (abandoned : ∀ c ∈ frames, s.CanLeave c)
    (precedes : Precedes frames k c) (gone : c ∈ retired later) :
    (s'.phaseOf k).isOver = true := by
  have mine := precedes.mem_right
  obtain ⟨call, hc, resting, -⟩ := abandoned c mine
  obtain ⟨before, after⟩ := (run.mem_retired fresh leaving mine hc resting).mp gone
  obtain ⟨now, hnow, -, outward⟩ := run.frame fresh leaving mine hc resting
  rw [phaseOf_of_get? hc] at before
  rw [phaseOf_of_get? hnow] at after
  refine run.begun fresh abandoned leaving precedes ?_
  rw [phaseOf_of_get? hnow]
  exact outward.isResting_eq_false before after

/-- **From the inside out.** -/
theorem Run.inward {nest : Nest} (nests : s.Nests nest) (drops : frames = nest.guards)
    (tree : s.CallTree nest) :
    (retired later).Pairwise fun c k => c ∈ frames → k ∈ frames → ¬Encloses s c k := by
  subst drops
  induction leaving with
  | start => exact .nil
  | @step later s' a leaving alive possible admitted ih =>
    rw [retired_concat, List.pairwise_append]
    refine ⟨ih, ?_, ?_⟩
    · cases Moment.retires? ⟨s', a⟩ with
      | none => exact .nil
      | some k => exact List.pairwise_singleton ..
    · intro c gone k now mine inner encloses
      have isOver := run.isOver_of_retired fresh leaving nests.canLeave
        (tree.precedes nests.once mine inner encloses) gone
      obtain ⟨-, inFlight, -⟩ := retires?_eq_some.mp (Option.mem_toList.mp now)
      have inFlight : (s'.phaseOf k).isInFlight = true := inFlight
      rw [Phase.isInFlight_of_isOver isOver] at inFlight
      cases inFlight

/-! ## Moments of frames -/

/-- When it is a frame that acts, it is there, and the action leads out of it. -/
theorem Run.at_frame (hm : m ∈ later) (mine : c ∈ frames) (canLeave : s.CanLeave c)
    (subject : m.action.subject? = some c) : m.state.board.Inv ∧ Locks m.state ∧
      m.state.violation = none ∧ m.state.Possible m.action ∧ Leads m.state c m.action ∧
      ∃ now, m.state.calls.get? c = some now := by
  obtain ⟨call, hc, resting, -⟩ := canLeave
  obtain ⟨before, leaving, alive, possible, admitted⟩ := leaving.before_moment hm
  obtain ⟨now, hnow, -⟩ := run.frame fresh leaving mine hc resting
  exact ⟨(run.onward leaving).board_inv fresh, (run.onward leaving).locks fresh, alive, possible,
    admitted.outward c mine subject, now, hnow⟩

/-- What a frame has retired is settled. -/
theorem Run.isSettled (mine : c ∈ frames) (canLeave : s.CanLeave c) (gone : c ∈ retired later) :
    s'.IsSettled c := by
  obtain ⟨call, hc, resting, -⟩ := canLeave
  induction leaving with
  | start => cases gone
  | @step later s' a leaving alive possible admitted ih =>
    have inv := (run.onward leaving).board_inv fresh
    have locks := (run.onward leaving).locks fresh
    obtain ⟨now, hnow, -⟩ := run.frame fresh leaving mine hc resting
    rw [retired_concat, List.mem_append, Option.mem_toList] at gone
    rcases gone with gone | retires
    · exact (ih gone).act inv locks alive possible hnow (admitted.outward c mine)
    · exact isSettled_of_retires inv locks alive possible hnow (admitted.outward c mine) retires

/-- A frame that hands control has retired its operation before. -/
theorem Run.retired_of_hands (mine : c ∈ frames) (hc : s.calls.get? c = some call)
    (resting : call.phase.isResting = true) (hands : Moment.hands? ⟨s', a⟩ c = some w) :
    c ∈ retired later := by
  obtain ⟨now, hnow, -, outward⟩ := run.frame fresh leaving mine hc resting
  rw [run.mem_retired fresh leaving mine hc resting, phaseOf_of_get? hc, phaseOf_of_get? hnow]
  rw [Moment.hands?, phaseOf_of_get? hnow] at hands
  generalize now.phase = phase, call.phase = start at outward hands resting
  cases outward with
  | resuming => exact ⟨rfl, rfl⟩
  | completing | marking | releasing | ended | signalled => cases hands
  | rests =>
    cases phase with
    | resuming => cases resting
    | _ => cases hands

end

/-! ## The theorem -/

/-- **Unwinding and cancellation complete exactly what is abandoned.** -/
theorem unwinding_exact {nest : Nest} (run : Run rule s₀ past s) (fresh : s₀.IsFresh)
    (nests : s.Nests nest) (leaving : Run (Unwinding nest.guards) s later s') :
    Unwound nest s later s' := by
  have run : Run (fun _ _ => True) s₀ past s := run.weaken fun _ _ _ _ _ => trivial
  have abandoned := nests.canLeave
  refine { exact := ?_, inward := run.inward fresh leaving nests rfl, steps := ?_, settled := ?_
           resumes := ?_, polls := ?_, locked := ?_, keeps := ?_, returned := ?_
           completes := ?_ }
  · intro c mine
    obtain ⟨call, hc, resting, -⟩ := abandoned c mine
    exact run.count_retired fresh leaving mine hc resting
  · intro m hm c mine subject
    obtain ⟨inv, locks, alive, possible, leads, now, hnow⟩ :=
      run.at_frame fresh leaving hm mine (abandoned c mine) subject
    obtain ⟨parts, completes⟩ := completion_act inv locks alive possible hnow leads
    exact ⟨now, parts, hnow, completes⟩
  · exact fun c mine gone => run.isSettled fresh leaving mine (abandoned c mine) gone
  · rintro before m after rfl c mine w hands
    obtain ⟨call, hc, resting, -⟩ := abandoned c mine
    exact run.retired_of_hands fresh leaving.split.1 mine hc resting hands
  · intro c mine before retains w polls
    obtain ⟨call, hc, resting, -⟩ := abandoned c mine
    rw [run.mem_retired fresh leaving mine hc resting, not_and, Bool.not_eq_false] at retains
    exact act_of_polls ((run.onward leaving).board_inv fresh) polls (retains before)
  · intro c mine dropping w competes
    exact ((run.onward leaving).locks fresh).not_possible competes dropping
  · intro m hm c mine subject w hw
    obtain ⟨inv, locks, alive, possible, leads, now, hnow⟩ :=
      run.at_frame fresh leaving hm mine (abandoned c mine) subject
    exact keeps_act inv locks alive possible subject hnow leads hw
  · obtain ⟨allowed, mirrors⟩ := leaving.returning
    exact ⟨allowed, mirrors.agrees⟩
  · intro alive
    obtain ⟨more, s'', left, alive', isOver⟩ :=
      run.completes fresh abandoned nests.once leaving alive
    refine ⟨more, s'', left, alive', fun c mine => ⟨isOver c mine, ?_⟩⟩
    obtain ⟨call, hc, resting, -⟩ := abandoned c mine
    have all := leaving.trans (left.weaken fun _ _ _ _ admitted => admitted.1)
    rw [run.count_retired fresh all mine hc resting, Phase.isInFlight_of_isOver (isOver c mine)]
    simp

end

/-! ## Runs in which calls are abandoned -/

/-- From a fresh start some actions lead to a nest of calls, and some more abandon it. -/
structure Abandons (start : State α) (actions : List (Action α)) (nest : Nest)
    (leaving : List (Action α)) : Prop where
  fresh : start.IsFresh
  allowed : start.Allows (fun _ _ => True) actions
  nests : (start.acts actions).Nests nest
  leaving : (start.acts actions).Allows (Unwinding nest.guards) leaving

/-- A registry, a slot table, and a flag for each of them. -/
def nestStart : State Unit where
  flags := ⟨[(2, { id := ⟨1⟩ }), (3, { id := ⟨0⟩ })]⟩
  targets := ⟨[(0, Target.inProcess), (1, Target.ofTable attached)]⟩
  image :=
    { self := 1, isAlive := fun _ => true, directory := { objects := ⟨[(0, { size := 8 })]⟩ } }
  nextKey := 4

/-- The initializer of a task on the registry makes a call on the slot table, whose initializer
runs. Another task waits for the outer one. -/
def nestActions : List (Action Unit) :=
  [.issue { flavour := .async, thread := "main", target := 0, flag := 2, phase := .arriving },
    .advance 4, .advance 4,
    .issue { flavour := .async, thread := "main", enclosing := some 4, target := 1, flag := 3,
             phase := .arriving },
    .advance 5, .advance 5,
    .issue { flavour := .async, thread := "main", target := 0, flag := 2, phase := .arriving },
    .advance 6, .advance 6]

/-- The outer task holds the inner one. -/
def nest : Nest := .call 4 (.call 5 .nil .nil) .nil

/-- The first task is dropped. -/
def dropActions : List (Action Unit) :=
  [.abandon 5, .advance 5, .advance 5, .advance 5, .advance 5, .abandon 4, .advance 4, .advance 4,
    .advance 4]

theorem nest_isFresh : nestStart.IsFresh := by
  have htarget {t : Nat} {target : Target} (ht : nestStart.targets.get? t = some target) :
      target = Target.inProcess ∨ target = Target.ofTable attached := by
    simp only [nestStart, Store.get?, Store.lookup] at ht
    split at ht
    · cases ht
      exact Or.inl rfl
    · split at ht
      · cases ht
        exact Or.inr rfl
      · cases ht
  refine { calls := fun _ => rfl, registries := ?_, tables := ?_, locks := ?_, violation := rfl }
  · intro t target r ht he
    rcases htarget ht with rfl | rfl <;> cases he
    rfl
  · intro t target table ht he
    rcases htarget ht with rfl | rfl <;> cases he
    exact ⟨rfl, _, rfl⟩
  · intro t target ht
    rcases htarget ht with rfl | rfl <;> rfl

theorem nest_allowed : nestStart.Allows (fun _ _ => True) nestActions := by
  have hinside {s : State Unit} {k : Nat} (hs : s.phaseOf k = .running) (outer : Nat)
      (ho : some k = some outer) : s.phaseOf outer = .running := by
    cases ho
    exact hs
  exact ⟨rfl, ⟨Or.inr rfl, rfl, ⟨_, rfl⟩, ⟨_, rfl⟩, nofun⟩, trivial,
    rfl, rfl, trivial, rfl, rfl, trivial,
    rfl, ⟨Or.inr rfl, rfl, ⟨_, rfl⟩, ⟨_, rfl⟩, hinside rfl⟩, trivial,
    rfl, rfl, trivial, rfl, rfl, trivial,
    rfl, ⟨Or.inr rfl, rfl, ⟨_, rfl⟩, ⟨_, rfl⟩, nofun⟩, trivial,
    rfl, rfl, trivial, rfl, rfl, trivial, trivial⟩

theorem nest_callTree : (nestStart.acts nestActions).CallTree nest where
  made := by
    refine ⟨fun k hk => ?_, ⟨nofun, trivial, trivial⟩, trivial⟩
    obtain rfl : k = 5 := by simpa [Nest.roots] using hk
    exact ⟨_, rfl, rfl⟩
  outermost := by
    intro c hc k _ encloses
    obtain rfl : c = 4 := by simpa [nest, Nest.roots] using hc
    obtain ⟨call, outer, hcall, henclosing, -⟩ := encloses_iff.mp encloses
    cases hcall
    cases henclosing

/-- A frame that is not the second of two has nobody in front of it. -/
theorem inTurn_first {s : State Unit} {x y : Nat} (hne : x ≠ y) (k : Nat)
    (h : Precedes [x, y] k x) : (s.phaseOf k).isOver = true := by
  simp [Precedes, List.cons_sublist_cons', hne] at h

/-- The second of two frames has its turn when the first one is over. -/
theorem inTurn_second {s : State Unit} {x y : Nat} (isOver : (s.phaseOf x).isOver = true)
    (k : Nat) (h : Precedes [x, y] k y) : (s.phaseOf k).isOver = true := by
  obtain rfl : k = x := by simpa [Precedes, List.cons_sublist_cons'] using h
  exact isOver

theorem nest_abandons : Abandons nestStart nestActions nest dropActions where
  fresh := nest_isFresh
  allowed := nest_allowed
  nests := by
    refine { canLeave := fun c hc => ?_, once := by decide }
    obtain rfl | rfl : c = 5 ∨ c = 4 := by simpa [nest, Nest.guards] using hc
    · exact ⟨_, rfl, rfl, nofun⟩
    · exact ⟨_, rfl, rfl, nofun⟩
  leaving := by
    have first {s : State Unit} := inTurn_first (s := s) (show 5 ≠ 4 by decide)
    exact ⟨rfl, ⟨_, rfl, rfl, rfl⟩, unwinding_of rfl .drops first,
      rfl, rfl, unwinding_of rfl (.goesOn rfl) first,
      rfl, rfl, unwinding_of rfl (.goesOn rfl) first,
      rfl, rfl, unwinding_of rfl (.goesOn rfl) first,
      rfl, rfl, unwinding_of rfl (.goesOn rfl) first,
      rfl, ⟨_, rfl, rfl, rfl⟩, unwinding_of rfl .drops (inTurn_second rfl),
      rfl, rfl, unwinding_of rfl (.goesOn rfl) (inTurn_second rfl),
      rfl, rfl, unwinding_of rfl (.goesOn rfl) (inTurn_second rfl),
      rfl, rfl, unwinding_of rfl (.goesOn rfl) (inTurn_second rfl), trivial⟩

/-- The inner operation is retired first, and the other task is handed control. -/
theorem unwinding_exact_nested :
    Unwound nest (nestStart.acts nestActions) ((nestStart.acts nestActions).moments dropActions)
      ((nestStart.acts nestActions).acts dropActions) ∧
    (nestStart.acts nestActions).CallTree nest ∧
    retired ((nestStart.acts nestActions).moments dropActions) = [5, 4] ∧
    ((nestStart.acts nestActions).acts dropActions).isSet 2 = true ∧
    ((nestStart.acts nestActions).acts dropActions).isSet 3 = true ∧
    ((nestStart.acts nestActions).acts dropActions).phaseOf 6 = .queued (.channel true) :=
  ⟨unwinding_exact (Run.of_allows nest_abandons.allowed) nest_abandons.fresh nest_abandons.nests
    (Run.of_allows nest_abandons.leaving), nest_callTree, by decide, rfl, rfl, rfl⟩

/-- A task runs an initializer through one slot table, and another one polls through the other. -/
def pollActions : List (Action Unit) :=
  [.issue { flavour := .async, thread := "main", target := 0, flag := 2, phase := .arriving },
    .advance 4, .advance 4,
    .issue { flavour := .async, thread := "main", target := 1, flag := 3, phase := .arriving },
    .advance 5, .advance 5]

/-- The first task is dropped, and the second one goes on between the parts of its completion. -/
def overtakeActions : List (Action Unit) :=
  [.abandon 4, .advance 4, .advance 5, .advance 5]

/-- A task runs an initializer through the slot table, and a thread runs one for the same flag
through the registry. -/
def sharedFlagActions : List (Action Unit) :=
  [.issue { flavour := .async, thread := "main", target := 1, flag := 3, phase := .arriving },
    .advance 4, .advance 4,
    .issue { flavour := .blocking, thread := "t", target := 0, flag := 3, phase := .arriving },
    .advance 5, .advance 5]

/-- The initializer of the thread panics. -/
def panicActions : List (Action Unit) := [.finish 5 .unwound none, .advance 5, .advance 5]

/-- The inner task is held outside of the outer one. -/
def besides : Nest := .call 4 .nil (.call 5 .nil .nil)

/-- The tasks are dropped one after the other. -/
def besidesActions : List (Action Unit) :=
  [.abandon 4, .advance 4, .advance 4, .advance 4, .abandon 5, .advance 5, .advance 5, .advance 5,
    .advance 5]

/-- The only frame has nobody in front of it. -/
theorem inTurn_only {s : State Unit} {x : Nat} (k : Nat) (h : Precedes [x] k x) :
    (s.phaseOf k).isOver = true := by
  simp [Precedes] at h

theorem overtake_abandons :
    Abandons tablesStart pollActions (.call 4 .nil .nil) overtakeActions where
  fresh := tables_isFresh
  allowed :=
    ⟨rfl, ⟨Or.inr rfl, rfl, ⟨_, rfl⟩, ⟨_, rfl⟩, nofun⟩, trivial, rfl, rfl, trivial, rfl, rfl, trivial,
      rfl, ⟨Or.inr rfl, rfl, ⟨_, rfl⟩, ⟨_, rfl⟩, nofun⟩, trivial, rfl, rfl, trivial,
      rfl, rfl, trivial, trivial⟩
  nests := by
    refine { canLeave := fun c hc => ?_, once := by decide }
    obtain rfl : c = 4 := by simpa [Nest.guards] using hc
    exact ⟨_, rfl, rfl, nofun⟩
  leaving :=
    ⟨rfl, ⟨_, rfl, rfl, rfl⟩, unwinding_of rfl .drops inTurn_only,
      rfl, rfl, unwinding_of rfl (.goesOn rfl) inTurn_only,
      rfl, rfl, unwinding_of_other rfl (by decide),
      rfl, rfl, unwinding_of_other rfl (by decide), trivial⟩

theorem panic_abandons :
    Abandons nestStart sharedFlagActions (.call 5 .nil .nil) panicActions where
  fresh := nest_isFresh
  allowed :=
    ⟨rfl, ⟨Or.inr rfl, rfl, ⟨_, rfl⟩, ⟨_, rfl⟩, nofun⟩, trivial, rfl, rfl, trivial, rfl, rfl, trivial,
      rfl, ⟨Or.inr rfl, rfl, ⟨_, rfl⟩, ⟨_, rfl⟩, nofun⟩, trivial, rfl, rfl, trivial,
      rfl, rfl, trivial, trivial⟩
  nests := by
    refine { canLeave := fun c hc => ?_, once := by decide }
    obtain rfl : c = 5 := by simpa [Nest.guards] using hc
    exact ⟨_, rfl, rfl, fun _ => rfl⟩
  leaving :=
    ⟨rfl, nofun, unwinding_of rfl (.unwinds none) inTurn_only,
      rfl, rfl, unwinding_of rfl (.goesOn rfl) inTurn_only,
      rfl, rfl, unwinding_of rfl (.goesOn rfl) inTurn_only, trivial⟩

theorem besides_abandons : Abandons nestStart nestActions besides besidesActions where
  fresh := nest_isFresh
  allowed := nest_allowed
  nests := by
    refine { canLeave := fun c hc => ?_, once := by decide }
    obtain rfl | rfl : c = 4 ∨ c = 5 := by simpa [besides, Nest.guards] using hc
    · exact ⟨_, rfl, rfl, nofun⟩
    · exact ⟨_, rfl, rfl, nofun⟩
  leaving := by
    have first {s : State Unit} := inTurn_first (s := s) (show 4 ≠ 5 by decide)
    exact ⟨rfl, ⟨_, rfl, rfl, rfl⟩, unwinding_of rfl .drops first,
      rfl, rfl, unwinding_of rfl (.goesOn rfl) first,
      rfl, rfl, unwinding_of rfl (.goesOn rfl) first,
      rfl, rfl, unwinding_of rfl (.goesOn rfl) first,
      rfl, ⟨_, rfl, rfl, rfl⟩, unwinding_of rfl .drops (inTurn_second rfl),
      rfl, rfl, unwinding_of rfl (.goesOn rfl) (inTurn_second rfl),
      rfl, rfl, unwinding_of rfl (.goesOn rfl) (inTurn_second rfl),
      rfl, rfl, unwinding_of rfl (.goesOn rfl) (inTurn_second rfl),
      rfl, rfl, unwinding_of rfl (.goesOn rfl) (inTurn_second rfl), trivial⟩

/-- **What an abandoned call does is neither one step nor all its own.** A call that polled its slot
is over before its flag is set and its claim gone. It sets a flag that another call has in flight
through another executor. And what it encloses is retired after it, if it is held beside it. -/
theorem unwinding_in_parts :
    (Abandons tablesStart pollActions (.call 4 .nil .nil) overtakeActions ∧
      (tablesStart.acts pollActions).Polls 5 4 ∧
      ((tablesStart.acts pollActions).acts overtakeActions).phaseOf 5 = .ended (.ok none) ∧
      ((tablesStart.acts pollActions).acts overtakeActions).isSet 2 = false ∧
      (⟨0⟩, .scope 1) ∈ ((tablesStart.acts pollActions).acts overtakeActions).listed 0) ∧
    (Abandons nestStart sharedFlagActions (.call 5 .nil .nil) panicActions ∧
      (nestStart.acts sharedFlagActions).isSet 3 = false ∧
      ((nestStart.acts sharedFlagActions).acts panicActions).phaseOf 4 = .running ∧
      ((nestStart.acts sharedFlagActions).acts panicActions).isSet 3 = true) ∧
    (Abandons nestStart nestActions besides besidesActions ∧
      Encloses (nestStart.acts nestActions) 4 5 ∧
      retired ((nestStart.acts nestActions).moments besidesActions) = [4, 5]) := by
  refine ⟨⟨overtake_abandons, ?_, rfl, rfl, ?_⟩, ⟨panic_abandons, rfl, rfl, rfl⟩,
    besides_abandons, ?_, by decide⟩
  · exact ⟨_, _, _, _, rfl, rfl, rfl, rfl, rfl, rfl, rfl⟩
  · decide
  · exact .single ⟨_, rfl, rfl⟩

end RunOnce.Protocol
