import RunOnce.Proofs.Deadlock.Crew

/-!
# No deadlock without a cycle

**Theorem (`crew_never_deadlocks`).** Let any number of threads work off routines of blocking calls
through one target, where no initializer makes a call for its own flag, nor for one from which calls
lead back to it. Whatever the order of their steps, nothing aborts, and as long as some thread has
not finished there is one that neither waits nor is finished, and its step changes something.

Suppose that all threads wait. None of them has come to a lock that is taken, as the call that drops
its guard meanwhile is the innermost one of its thread, and waits for nothing. The innermost call of
each has somebody to wait for, who has the initialization of the same flag in flight. That call does
not wait, so it lies below the innermost call of its own thread, which is for a flag further down.
This thread waits as well, and so on; but there are finitely many calls, and no way down comes back.
-/

namespace RunOnce.Protocol

open Relation State

namespace Crew

variable {α : Type} {start crew : Crew α} {t : Nat} {name : String}

/-! ## Threads that wait -/

/-- Whom the innermost call of a thread waits for is further up on a thread that is not finished,
unless it is the innermost one there. -/
theorem Inv.blocker (starts : start.Starts t) (inv : start.Inv crew t) {top : Frame}
    {below : List Frame} (frames : (crew.workers name).frames = top :: below)
    (waits : crew.state.Waits top.call) :
    ∃ other frame, frame ∈ (crew.workers other).frames ∧ frame.flag = top.flag ∧
      ¬crew.state.Waits frame.call := by
  obtain ⟨past, run⟩ := inv.run
  obtain ⟨call, hc, -, hflag⟩ := (inv.fits name).mine top (by
    rw [frames]
    exact List.mem_cons_self)
  obtain ⟨w, blocker, hw, hid, active, eager⟩ := run.exists_blocker starts.fresh
    (by rw [(inv.calls _ call hc).1]; exact starts.slots) hc waits
  obtain ⟨frame, mem, rfl⟩ := inv.covered w blocker hw active
  obtain ⟨mine, hmine, -, hframe⟩ := (inv.fits _).mine frame mem
  rw [hw] at hmine
  cases hmine
  refine ⟨blocker.thread, frame, mem, ?_, fun stuck => ?_⟩
  · rw [← hframe, ← hflag]
    exact run.flag_eq starts.fresh starts.differ hw hc hid
  · have suspensive := stuck.isSuspensive
    rw [phaseOf_of_get? hw, eager] at suspensive
    cases suspensive

/-- A lock that is taken is the lock of a thread that does not wait. -/
theorem Inv.exists_goes_of_locked (starts : start.Starts t) (inv : start.Inv crew t) {c : Nat}
    (locked : crew.state.isLockedOut c = true) :
    ∃ other, ¬(crew.workers other).IsFinished ∧ ¬crew.Waits other := by
  obtain ⟨past, run⟩ := inv.run
  have locks := run.locks starts.fresh
  obtain ⟨call, ⟨id, claims⟩, -, -, held⟩ := lock?_of_isLockedOut locked
  obtain ⟨k, -, -, drops, -⟩ := locks.dropper _ _ _ held
  obtain ⟨dropper, hk, dropping, -⟩ := get?_of_drops drops
  have active : dropper.phase.isOver = false ∧ dropper.phase ≠ .running ∧
      dropper.phase.isSuspensive = false := by
    cases phase : dropper.phase <;> simp_all [Phase.isDropping, Phase.isOver, Phase.isSuspensive]
  obtain ⟨frame, mem, rfl⟩ := inv.covered k dropper hk active.1
  -- It runs no initializer, so it is the innermost call of its thread.
  cases frames : (crew.workers dropper.thread).frames with
  | nil =>
    rw [frames] at mem
    cases mem
  | cons top below =>
    have innermost : frame = top := by
      rw [frames] at mem
      refine (List.mem_cons.mp mem).resolve_right fun lower => active.2.1 ?_
      have running := (inv.fits dropper.thread).running frame (by rw [frames]; exact lower)
      rwa [phaseOf_of_get? hk] at running
    subst innermost
    refine ⟨dropper.thread, ?_, ?_⟩
    · rintro ⟨none, -⟩
      cases frames.symm.trans none
    · rintro ⟨top, below', frames', waits⟩
      cases frames.symm.trans frames'
      rcases waits with waits | locked
      · have suspensive := waits.isSuspensive
        rw [phaseOf_of_get? hk, active.2.2] at suspensive
        cases suspensive
      · cases (not_isLockedOut_of_drops drops).symm.trans locked

/-- **Some thread does not wait**: the flags that threads wait for would go down for ever. -/
theorem Inv.exists_goes (starts : start.Starts t) (acyclic : ∀ f, ¬TransGen start.Nests f f)
    (inv : start.Inv crew t) (unfinished : ¬(crew.workers name).IsFinished) :
    ∃ other, ¬(crew.workers other).IsFinished ∧ ¬crew.Waits other := by
  by_contra stuck
  have stuck (other : String) (h : ¬(crew.workers other).IsFinished) : crew.Waits other :=
    by_contra fun goes => stuck ⟨other, h, goes⟩
  have waiting (other : String) (h : ¬(crew.workers other).IsFinished) :
      ∃ top below, (crew.workers other).frames = top :: below ∧ crew.state.Waits top.call := by
    obtain ⟨top, below, frames, waits | locked⟩ := stuck other h
    · exact ⟨top, below, frames, waits⟩
    · obtain ⟨holder, active, goes⟩ := inv.exists_goes_of_locked starts locked
      exact absurd (stuck holder active) goes
  let wanted := (crew.state.calls.values.map (·.flag)).toFinset
  have mem_wanted (other : String) {frame : Frame}
      (mem : frame ∈ (crew.workers other).frames) : frame.flag ∈ wanted := by
    obtain ⟨call, hc, -, hflag⟩ := (inv.fits other).mine frame mem
    have here : call ∈ crew.state.calls.values :=
      List.mem_map_of_mem (crew.state.calls.mem_entries_of_get? hc)
    exact List.mem_toFinset.mpr (List.mem_map.mpr ⟨call, here, hflag⟩)
  let Deeper (f g : wanted) : Prop := TransGen start.Nests g f
  have : IsTrans wanted Deeper := ⟨fun _ _ _ h h' => h'.trans h⟩
  have : Std.Irrefl Deeper := ⟨fun f => acyclic f⟩
  have noWait : ∀ f : wanted, ∀ other top below, (crew.workers other).frames = top :: below →
      crew.state.Waits top.call → top.flag ≠ f := by
    intro f
    induction f using (Finite.wellFounded_of_trans_of_irrefl Deeper).induction with
    | _ f ih =>
      rintro other top below frames waits same
      obtain ⟨holder, frame, mem, hflag, eager⟩ := inv.blocker starts frames waits
      -- The thread that is waited for waits as well, further down.
      obtain ⟨top', below', frames', waits'⟩ := waiting holder (by
        rintro ⟨hnil, -⟩
        rw [hnil] at mem
        cases mem)
      have mem' := mem
      rw [frames'] at mem'
      rcases List.mem_cons.mp mem' with rfl | lower
      · exact eager waits'
      · have nested := (inv.fits holder).nested
        rw [frames', List.pairwise_cons] at nested
        have deeper : TransGen start.Nests f top'.flag := by
          rw [← same, ← hflag]
          exact nested.1 frame lower
        have member : top'.flag ∈ wanted :=
          mem_wanted holder (by rw [frames']; exact List.mem_cons_self)
        exact ih ⟨top'.flag, member⟩ deeper holder top' below' frames' waits' rfl
  obtain ⟨top, below, frames, waits⟩ := waiting name unfinished
  exact noWait ⟨top.flag, mem_wanted name (by rw [frames]; exact List.mem_cons_self)⟩ name top
    below frames waits rfl

/-! ## Threads that go on -/

theorem begin_ne (crew : Crew α) (enclosing : Option Nat) (flag : Nat) (body : Routine)
    (w : Worker) : crew.begin t name enclosing flag body w ≠ crew := by
  intro same
  have key : crew.state.nextKey + 1 = crew.state.nextKey :=
    congrArg (fun c : Crew α => c.state.nextKey) same
  omega

theorem act_ne {a : Action α} {c : Nat}
    (moves : (crew.state.act a).phaseOf c ≠ crew.state.phaseOf c) :
    ({ crew with state := crew.state.act a } : Crew α) ≠ crew := fun same =>
  moves (congrArg (fun c' : Crew α => c'.state.phaseOf c) same)

theorem put_ne {state : State α} {w : Worker}
    (fewer : w.frames.length < (crew.workers name).frames.length) :
    crew.put state name w ≠ crew := by
  intro same
  have here : w = crew.workers name := by
    rw [← workers_put_self crew state name w, same]
  rw [here] at fewer
  omega

/-- **The step of a thread that goes on changes something.** -/
theorem Inv.step_ne (starts : start.Starts t) (inv : start.Inv crew t)
    (unfinished : ¬(crew.workers name).IsFinished) (goes : ¬crew.Waits name) :
    crew.step t name ≠ crew := by
  unfold Crew.step
  cases frames : (crew.workers name).frames with
  | nil =>
    cases rest : (crew.workers name).rest with
    | done => exact absurd ⟨frames, Or.inl rest⟩ unfinished
    | panic => exact absurd ⟨frames, Or.inr rest⟩ unfinished
    | call flag body next =>
      simp only [frames, rest]
      exact begin_ne _ _ _ _ _
  | cons top below =>
    obtain ⟨call, hc, -⟩ := (inv.fits name).mine top (by
      rw [frames]
      exact List.mem_cons_self)
    have hphase := phaseOf_of_get? hc
    have shorter (w : Worker) (h : w.frames.length ≤ below.length) :
        crew.put crew.state name w ≠ crew :=
      put_ne (by rw [frames, List.length_cons]; omega)
    cases phase : crew.state.phaseOf top.call with
    | running =>
      have running : call.phase = .running := by rw [← hphase, phase]
      have ends (ending : Ending) :
          (crew.state.act (.finish top.call ending none)).phaseOf top.call ≠
            crew.state.phaseOf top.call := by
        rw [phase]
        intro same
        cases ending
        all_goals
          simp only [State.act, finish, hc, running, phaseOf_setPhase] at same
          cases same
      cases rest : top.rest with
      | done =>
        simp only [frames, phase, rest]
        exact act_ne (ends _)
      | panic =>
        simp only [frames, phase, rest]
        exact act_ne (ends _)
      | call flag body next =>
        simp only [frames, phase, rest]
        exact begin_ne _ _ _ _ _
    | ended outcome =>
      cases outcome with
      | unwound =>
        simp only [frames, phase]
        refine shorter _ ?_
        cases below <;> simp [Worker.raise]
      | _ =>
        simp only [frames, phase]
        exact shorter _ (Nat.le_refl _)
    | _ =>
      simp only [frames, phase]
      obtain ⟨past, run⟩ := inv.run
      obtain ⟨executor, through⟩ := inv.executorOf hc
      have seen := (run.hasSeen starts.fresh hc).resolve_left (absurd inv.alive ·)
      rw [hphase] at phase
      refine act_ne (a := .advance top.call) (c := top.call) ?_
      have active : call.phase.isOver = false := by
        rw [phase]
        rfl
      have idle : call.phase ≠ .running := by
        rw [phase]
        intro same
        cases same
      rw [hphase]
      have possible : crew.state.Possible (.advance top.call) :=
        Bool.eq_false_iff.mpr fun locked => goes ⟨top, below, frames, Or.inr locked⟩
      refine phaseOf_advance_ne (run.board_inv starts.fresh) inv.alive possible hc through seen
        active idle ?_ (inv.safe starts hc)
      exact fun waits => goes ⟨top, below, frames, Or.inl waits⟩

/-! ## Freedom from deadlock -/

/-- **No deadlock without a cycle.** Threads work off routines of blocking calls through one target,
and calls do not lead from the initializer of a flag back to this flag. In every state that they
come to, nothing has aborted, a call that is under way keeps its thread from being finished, and if
some thread is not finished then one that is not finished does not wait: it is not queued with a
signal that is not raised, it does not poll a slot that is running, it has not come to a lock that
is taken, and its step changes something.
-/
theorem crew_never_deadlocks (starts : start.Starts t)
    (acyclic : ∀ f, ¬TransGen start.Nests f f) (reached : start.Reaches t crew) :
    crew.state.violation = none ∧
    (∀ c call, crew.state.calls.get? c = some call → call.phase.isOver = false →
      ¬(crew.workers call.thread).IsFinished) ∧
    ((∃ name, ¬(crew.workers name).IsFinished) →
      ∃ name, ¬(crew.workers name).IsFinished ∧ ¬crew.Waits name ∧ crew.step t name ≠ crew) := by
  have inv := Inv.of_reaches starts acyclic reached
  refine ⟨inv.alive, ?_, ?_⟩
  · rintro c call hc active ⟨frames, -⟩
    exact inv.covered_nil frames hc active rfl
  · rintro ⟨name, unfinished⟩
    obtain ⟨other, active, goes⟩ := inv.exists_goes starts acyclic unfinished
    exact ⟨other, active, goes, inv.step_ne starts active goes⟩

/-- One thread wants a flag whose initializer makes a call for a second flag. Another thread wants
the second flag, whose initializer panics. -/
def crossing : Crew Unit where
  state := siblingsStart
  workers name :=
    if name = "main" then { rest := .call 1 (.call 2 .done .done) .done }
    else if name = "worker" then { rest := .call 2 .panic .done }
    else { rest := .done }

/-- Each thread begins its call and runs its initializer. Then the first one makes the call inside,
and waits. -/
def crossingSteps : List String :=
  ["main", "main", "main", "worker", "worker", "worker", "main", "main", "main"]

theorem reaches_foldl (names : List String) (reached : start.Reaches t crew) :
    start.Reaches t (names.foldl (·.step t) crew) := by
  induction names generalizing crew with
  | nil => exact reached
  | cons name rest ih => exact ih (reached.step name)

theorem crossing_rest (name : String) :
    (crossing.workers name).rest = .call 1 (.call 2 .done .done) .done ∨
    (crossing.workers name).rest = .call 2 .panic .done ∨ (crossing.workers name).rest = .done := by
  simp only [crossing]
  split
  · exact Or.inl rfl
  · split
    · exact Or.inr (Or.inl rfl)
    · exact Or.inr (Or.inr rfl)

theorem crossing_starts : crossing.Starts 0 where
  fresh := siblings_isFresh
  target := ⟨_, rfl⟩
  differ := siblings_differ
  idle name := by
    simp only [crossing]
    split
    · rfl
    · split <;> rfl
  known name f mem := by
    have bare {o : Nat} {table : SlotTable} (maps : crossing.state.Maps 0 o table) : False := by
      obtain ⟨⟨target, ht, he⟩, -⟩ := maps
      cases ht
      cases he
    have wanted : f = 1 ∨ f = 2 := by
      rcases crossing_rest name with h | h | h <;> rw [h] at mem <;>
        simp [Routine.flags] at mem <;> omega
    rcases wanted with rfl | rfl
    · exact ⟨_, rfl, fun _ _ maps => (bare maps).elim⟩
    · exact ⟨_, rfl, fun _ _ maps => (bare maps).elim⟩
  slots o table maps := by
    obtain ⟨⟨target, ht, he⟩, -⟩ := maps
    cases ht
    cases he

theorem crossing_acyclic (f : Nat) : ¬TransGen crossing.Nests f f := by
  have rises {f g : Nat} (nests : crossing.Nests f g) : f < g := by
    obtain ⟨name, nests⟩ := nests
    rcases crossing_rest name with h | h | h <;> rw [h] at nests
    · cases nests with
      | here made =>
        rw [List.mem_singleton.mp made]
        decide
      | inside nests => cases nests with
        | here made => cases made
        | inside nests => cases nests
        | after nests => cases nests
      | after nests => cases nests
    · cases nests with
      | here made => cases made
      | inside nests => cases nests
      | after nests => cases nests
    · cases nests
  have climbs {f g : Nat} (path : TransGen crossing.Nests f g) : f < g := by
    induction path with
    | single link => exact rises link
    | tail _ link ih => exact ih.trans (rises link)
  exact fun loop => Nat.lt_irrefl f (climbs loop)

/-- The first thread waits for the second one, and some thread goes on. -/
theorem crew_never_deadlocks_crossing :
    (crossingSteps.foldl (·.step 0) crossing).Waits "main" ∧
    ∃ name, ¬((crossingSteps.foldl (·.step 0) crossing).workers name).IsFinished ∧
      ¬(crossingSteps.foldl (·.step 0) crossing).Waits name ∧
      (crossingSteps.foldl (·.step 0) crossing).step 0 name ≠
        crossingSteps.foldl (·.step 0) crossing := by
  obtain ⟨-, -, goes⟩ := crew_never_deadlocks crossing_starts crossing_acyclic
    (reaches_foldl crossingSteps .start)
  have waits : (crossingSteps.foldl (·.step 0) crossing).Waits "main" :=
    ⟨_, _, rfl, Or.inl ⟨_, rfl, Or.inl ⟨_, rfl, rfl⟩⟩⟩
  refine ⟨waits, goes ⟨"main", ?_⟩⟩
  rintro ⟨finished, -⟩
  obtain ⟨top, below, frames, -⟩ := waits
  rw [frames] at finished
  cases finished

end Crew

end RunOnce.Protocol
