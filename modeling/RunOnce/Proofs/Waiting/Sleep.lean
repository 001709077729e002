import RunOnce.Proofs.Protocol.Effect

/-!
# Wake-ups are never lost

**The two sides of a cell.** The waiting thread (`Sleeper`) looks at the flag and returns if it is
set. If it is clear, it parks: in one step it looks at the flag again and goes to sleep if that is
still clear. Out of there it starts all over. The resuming side (`Waker`) sets the flag and then
ends the sleep, should there be one.

**Scenes** (`Scene`). A cell and how far each side has come. A run (`Run`) is any order of their
steps, in which a thread that sleeps takes none and may stir for no reason at any time.

**Theorem (`wakeups_never_lost`).** The thread returns only when the flag was set. Once the resuming
side is through, the thread is awake and stays so, and returns with its third step at the latest. A
call that waits follows every run with its own steps: what it does at once, looking or being handed
control, is what the two sides do piece by piece.

The window is between the look at a clear flag and the sleep. A flag that is set within it is seen
by the second look, and a flag that is set later is followed by the end of the sleep; the invariant
is that a thread sleeps only as long as the resuming side is not through (`Scene.Inv.asleep`).
-/

namespace RunOnce.Wakeup

open Protocol

/-! ## The steps of the two sides -/

/-- What the waiting thread does next. -/
inductive Sleeper
  /-- Looks at the flag. -/
  | looking
  /-- Found it clear: looks again and goes to sleep, in one step. -/
  | parking
  /-- Sleeps, or comes back from having parked. -/
  | parked
  | returned
deriving DecidableEq, Repr

/-- How far the resuming side has come. -/
inductive Waker
  | idle
  /-- Has set the flag. -/
  | stored
  /-- Has ended the sleep. -/
  | finished
deriving DecidableEq, Repr

/-- Whose step is next; `stir` ends the sleep of the thread for no reason. -/
inductive Turn
  | sleeper
  | waker
  | stir
deriving DecidableEq, Repr

/-- A cell and its two sides. -/
structure Scene where
  cell : Wakeup := {}
  sleeper : Sleeper := .looking
  waker : Waker := .idle
deriving DecidableEq, Repr

namespace Scene

/-- The scene after a step. -/
def step (x : Scene) : Turn → Scene
  | .sleeper =>
    match x.sleeper with
    | .looking => { x with sleeper := if x.cell.isSet then .returned else .parking }
    | .parking => { x with cell := x.cell.park, sleeper := .parked }
    | .parked => { x with sleeper := .looking }
    | .returned => x
  | .waker =>
    match x.waker with
    | .idle => { x with cell := x.cell.store, waker := .stored }
    | .stored => { x with cell := x.cell.unpark, waker := .finished }
    | .finished => x
  | .stir => { x with cell := x.cell.unpark }

/-- Whether a step can be taken: a thread that sleeps takes none, and only one that sleeps stirs. -/
def Possible (x : Scene) : Turn → Prop
  | .sleeper => x.cell.isAsleep = false ∧ x.sleeper ≠ .returned
  | .waker => x.waker ≠ .finished
  | .stir => x.cell.isAsleep = true

instance (x : Scene) : (t : Turn) → Decidable (x.Possible t)
  | .sleeper => inferInstanceAs (Decidable (_ ∧ _))
  | .waker => inferInstanceAs (Decidable (_ ≠ _))
  | .stir => inferInstanceAs (Decidable (_ = _))

end Scene

/-- The steps from one scene to another. -/
inductive Run (x₀ : Scene) : List Turn → Scene → Prop
  | start : Run x₀ [] x₀
  | step {past : List Turn} {x : Scene} {t : Turn} (run : Run x₀ past x) (possible : x.Possible t) :
      Run x₀ (past ++ [t]) (x.step t)

/-! ## What every step keeps -/

@[simp] theorem isSet_park (w : Wakeup) : w.park.isSet = w.isSet := by
  unfold park
  split <;> rfl

theorem park_of_isSet {w : Wakeup} (h : w.isSet = true) : w.park = w := if_pos h

theorem park_of_clear {w : Wakeup} (h : w.isSet = false) : w.park = { w with isAsleep := true } :=
  if_neg (Bool.eq_false_iff.mp h)

namespace Scene

/-- The flag is set by the first step of the resuming side, and a thread sleeps only as long as
that side has a step left. -/
structure Inv (x : Scene) : Prop where
  isSet : x.cell.isSet = true ↔ x.waker ≠ .idle
  asleep : x.cell.isAsleep = true → x.sleeper = .parked ∧ x.waker ≠ .finished
  returned : x.sleeper = .returned → x.cell.isSet = true

variable {x y : Scene} {t : Turn}

theorem inv_start : ({} : Scene).Inv where
  isSet := by decide
  asleep := nofun
  returned := nofun

/-- A thread that takes a step is awake, and goes to sleep only while the flag is clear. -/
theorem Inv.step_sleeper (h : x.Inv) (possible : x.Possible .sleeper) :
    (x.step .sleeper).Inv := by
  obtain ⟨hawake, hleft⟩ := possible
  cases hs : x.sleeper with
  | looking =>
    simp only [step, hs]
    refine ⟨h.isSet, fun hasleep => absurd hasleep (by simp [hawake]), fun hreturned => ?_⟩
    by_contra hclear
    rw [if_neg hclear] at hreturned
    cases hreturned
  | parking =>
    simp only [step, hs]
    refine ⟨by rw [isSet_park]; exact h.isSet, fun hasleep => ⟨rfl, ?_⟩, nofun⟩
    intro hfinished
    -- The resuming side is through, so the second look finds the flag set.
    have hset : x.cell.isSet = true := h.isSet.mpr fun hidle => nomatch hfinished.symm.trans hidle
    rw [park_of_isSet hset, hawake] at hasleep
    cases hasleep
  | parked =>
    simp only [step, hs]
    exact ⟨h.isSet, fun hasleep => absurd hasleep (by simp [hawake]), nofun⟩
  | returned => exact absurd hs hleft

theorem Inv.step_waker (h : x.Inv) (possible : x.Possible .waker) : (x.step .waker).Inv := by
  cases hw : x.waker with
  | idle =>
    simp only [step, hw]
    exact ⟨iff_of_true rfl nofun, fun hasleep => ⟨(h.asleep hasleep).1, nofun⟩, fun _ => rfl⟩
  | stored =>
    simp only [step, hw]
    exact ⟨iff_of_true (h.isSet.mpr (by simp [hw])) nofun, nofun, h.returned⟩
  | finished => exact absurd hw possible

theorem Inv.step (h : x.Inv) (possible : x.Possible t) : (x.step t).Inv := by
  cases t with
  | sleeper => exact h.step_sleeper possible
  | waker => exact h.step_waker possible
  | stir => exact ⟨h.isSet, nofun, h.returned⟩

end Scene

theorem Run.inv {x₀ x : Scene} {past : List Turn} (run : Run x₀ past x) (start : x₀.Inv) :
    x.Inv := by
  induction run with
  | start => exact start
  | step _ possible ih => exact ih.step possible

/-! ## When the resuming side is through -/

/-- The steps that the waiting thread has left if it stays awake. -/
def Sleeper.left : Sleeper → Nat
  | .parking => 3
  | .parked => 2
  | .looking => 1
  | .returned => 0

/-- From then on only the waiting thread takes steps, and each brings it closer to its return. -/
theorem Scene.Inv.left_step {x : Scene} {t : Turn} (h : x.Inv) (through : x.waker = .finished)
    (possible : x.Possible t) : t = .sleeper ∧ (x.step t).waker = .finished ∧
      (x.step t).sleeper.left + 1 = x.sleeper.left := by
  have hset : x.cell.isSet = true := h.isSet.mpr (by simp [through])
  cases t with
  | sleeper =>
    refine ⟨rfl, ?_⟩
    cases hs : x.sleeper with
    | looking => simp [Scene.step, hs, hset, through, Sleeper.left]
    | parking => simp [Scene.step, hs, through, Sleeper.left]
    | parked => simp [Scene.step, hs, through, Sleeper.left]
    | returned => exact absurd hs possible.2
  | waker => exact absurd through possible
  | stir => exact absurd through (h.asleep possible).2

theorem Run.left {x y : Scene} {later : List Turn} (run : Run x later y) (h : x.Inv)
    (through : x.waker = .finished) :
    y.waker = .finished ∧ later.length + y.sleeper.left = x.sleeper.left := by
  induction run with
  | start => exact ⟨through, Nat.zero_add _⟩
  | step run possible ih =>
    obtain ⟨hthrough, hlength⟩ := ih
    obtain ⟨-, hnext, hleft⟩ := (run.inv h).left_step hthrough possible
    refine ⟨hnext, ?_⟩
    rw [List.length_append, List.length_singleton]
    omega

/-! ## The steps of a call that waits -/

section Followed

variable {α : Type} {s₀ s : State α} {c : Nat} {x : Scene} {past : List Turn}

/-- A state in which a call has followed a run: a step of the waiting thread is one that the call
takes or none, a step of the resuming side is one in which the call is handed control or none. -/
inductive Followed (c : Nat) (s₀ : State α) : List Turn → State α → Prop
  | start : Followed c s₀ [] s₀
  | unseen {past : List Turn} {s : State α} (followed : Followed c s₀ past s) (t : Turn) :
      Followed c s₀ (past ++ [t]) s
  | advances {past : List Turn} {s : State α} (followed : Followed c s₀ past s) :
      Followed c s₀ (past ++ [.sleeper]) (s.advance c).1
  | handed {past : List Turn} {s : State α} (followed : Followed c s₀ past s) :
      Followed c s₀ (past ++ [.waker]) (s.handOver c).1

/-- What a scene is for a call: it goes on once the thread has returned, and until then it waits on
a cell with the same flag, on which it sleeps if the thread sleeps and was not woken. -/
structure Scene.Shows (x : Scene) (phase : Phase α) : Prop where
  returned : x.sleeper = .returned → phase = .concluding
  waits : x.sleeper ≠ .returned → ∃ w, phase = .queued (.cell w) ∧ w.isSet = x.cell.isSet ∧
    (x.cell.isAsleep = true → x.cell.isSet = false → w.isAsleep = true)

/-- A call does not see what leaves the flag alone and does not put the thread to sleep. -/
theorem Scene.Shows.unseen {y : Scene} {phase : Phase α} (h : x.Shows phase)
    (isSet : y.cell.isSet = x.cell.isSet)
    (asleep : y.cell.isAsleep = true → x.cell.isAsleep = true)
    (returned : y.sleeper = .returned ↔ x.sleeper = .returned) : y.Shows phase := by
  refine ⟨fun hy => h.returned (returned.mp hy), fun hy => ?_⟩
  obtain ⟨w, hphase, hset, hasleep⟩ := h.waits (fun hx => hy (returned.mpr hx))
  exact ⟨w, hphase, hset.trans isSet.symm,
    fun hsleeps hclear => hasleep (asleep hsleeps) (isSet ▸ hclear)⟩

/-- A call that waits on a cell and looks at it. -/
theorem advance_queued {w : Wakeup} (alive : s.violation = none)
    (phase : s.phaseOf c = .queued (.cell w)) :
    (s.advance c).1.violation = none ∧ (s.advance c).1.phaseOf c =
      if w.isSet then .concluding else .queued (.cell w.park) := by
  cases hc : s.calls.get? c with
  | none =>
    rw [State.phaseOf, hc] at phase
    cases phase
  | some call =>
    rw [State.phaseOf_of_get? hc] at phase
    simp only [State.advance, alive, hc, phase, State.await]
    by_cases hset : w.isSet = true
    · have hraised : (Signal.cell w).isRaised = true := hset
      rw [if_pos hraised, if_pos hset]
      exact ⟨alive, State.phaseOf_setCall ..⟩
    · have hraised : ¬(Signal.cell w).isRaised = true := hset
      rw [if_neg hraised, if_neg hset]
      exact ⟨alive, State.phaseOf_setCall ..⟩

/-- A state in which a call has followed a run, so that it is where the scene is. -/
structure Caught (c : Nat) (s₀ : State α) (past : List Turn) (x : Scene) (s : State α) : Prop where
  followed : Followed c s₀ past s
  alive : s.violation = none
  shows : x.Shows (s.phaseOf c)

theorem Caught.unseen {y : Scene} (h : Caught c s₀ past x s) (t : Turn)
    (isSet : y.cell.isSet = x.cell.isSet)
    (asleep : y.cell.isAsleep = true → x.cell.isAsleep = true)
    (returned : y.sleeper = .returned ↔ x.sleeper = .returned) :
    Caught c s₀ (past ++ [t]) y s :=
  ⟨h.followed.unseen t, h.alive, h.shows.unseen isSet asleep returned⟩

/-- The call looks when the thread finds the flag set, and when it goes to sleep. -/
theorem Caught.step_sleeper (h : Caught c s₀ past x s) :
    ∃ s', Caught c s₀ (past ++ [.sleeper]) (x.step .sleeper) s' := by
  cases hs : x.sleeper with
  | looking =>
    obtain ⟨w, hphase, hset, -⟩ := h.shows.waits (by simp [hs])
    obtain ⟨halive, hnext⟩ := advance_queued h.alive hphase
    simp only [Scene.step, hs]
    by_cases hflag : x.cell.isSet = true
    · refine ⟨_, h.followed.advances, halive, fun _ => ?_, fun hy => absurd (if_pos hflag) hy⟩
      rw [hnext, hset, if_pos hflag]
    · refine ⟨s, h.unseen .sleeper rfl id ?_⟩
      simp [hs, hflag]
  | parking =>
    obtain ⟨w, hphase, hset, -⟩ := h.shows.waits (by simp [hs])
    obtain ⟨halive, hnext⟩ := advance_queued h.alive hphase
    simp only [Scene.step, hs]
    cases hflag : x.cell.isSet with
    | true =>
      rw [park_of_isSet hflag]
      exact ⟨s, h.unseen .sleeper rfl id (by simp [hs])⟩
    | false =>
      have hclear : w.isSet = false := hset.trans hflag
      rw [if_neg (Bool.eq_false_iff.mp hclear), park_of_clear hclear] at hnext
      rw [park_of_clear hflag]
      exact ⟨_, h.followed.advances, halive, nofun, fun _ => ⟨_, hnext, hset, fun _ _ => rfl⟩⟩
  | parked =>
    simp only [Scene.step, hs]
    exact ⟨s, h.unseen .sleeper rfl id (by simp [hs])⟩
  | returned =>
    simp only [Scene.step, hs]
    exact ⟨s, h.unseen .sleeper rfl id Iff.rfl⟩

/-- The call is handed control when the flag is set, and has nothing to do when the sleep ends. -/
theorem Caught.step_waker (h : Caught c s₀ past x s) :
    ∃ s', Caught c s₀ (past ++ [.waker]) (x.step .waker) s' := by
  cases hw : x.waker with
  | idle =>
    simp only [Scene.step, hw]
    by_cases hreturned : x.sleeper = .returned
    · refine ⟨s, h.followed.unseen .waker, h.alive, fun _ => h.shows.returned hreturned, fun hy => ?_⟩
      exact absurd hreturned hy
    · obtain ⟨w, hphase, -, -⟩ := h.shows.waits hreturned
      refine ⟨_, h.followed.handed, (State.violation_handOver s c).trans h.alive,
        fun hy => absurd hy hreturned, fun _ => ?_⟩
      exact ⟨_, State.phaseOf_handOver_self hphase, rfl, nofun⟩
  | stored =>
    simp only [Scene.step, hw]
    exact ⟨s, h.unseen .waker rfl nofun Iff.rfl⟩
  | finished =>
    simp only [Scene.step, hw]
    exact ⟨s, h.unseen .waker rfl id Iff.rfl⟩

theorem Caught.step (h : Caught c s₀ past x s) (t : Turn) :
    ∃ s', Caught c s₀ (past ++ [t]) (x.step t) s' := by
  cases t with
  | sleeper => exact h.step_sleeper
  | waker => exact h.step_waker
  | stir => exact ⟨s, h.unseen .stir rfl nofun Iff.rfl⟩

/-- A call that starts to wait can follow every run. -/
theorem Run.caught (run : Run {} past x) (alive : s₀.violation = none)
    (phase : s₀.phaseOf c = .queued (State.signalFor .blocking)) :
    ∃ s, Caught c s₀ past x s := by
  induction run with
  | start =>
    refine ⟨s₀, .start, alive, nofun, fun _ => ⟨{}, phase, rfl, nofun⟩⟩
  | @step past x t run possible ih =>
    obtain ⟨s, hs⟩ := ih
    exact hs.step t

end Followed

/-! ## The theorem -/

/-- **Wake-ups are never lost.** In every order of the steps, stirs included: the thread has returned
only if the flag was set; once the resuming side is through the thread does not sleep, and as long as
it has not returned from then on it can take its next step and has taken less than three; and a call
that waits in any state of the protocol can follow the run with its own steps, so that it goes on
exactly when the thread has returned. -/
theorem wakeups_never_lost {α : Type} {past : List Turn} {x : Scene} (run : Run {} past x) :
    (x.sleeper = .returned → x.cell.isSet = true ∧ x.waker ≠ .idle) ∧
    (x.waker = .finished → x.cell.isAsleep = false) ∧
    (x.waker = .finished → ∀ later y, Run x later y → y.sleeper ≠ .returned →
      y.Possible .sleeper ∧ later.length < 3) ∧
    ∀ (s₀ : State α) (c : Nat), s₀.violation = none →
      s₀.phaseOf c = .queued (State.signalFor .blocking) →
      ∃ s, Followed c s₀ past s ∧ x.Shows (s.phaseOf c) := by
  have hinv := run.inv Scene.inv_start
  have hawake {y : Scene} (h : y.Inv) (through : y.waker = .finished) : y.cell.isAsleep = false :=
    Bool.eq_false_iff.mpr fun hasleep => (h.asleep hasleep).2 through
  refine ⟨fun hreturned => ?_, hawake hinv, fun through later y more hleft => ?_,
    fun s₀ c alive phase => ?_⟩
  · have hset := hinv.returned hreturned
    exact ⟨hset, hinv.isSet.mp hset⟩
  · obtain ⟨hthrough, hlength⟩ := more.left hinv through
    refine ⟨⟨hawake (more.inv hinv) hthrough, hleft⟩, ?_⟩
    have hpos : 0 < y.sleeper.left := by
      cases hy : y.sleeper <;> simp_all [Sleeper.left]
    have hmost : x.sleeper.left ≤ 3 := by cases x.sleeper <;> decide
    omega
  · obtain ⟨s, hs⟩ := run.caught alive phase
    exact ⟨s, hs.followed, hs.shows⟩

/-- A call that has just started to wait. -/
def waiter : Call Nat where
  flavour := .blocking
  thread := "main"
  target := 0
  flag := 0
  phase := .queued (.cell {})

/-- A state with nothing but this call. -/
def waiting : State Nat where
  image := { self := 7, isAlive := fun _ => false }
  calls := ⟨[(0, waiter)]⟩

/-- The thread sleeps, stirs for no reason and looks once more, and the flag is set between this look
and its second sleep. It does not go to sleep again, and has less than three steps left when the
resuming side is through. -/
theorem wakeups_never_lost_between :
    ∃ x : Scene, Run {} [.sleeper, .sleeper, .stir, .sleeper, .sleeper, .waker, .sleeper, .waker] x ∧
      x.waker = .finished ∧ x.sleeper = .parked ∧ x.cell.isAsleep = false ∧ x.Possible .sleeper ∧
      (∃ y, Run x [.sleeper, .sleeper] y ∧ y.sleeper = .returned) ∧
      ∃ s, Followed 0 waiting
        [.sleeper, .sleeper, .stir, .sleeper, .sleeper, .waker, .sleeper, .waker] s ∧
        x.Shows (s.phaseOf 0) := by
  have asleep := ((Run.start : Run {} [] {}).step (t := .sleeper) (by decide)).step (t := .sleeper)
    (by decide)
  have again := ((asleep.step (t := .stir) (by decide)).step (t := .sleeper) (by decide)).step
    (t := .sleeper) (by decide)
  have run := ((again.step (t := .waker) (by decide)).step (t := .sleeper) (by decide)).step
    (t := .waker) (by decide)
  obtain ⟨-, hawake, hsteps, hcall⟩ := wakeups_never_lost (α := Nat) run
  refine ⟨_, run, rfl, rfl, hawake rfl, (hsteps rfl [] _ .start nofun).1, ?_,
    hcall waiting 0 rfl rfl⟩
  exact ⟨_, (Run.start.step (t := .sleeper) (by decide)).step (t := .sleeper) (by decide), rfl⟩

end RunOnce.Wakeup
