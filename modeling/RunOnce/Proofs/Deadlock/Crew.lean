import Mathlib.Data.Fintype.Card
import RunOnce.Proofs.Deadlock.Blocker

/-!
# Threads with programs

**Routines** (`Routine`) are what threads and initializers do: blocking calls one after the other,
each with the initializer that it brings along, and perhaps a panic at the end.

**A crew** (`Crew`) is any number of threads that work off their routines through one target. Each
has a stack of frames, one for every call that it has begun and whose end it has not seen, the
innermost first. A step of a thread begins a call, lets its innermost call take a step, ends the
initializer of that call, or leaves the frame of a call that is over; a call that was unwound lets
the panic go on outside (`Crew.step`). Threads take their steps in any order (`Crew.Reaches`).

**The invariant** (`Crew.Inv`). The steps of a crew are actions of the protocol. Every call that is
under way is in a frame of its thread, all frames but the innermost run their initializers, and the
flags of the frames go down the relation between an initializer and the calls that it makes.
-/

namespace RunOnce.Protocol

open Function Relation State

/-! ## Routines -/

/-- What is left to do: calls, each with its initializer, and perhaps a panic. -/
inductive Routine
  | done
  | panic
  | call (flag : Nat) (body next : Routine)

namespace Routine

/-- The flags of the calls that are made directly. -/
def heads : Routine → List Nat
  | done | panic => []
  | call flag _ next => flag :: next.heads

/-- The flags of all calls, in initializers to any depth. -/
def flags : Routine → List Nat
  | done | panic => []
  | call flag body next => flag :: (body.flags ++ next.flags)

/-- An initializer for one flag makes a call for another one. -/
inductive Nests : Routine → Nat → Nat → Prop
  | here {f g : Nat} {body next : Routine} (made : g ∈ body.heads) : Nests (call f body next) f g
  | inside {f g h : Nat} {body next : Routine} (nests : Nests body f g) :
      Nests (call h body next) f g
  | after {f g h : Nat} {body next : Routine} (nests : Nests next f g) :
      Nests (call h body next) f g

/-- The calls are for flags of one kind, and those of an initializer go down a relation. -/
def Descends (K : Nat → Prop) (R : Nat → Nat → Prop) (outer : Option Nat) : Routine → Prop
  | done | panic => True
  | call flag body next => K flag ∧ (∀ f, outer = some f → R f flag) ∧
      body.Descends K R (some flag) ∧ next.Descends K R outer

/-- A routine descends along the nesting of its own calls. -/
theorem descends {K : Nat → Prop} {R : Nat → Nat → Prop} {outer : Option Nat} {r : Routine}
    (known : ∀ f ∈ r.flags, K f) (nests : ∀ f g, r.Nests f g → R f g)
    (heads : ∀ f, outer = some f → ∀ g ∈ r.heads, R f g) : r.Descends K R outer := by
  induction r generalizing outer with
  | done => trivial
  | panic => trivial
  | call flag body next ihBody ihNext =>
    refine ⟨known flag List.mem_cons_self, fun f hf => heads f hf flag List.mem_cons_self, ?_, ?_⟩
    · refine ihBody (fun f hf => known f ?_) (fun f g h => nests f g (.inside h)) ?_
      · exact List.mem_cons_of_mem _ (List.mem_append_left _ hf)
      · rintro f ⟨⟩ g hg
        exact nests flag g (.here hg)
    · refine ihNext (fun f hf => known f ?_) (fun f g h => nests f g (.after h)) ?_
      · exact List.mem_cons_of_mem _ (List.mem_append_right _ hf)
      · exact fun f hf g hg => heads f hf g (List.mem_cons_of_mem _ hg)

end Routine

/-! ## Crews -/

/-- A call that a thread has begun, the flag that it is for, and what its initializer has still to
do. -/
structure Frame where
  call : Nat
  flag : Nat
  rest : Routine

/-- A thread: its frames, the innermost first, and what is left outside of them. -/
structure Worker where
  frames : List Frame := []
  rest : Routine

namespace Worker

/-- A thread has worked off its routine, or a panic has ended it. -/
def IsFinished (w : Worker) : Prop := w.frames = [] ∧ (w.rest = .done ∨ w.rest = .panic)

/-- The thread after the innermost call was unwound: the panic ends what called it. -/
def raise (w : Worker) : List Frame → Worker
  | [] => { frames := [], rest := .panic }
  | outer :: more => { w with frames := { outer with rest := .panic } :: more }

end Worker

/-- Threads that work through one target, and what they share. -/
structure Crew (α : Type) where
  state : State α
  workers : String → Worker

namespace Crew

variable {α : Type}

/-- The crew with what is shared and one thread replaced. -/
def put (crew : Crew α) (state : State α) (name : String) (w : Worker) : Crew α :=
  { state, workers := update crew.workers name w }

@[simp] theorem state_put (crew : Crew α) (state : State α) (name : String) (w : Worker) :
    (crew.put state name w).state = state := rfl

@[simp] theorem workers_put_self (crew : Crew α) (state : State α) (name : String) (w : Worker) :
    (crew.put state name w).workers name = w := update_self ..

theorem workers_put_of_ne (crew : Crew α) (state : State α) {name other : String} (w : Worker)
    (h : other ≠ name) : (crew.put state name w).workers other = crew.workers other :=
  update_of_ne h ..

/-- The crew after a thread begins a call. -/
def begin (crew : Crew α) (t : Nat) (name : String) (enclosing : Option Nat) (flag : Nat)
    (body : Routine) (w : Worker) : Crew α :=
  let (key, state) := crew.state.issue
    { flavour := .blocking, thread := name, enclosing, target := t, flag, phase := .arriving }
  crew.put state name { w with frames := ⟨key, flag, body⟩ :: w.frames }

/-- The crew after a thread takes a step. -/
def step (crew : Crew α) (t : Nat) (name : String) : Crew α :=
  let w := crew.workers name
  match w.frames with
  | [] =>
    match w.rest with
    | .done | .panic => crew
    | .call flag body next => crew.begin t name none flag body { w with rest := next }
  | top :: below =>
    match crew.state.phaseOf top.call with
    | .running =>
      match top.rest with
      | .done => { crew with state := crew.state.act (.finish top.call .returned none) }
      | .panic => { crew with state := crew.state.act (.finish top.call .unwound none) }
      | .call flag body next => crew.begin t name (some top.call) flag body
          { w with frames := { top with rest := next } :: below }
    | .ended .unwound => crew.put crew.state name (w.raise below)
    | .ended _ => crew.put crew.state name { w with frames := below }
    | _ => { crew with state := crew.state.act (.advance top.call) }

/-- What a crew comes to when its threads take steps in any order. -/
inductive Reaches (t : Nat) (start : Crew α) : Crew α → Prop
  | start : Reaches t start start
  | step {crew : Crew α} (reached : Reaches t start crew) (name : String) :
      Reaches t start (crew.step t name)

/-- The innermost call of a thread waits, or it has come to a lock that is taken. -/
def Waits (crew : Crew α) (name : String) : Prop :=
  ∃ top below, (crew.workers name).frames = top :: below ∧
    (crew.state.Waits top.call ∨ crew.state.isLockedOut top.call = true)

/-- The initializer of one flag makes a call for another one, in the routine of some thread. -/
def Nests (crew : Crew α) (f g : Nat) : Prop := ∃ name, (crew.workers name).rest.Nests f g

/-- A crew before its first step: nothing is in flight, handles identify flags, the flags are there,
and if the target is a slot table then its slots are idle and all flags have one. -/
structure Starts (crew : Crew α) (t : Nat) : Prop where
  fresh : crew.state.IsFresh
  target : ∃ target, crew.state.targets.get? t = some target
  differ : crew.state.HandlesDiffer
  idle : ∀ name, (crew.workers name).frames = []
  known : ∀ name, ∀ f ∈ (crew.workers name).rest.flags,
    ∃ flag, crew.state.flags.get? f = some flag ∧
      ∀ o table, crew.state.Maps t o table → flag.id.index < table.slotCount
  slots : ∀ o table, crew.state.Maps t o table → ∀ id, crew.state.slotOf o id = slotIdle

end Crew

/-! ## The invariant -/

/-- The frames of a thread fit its calls. -/
structure Worker.Fits {α : Type} (s : State α) (K : Nat → Prop) (R : Nat → Nat → Prop)
    (name : String) (w : Worker) : Prop where
  mine : ∀ frame ∈ w.frames, ∃ call, s.calls.get? frame.call = some call ∧
    call.thread = name ∧ call.flag = frame.flag
  /-- All calls but the innermost run their initializers. -/
  running : ∀ frame ∈ w.frames.tail, s.phaseOf frame.call = .running
  nested : w.frames.Pairwise fun inner outer => TransGen R outer.flag inner.flag
  rest : w.rest.Descends K R none
  rests : ∀ frame ∈ w.frames, frame.rest.Descends K R (some frame.flag)

namespace Worker.Fits

variable {α : Type} {s : State α} {a : Action α} {K : Nat → Prop} {R : Nat → Nat → Prop}
  {name : String} {w : Worker}

/-- A thread without frames fits with what it has still to do. -/
theorem of_idle (frames : w.frames = []) (rest : w.rest.Descends K R none) : w.Fits s K R name := by
  refine { mine := ?_, running := ?_, nested := ?_, rest := rest, rests := ?_ }
  all_goals simp [frames]

/-- The calls of a thread are different when no flag is below itself. -/
theorem ne_top (fits : w.Fits s K R name) (acyclic : ∀ f, ¬TransGen R f f) {top frame : Frame}
    {below : List Frame} (frames : w.frames = top :: below) (mem : frame ∈ below) :
    frame.call ≠ top.call := by
  intro same
  have nested := fits.nested
  rw [frames, List.pairwise_cons] at nested
  obtain ⟨call, hc, -, hflag⟩ := fits.mine frame (by rw [frames]; exact List.mem_cons_of_mem _ mem)
  obtain ⟨call', hc', -, hflag'⟩ := fits.mine top (by rw [frames]; exact List.mem_cons_self)
  rw [same, hc'] at hc
  cases hc
  have below := nested.1 frame mem
  rw [← hflag, hflag'] at below
  exact acyclic _ below

/-- An action leaves the frames fitting if it is not about a call below the innermost one. -/
theorem act (fits : w.Fits s K R name) (alive : s.violation = none) (possible : s.Possible a)
    (fresh : s.calls.get? s.nextKey = none)
    (spares : ∀ frame ∈ w.frames.tail, a.subject? ≠ some frame.call) :
    w.Fits (s.act a) K R name where
  mine frame mem := by
    obtain ⟨call, hc, hthread, hflag⟩ := fits.mine frame mem
    obtain ⟨call', hc', becomes⟩ := call_act (a := a) fresh hc
    exact ⟨call', hc', becomes.alike.thread.trans hthread, becomes.alike.flag.trans hflag⟩
  running frame mem := by
    refine running_act alive possible (fits.running frame mem) fresh ?_ ?_
    · rintro ending value rfl
      exact spares frame mem rfl
    · rintro rfl
      exact spares frame mem rfl
  nested := fits.nested
  rest := fits.rest
  rests := fits.rests

/-- A call that the thread begins is in a frame on top of the others. -/
theorem push (fits : w.Fits s K R name) {key flag : Nat} {body : Routine} {call : Call α}
    (here : s.calls.get? key = some call) (thread : call.thread = name) (wants : call.flag = flag)
    (runs : ∀ frame ∈ w.frames, s.phaseOf frame.call = .running)
    (deeper : ∀ top below, w.frames = top :: below → R top.flag flag)
    (descends : body.Descends K R (some flag)) :
    Worker.Fits s K R name { w with frames := ⟨key, flag, body⟩ :: w.frames } where
  mine frame mem := by
    rcases List.mem_cons.mp mem with rfl | mem
    · exact ⟨call, here, thread, wants⟩
    · exact fits.mine frame mem
  running frame mem := runs frame mem
  nested := by
    refine List.pairwise_cons.mpr ⟨fun outer mem => ?_, fits.nested⟩
    cases frames : w.frames with
    | nil =>
      rw [frames] at mem
      cases mem
    | cons top below =>
      have step := TransGen.single (deeper top below frames)
      have nested := fits.nested
      rw [frames] at mem nested
      rcases List.mem_cons.mp mem with rfl | mem
      · exact step
      · exact ((List.pairwise_cons.mp nested).1 outer mem).trans step
  rest := fits.rest
  rests frame mem := by
    rcases List.mem_cons.mp mem with rfl | mem
    · exact descends
    · exact fits.rests frame mem

/-- The thread goes on with what is left in its innermost initializer. -/
theorem retop (fits : w.Fits s K R name) {top : Frame} {below : List Frame} {rest : Routine}
    (frames : w.frames = top :: below) (descends : rest.Descends K R (some top.flag)) :
    Worker.Fits s K R name { w with frames := { top with rest } :: below } where
  mine frame mem := by
    rcases List.mem_cons.mp mem with rfl | mem
    · exact fits.mine top (by rw [frames]; exact List.mem_cons_self)
    · exact fits.mine frame (by rw [frames]; exact List.mem_cons_of_mem _ mem)
  running frame mem := fits.running frame (by rw [frames]; exact mem)
  nested := by
    have nested := fits.nested
    rw [frames, List.pairwise_cons] at nested
    exact List.pairwise_cons.mpr nested
  rest := fits.rest
  rests frame mem := by
    rcases List.mem_cons.mp mem with rfl | mem
    · exact descends
    · exact fits.rests frame (by rw [frames]; exact List.mem_cons_of_mem _ mem)

/-- The thread goes on outside of its innermost call. -/
theorem pop (fits : w.Fits s K R name) {top : Frame} {below : List Frame}
    (frames : w.frames = top :: below) : Worker.Fits s K R name { w with frames := below } where
  mine frame mem := fits.mine frame (by rw [frames]; exact List.mem_cons_of_mem _ mem)
  running frame mem := fits.running frame (by rw [frames]; exact List.mem_of_mem_tail mem)
  nested := by
    have nested := fits.nested
    rw [frames] at nested
    exact (List.pairwise_cons.mp nested).2
  rest := fits.rest
  rests frame mem := fits.rests frame (by rw [frames]; exact List.mem_cons_of_mem _ mem)

theorem raise (fits : w.Fits s K R name) {top : Frame} {below : List Frame}
    (frames : w.frames = top :: below) : (w.raise below).Fits s K R name := by
  cases below with
  | nil => exact of_idle rfl trivial
  | cons outer more => exact (fits.pop frames).retop rfl trivial

end Worker.Fits

namespace Crew

variable {α : Type} {start crew : Crew α} {t : Nat} {name : String} {w : Worker}

/-- A flag is there, and it has a slot if the target is a slot table. -/
def Knows (start : Crew α) (t f : Nat) : Prop :=
  ∃ flag, start.state.flags.get? f = some flag ∧
    ∀ o table, start.state.Maps t o table → flag.id.index < table.slotCount

/-- What holds of a crew at any time. -/
structure Inv (start crew : Crew α) (t : Nat) : Prop where
  run : ∃ past, Run (fun _ _ => True) start.state past crew.state
  alive : crew.state.violation = none
  target : ∃ target, crew.state.targets.get? t = some target
  calls : ∀ c call, crew.state.calls.get? c = some call → call.target = t ∧ start.Knows t call.flag
  fits : ∀ name, (crew.workers name).Fits crew.state (start.Knows t) start.Nests name
  /-- What is under way is in a frame of its thread. -/
  covered : ∀ c call, crew.state.calls.get? c = some call → call.phase.isOver = false →
    ∃ frame ∈ (crew.workers call.thread).frames, frame.call = c

theorem Starts.inv (starts : start.Starts t) : start.Inv start t where
  run := ⟨[], .start⟩
  alive := starts.fresh.violation
  target := starts.target
  calls c call hc := by
    rw [starts.fresh.calls c] at hc
    cases hc
  fits name := by
    refine .of_idle (starts.idle name) ?_
    exact Routine.descends (starts.known name) (fun f g nests => ⟨name, nests⟩) nofun
  covered c call hc := by
    rw [starts.fresh.calls c] at hc
    cases hc

namespace Inv

/-- A thread may be replaced by one whose frames fit as well. -/
theorem put (inv : start.Inv crew t)
    (fits : w.Fits crew.state (start.Knows t) start.Nests name)
    (covered : ∀ c call, crew.state.calls.get? c = some call → call.phase.isOver = false →
      call.thread = name → ∃ frame ∈ w.frames, frame.call = c) :
    start.Inv (crew.put crew.state name w) t where
  run := inv.run
  alive := inv.alive
  target := inv.target
  calls := inv.calls
  fits other := by
    by_cases same : other = name
    · subst same
      rw [workers_put_self]
      exact fits
    · rw [workers_put_of_ne _ _ _ same]
      exact inv.fits other
  covered c call hc active := by
    by_cases same : call.thread = name
    · rw [same, workers_put_self]
      exact covered c call hc active same
    · rw [workers_put_of_ne _ _ _ same]
      exact inv.covered c call hc active

/-- An action about a call that no frame covers from above. -/
theorem act (starts : start.Starts t) (inv : start.Inv crew t) {a : Action α}
    (possible : crew.state.Possible a) (safe : (crew.state.act a).violation = none)
    (old : ∀ call, a ≠ .issue call)
    (spares : ∀ name, ∀ frame ∈ (crew.workers name).frames.tail, a.subject? ≠ some frame.call) :
    start.Inv { crew with state := crew.state.act a } t := by
  obtain ⟨past, run⟩ := inv.run
  have fresh := absent_nextKey (run.board_inv starts.fresh)
  have before {c : Nat} {call : Call α} (hc : (crew.state.act a).calls.get? c = some call) :
      ∃ mine, crew.state.calls.get? c = some mine ∧ mine.Alike call := by
    rcases calls_act hc with ⟨issued, -⟩ | ⟨mine, hmine, becomes⟩
    · exact absurd issued (old call)
    · exact ⟨mine, hmine, becomes.alike⟩
  exact {
    run := ⟨_, run.step inv.alive possible trivial⟩
    alive := safe
    target := exists_target_act inv.alive possible inv.target
    calls := fun c call hc => by
      obtain ⟨mine, hmine, alike⟩ := before hc
      rw [alike.target, alike.flag]
      exact inv.calls c mine hmine
    fits := fun name => (inv.fits name).act inv.alive possible fresh (spares name)
    covered := fun c call hc active => by
      obtain ⟨mine, hmine, alike⟩ := before hc
      rw [alike.thread]
      exact inv.covered c mine hmine (isOver_of_act inv.alive possible fresh hmine hc active) }

/-- A thread begins a call from where it stands. -/
theorem begin (starts : start.Starts t) (inv : start.Inv crew t) {enclosing : Option Nat}
    {flag : Nat} {body : Routine} (fits : w.Fits crew.state (start.Knows t) start.Nests name)
    (covered : ∀ c call, crew.state.calls.get? c = some call → call.phase.isOver = false →
      call.thread = name → ∃ frame ∈ w.frames, frame.call = c)
    (runs : ∀ frame ∈ w.frames, crew.state.phaseOf frame.call = .running)
    (inside : ∀ outer, enclosing = some outer → crew.state.phaseOf outer = .running)
    (deeper : ∀ top below, w.frames = top :: below → start.Nests top.flag flag)
    (knows : start.Knows t flag)
    (descends : body.Descends (start.Knows t) start.Nests (some flag)) :
    start.Inv (crew.begin t name enclosing flag body w) t := by
  obtain ⟨past, run⟩ := inv.run
  have board := run.board_inv starts.fresh
  have fresh := absent_nextKey board
  let call : Call α :=
    { flavour := .blocking, thread := name, enclosing, target := t, flag, phase := .arriving }
  have there : ∃ f, crew.state.flags.get? flag = some f := by
    obtain ⟨f, hf, -⟩ := knows
    have hid := (run.static starts.fresh).2 flag
    rw [show start.state.board.flag? flag = some f from hf] at hid
    obtain ⟨f', hf', -⟩ := Option.map_eq_some_iff.mp hid
    exact ⟨f', hf'⟩
  have possible : crew.state.Possible (.issue call) :=
    { phase := Or.inr rfl, initiator := rfl, flag := there, target := inv.target
      enclosing := inside }
  have here : (crew.state.act (.issue call)).calls.get? crew.state.nextKey = some call :=
    Store.get?_set_self ..
  have kept {other : String} {w : Worker}
      (fits : w.Fits crew.state (start.Knows t) start.Nests other) :
      w.Fits (crew.state.act (.issue call)) (start.Knows t) start.Nests other :=
    fits.act inv.alive possible fresh fun _ _ => nofun
  have runs' : ∀ frame ∈ w.frames,
      (crew.state.act (.issue call)).phaseOf frame.call = .running := fun frame mem =>
    running_act inv.alive possible (runs frame mem) fresh nofun nofun
  exact {
    run := ⟨_, run.step inv.alive possible trivial⟩
    alive := inv.alive
    target := inv.target
    calls := fun c other hc => by
      rcases calls_act (a := .issue call) hc with ⟨issued, -⟩ | ⟨mine, hmine, becomes⟩
      · cases issued
        exact ⟨rfl, knows⟩
      · rw [becomes.alike.target, becomes.alike.flag]
        exact inv.calls c mine hmine
    fits := fun other => by
      by_cases same : other = name
      · subst same
        rw [Crew.begin, workers_put_self]
        exact (kept fits).push here rfl rfl runs' deeper descends
      · rw [Crew.begin, workers_put_of_ne _ _ _ same]
        exact kept (inv.fits other)
    covered := fun c other hc active => by
      rcases calls_act (a := .issue call) hc with ⟨issued, rfl⟩ | ⟨mine, hmine, becomes⟩
      · cases issued
        rw [Crew.begin, workers_put_self]
        exact ⟨_, List.mem_cons_self, rfl⟩
      · have under := isOver_of_act (a := .issue call) inv.alive possible fresh hmine hc active
        rw [becomes.alike.thread]
        by_cases same : mine.thread = name
        · obtain ⟨frame, mem, hframe⟩ := covered c mine hmine under same
          rw [same, Crew.begin, workers_put_self]
          exact ⟨frame, List.mem_cons_of_mem _ mem, hframe⟩
        · rw [Crew.begin, workers_put_of_ne _ _ _ same]
          exact inv.covered c mine hmine under }

/-- What a call of the crew goes through. -/
theorem executorOf (inv : start.Inv crew t) {c : Nat} {call : Call α}
    (hc : crew.state.calls.get? c = some call) :
    ∃ executor, crew.state.executorOf call = some executor := by
  obtain ⟨target, ht⟩ := inv.target
  obtain ⟨htarget, -⟩ := inv.calls c call hc
  rw [State.executorOf, htarget, ht]
  exact ⟨_, rfl⟩

/-- No step of a call aborts. -/
theorem safe (starts : start.Starts t) (inv : start.Inv crew t) {c : Nat} {call : Call α}
    (hc : crew.state.calls.get? c = some call) :
    (crew.state.advance c).1.violation = none := by
  obtain ⟨past, run⟩ := inv.run
  obtain ⟨executor, through⟩ := inv.executorOf hc
  cases executor with
  | registry r =>
    refine (violation_advance (run.board_inv starts.fresh) (run.hall_inv starts.fresh) ?_ hc
      through).trans inv.alive
    exact fun c c' call call' hc hc' _ _ same =>
      run.flag_eq starts.fresh starts.differ hc hc' same
  | table table =>
    obtain ⟨htarget, flag, hflag, within⟩ := inv.calls c call hc
    obtain ⟨hstatic, hids⟩ := run.static starts.fresh
    have htable := table?_board through
    rw [hstatic, htarget] at htable
    obtain ⟨table₀, maps₀, count⟩ := exists_maps htable
    obtain ⟨target, ht, he⟩ := target_of_executorOf through
    have hid : (crew.state.flagOf call).id = flag.id := by
      have hid := hids call.flag
      rw [known_flagOf (run.board_inv starts.fresh) hc,
        show start.state.board.flag? call.flag = some flag from hflag] at hid
      exact Option.some.inj hid
    by_contra aborts
    obtain ⟨-, outside⟩ := run.of_aborts starts.fresh (starts.slots _ _ maps₀) inv.alive hc
      ⟨⟨target, ht, he⟩, rfl⟩ aborts
    rw [hid, ← count] at outside
    exact outside (within _ _ maps₀)

/-- An action about the innermost call of a thread is about no call below. -/
theorem spares (inv : start.Inv crew t) (acyclic : ∀ f, ¬TransGen start.Nests f f) {top : Frame}
    {below : List Frame} (frames : (crew.workers name).frames = top :: below) (other : String) :
    ∀ frame ∈ (crew.workers other).frames.tail, some top.call ≠ some frame.call := by
  intro frame mem same
  have same : top.call = frame.call := Option.some.inj same
  obtain ⟨call, hc, hthread, -⟩ := (inv.fits other).mine frame (List.mem_of_mem_tail mem)
  obtain ⟨call', hc', hthread', -⟩ := (inv.fits name).mine top (by
    rw [frames]
    exact List.mem_cons_self)
  rw [same, hc] at hc'
  cases hc'
  obtain rfl : other = name := hthread.symm.trans hthread'
  rw [frames] at mem
  exact (inv.fits other).ne_top acyclic frames mem same.symm

/-- Nothing is under way on a thread without frames. -/
theorem covered_nil (inv : start.Inv crew t) (frames : (crew.workers name).frames = []) {c : Nat}
    {call : Call α} (hc : crew.state.calls.get? c = some call)
    (active : call.phase.isOver = false) (thread : call.thread = name) : False := by
  obtain ⟨frame, mem, -⟩ := inv.covered c call hc active
  rw [thread, frames] at mem
  cases mem

/-- When the innermost call is over, what is under way is below. -/
theorem covered_below (inv : start.Inv crew t) {top : Frame} {below : List Frame}
    (frames : (crew.workers name).frames = top :: below) {outcome : Outcome α}
    (phase : crew.state.phaseOf top.call = .ended outcome) {c : Nat} {call : Call α}
    (hc : crew.state.calls.get? c = some call) (active : call.phase.isOver = false)
    (thread : call.thread = name) : ∃ frame ∈ below, frame.call = c := by
  obtain ⟨frame, mem, rfl⟩ := inv.covered c call hc active
  rw [thread, frames] at mem
  rcases List.mem_cons.mp mem with rfl | mem
  · rw [phaseOf_of_get? hc] at phase
    rw [phase] at active
    cases active
  · exact ⟨frame, mem, rfl⟩

/-- **Every step of a thread keeps the invariant.** -/
theorem step (starts : start.Starts t) (acyclic : ∀ f, ¬TransGen start.Nests f f)
    (inv : start.Inv crew t) (name : String) : start.Inv (crew.step t name) t := by
  have fits := inv.fits name
  unfold Crew.step
  cases frames : (crew.workers name).frames with
  | nil =>
    have none {c : Nat} {call : Call α} (hc : crew.state.calls.get? c = some call)
        (active : call.phase.isOver = false) (thread : call.thread = name) : False :=
      inv.covered_nil frames hc active thread
    cases rest : (crew.workers name).rest with
    | done | panic =>
      simp only [frames, rest]
      exact inv
    | call flag body next =>
      simp only [frames, rest]
      have descends := fits.rest
      rw [rest] at descends
      obtain ⟨knows, -, hbody, hnext⟩ := descends
      refine inv.begin starts (.of_idle rfl hnext) ?_ ?_ ?_ ?_ knows hbody
      · intro c call hc active thread
        exact (none hc active thread).elim
      · intro frame mem
        cases mem
      · intro outer henclosing
        cases henclosing
      · intro top below hcons
        cases hcons
  | cons top below =>
    obtain ⟨mine, hmine, hthread, hflag⟩ := fits.mine top (by
      rw [frames]
      exact List.mem_cons_self)
    have acts {a : Action α} (subject : a.subject? = some top.call)
        (possible : crew.state.Possible a) (safe : (crew.state.act a).violation = .none) :
        start.Inv { crew with state := crew.state.act a } t := by
      refine inv.act starts possible safe ?_ fun other => ?_
      · rintro call rfl
        cases subject
      · rw [subject]
        exact inv.spares acyclic frames other
    cases phase : crew.state.phaseOf top.call with
    | running =>
      have safe (ending : Ending) :
          (crew.state.act (.finish top.call ending .none)).violation = .none := by
        have hphase := phase
        rw [phaseOf_of_get? hmine] at hphase
        cases ending <;> simp only [State.act, finish, hmine, hphase] <;> exact inv.alive
      have ends (ending : Ending) (goes : ending ≠ .dropped) :
          start.Inv { crew with state := crew.state.act (.finish top.call ending .none) } t :=
        acts rfl goes (safe ending)
      cases rest : top.rest with
      | done =>
        simp only [frames, phase, rest]
        exact ends .returned (by decide)
      | panic =>
        simp only [frames, phase, rest]
        exact ends .unwound (by decide)
      | call flag body next =>
        simp only [frames, phase, rest]
        have descends := fits.rests top (by rw [frames]; exact List.mem_cons_self)
        rw [rest] at descends
        obtain ⟨knows, deeper, hbody, hnext⟩ := descends
        refine inv.begin starts (fits.retop frames hnext) ?_ ?_ ?_ ?_ knows hbody
        · intro c call hc active thread
          obtain ⟨frame, mem, rfl⟩ := inv.covered c call hc active
          rw [thread, frames] at mem
          rcases List.mem_cons.mp mem with rfl | mem
          · exact ⟨_, List.mem_cons_self, rfl⟩
          · exact ⟨frame, List.mem_cons_of_mem _ mem, rfl⟩
        · intro frame mem
          rcases List.mem_cons.mp mem with rfl | mem
          · exact phase
          · exact fits.running frame (by rw [frames]; exact mem)
        · rintro outer ⟨⟩
          exact phase
        · rintro top' below' ⟨⟩
          exact deeper _ rfl
    | ended outcome =>
      have pops : start.Inv (crew.put crew.state name
          { crew.workers name with frames := below }) t :=
        inv.put (fits.pop frames) fun c call hc active thread =>
          inv.covered_below frames phase hc active thread
      cases outcome with
      | unwound =>
        simp only [frames, phase]
        refine inv.put (fits.raise frames) fun c call hc active thread => ?_
        obtain ⟨frame, mem, rfl⟩ := inv.covered_below frames phase hc active thread
        cases below with
        | nil => cases mem
        | cons outer more =>
          rcases List.mem_cons.mp mem with rfl | mem
          · exact ⟨_, List.mem_cons_self, rfl⟩
          · exact ⟨frame, List.mem_cons_of_mem _ mem, rfl⟩
      | _ =>
        simp only [frames, phase]
        exact pops
    | _ =>
      simp only [frames, phase]
      cases locked : crew.state.isLockedOut top.call with
      | false => exact acts rfl locked (inv.safe starts hmine)
      | true =>
        rw [act_of_isLockedOut locked]
        exact inv

/-- The invariant holds of whatever a crew comes to. -/
theorem of_reaches (starts : start.Starts t) (acyclic : ∀ f, ¬TransGen start.Nests f f)
    (reached : start.Reaches t crew) : start.Inv crew t := by
  induction reached with
  | start => exact starts.inv
  | step _ name ih => exact ih.step starts acyclic name

end Inv

end Crew

end RunOnce.Protocol
