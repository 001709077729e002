import Mathlib.Logic.Function.Iterate
import RunOnce.Proofs.Agreement.Fits
import RunOnce.Proofs.Agreement.Program

/-!
# Runs of the machine as seen from a program

**A view** (`View`) of a machine is all that the run of a program depends on and all that it
changes: the stack, what happens to its innermost frame, the state of the protocol, and what was
told. The names and the thread that runs stay the same (`Scene`).

**Reaching** (`Reaches`). From one view another one is reached if every machine that shows the first
(`Machine.Shows`) comes to show the second. Each lemma is about a few steps of the machine on one
frame, and they are chained by `Reaches.trans`.
-/

namespace RunOnce.Scenario

open Protocol Region

/-- What the run of a program depends on, and what it changes. -/
structure View where
  stack : List Frame
  control : Control
  protocol : State Value
  told : List Happening
  /-- The future of the task that attempts are made of. -/
  trial : Option (List Frame) := none

/-- A machine runs a thread and looks like this. The main thread is the only one, if it is the one
that runs. -/
structure Machine.Shows (m : Machine) (scene : Scene) (v : View) : Prop where
  halt : m.halt = none
  names : m.names = scene.names
  strand : m.strand = scene.strand
  alone : m.strand = none → m.threads = {}
  stack : m.stack = v.stack
  control : m.control = v.control
  protocol : m.protocol = v.protocol
  told : m.told = v.told
  trial : (m.tasks.get? trialTask).bind (·.future) = v.trial

/-- Every machine in this scene that shows the one view comes to show the other. -/
def Reaches (scene : Scene) (v w : View) : Prop :=
  ∀ m : Machine, m.Shows scene v → ∃ n, (Machine.step^[n] m).Shows scene w

section

variable {scene : Scene} {u v w : View} {m : Machine} {S : Setting} {rest : List Frame}
  {s s' : State Value} {told : List Happening} {kind : Flavour} {more body : List Step}
  {c : Nat} {f : String} {outer : Option Nat} {initiator : Option Initiator} {phase : Phase Value}
  {handling : Handling} {text : String} {trial : Option (List Frame)}

theorem Reaches.trans (first : Reaches scene u v) (next : Reaches scene v w) :
    Reaches scene u w := by
  intro m shows
  obtain ⟨n, hn⟩ := first m shows
  obtain ⟨k, hk⟩ := next _ hn
  refine ⟨k + n, ?_⟩
  rw [Function.iterate_add_apply]
  exact hk

theorem Reaches.refl : Reaches scene v v := fun _ shows => ⟨0, shows⟩

theorem Reaches.of_step (step : ∀ m : Machine, m.Shows scene v → m.step.Shows scene w) :
    Reaches scene v w := fun m shows => ⟨1, step m shows⟩

namespace Machine.Shows

/-! ## Updates of a machine -/

theorem emit (shows : m.Shows scene v) (what : Happening) :
    (m.emit what).Shows scene
      { v with told := v.told ++ [what].filter Happening.isTold } := by
  have htold : (m.emit what).told = m.told ++ [what].filter Happening.isTold := by
    unfold Machine.emit Machine.told
    cases m.strand <;> simp
  obtain ⟨events, threadEvents, hemit⟩ : ∃ events threadEvents,
      m.emit what = { m with events, threadEvents } := by
    unfold Machine.emit
    split
    · exact ⟨_, _, rfl⟩
    · exact ⟨_, _, rfl⟩
  rw [shows.told, hemit] at htold
  rw [hemit]
  exact { shows with told := htold }

theorem emit_of_isTold (shows : m.Shows scene v) (what : Happening) (told : what.isTold = true) :
    (m.emit what).Shows scene { v with told := v.told ++ [what] } := by
  have hshows := shows.emit what
  rw [List.filter_cons_of_pos told] at hshows
  exact hshows

theorem emit_record (shows : m.Shows scene v) (r : Record) :
    (m.notify (.log r)).Shows scene v := by
  have hshows := shows.emit (.log (r.mapNames m.shownName))
  rw [List.filter_cons_of_neg (by simp [Happening.isTold]), List.filter_nil,
    List.append_nil] at hshows
  exact hshows

theorem next (shows : m.Shows scene v) (control : Control) :
    (m.next control).Shows scene { v with control } := by
  have hnext : m.next control = { m with control } := by
    simp [Machine.next, shows.halt]
  rw [hnext]
  exact { shows with control := rfl }

theorem advance (shows : m.Shows scene v) (goes : Goes v.protocol c s')
    (alive : s'.violation = none) :
    (m.advance c).Shows scene { v with protocol := s' } := by
  obtain ⟨records, hadvance⟩ := goes
  have hfold {w : View} (records : List Record) {m : Machine} (shows : m.Shows scene w) :
      ((records.map Notice.log).foldl notify m).Shows scene w := by
    induction records generalizing m with
    | nil => exact shows
    | cons r rest ih => exact ih (shows.emit_record r)
  have hkept : ({ m with protocol := s' } : Machine).Shows scene { v with protocol := s' } :=
    { shows with protocol := rfl }
  rw [Machine.advance, shows.protocol, hadvance, adopt]
  simp only [alive, Option.isSome_none, Bool.false_eq_true, if_false]
  exact hfold records hkept

/-- A call that is over is forgotten; the names keep its target and its flag. -/
theorem forgetCall (shows : m.Shows S.toScene v) (hf : f ∈ S.flags)
    (here : v.protocol.calls.get? c = some (S.visit f outer initiator phase)) :
    (m.forgetCall c).Shows S.toScene { v with protocol := v.protocol.forget c } := by
  have hflag : S.names.flags.values.contains (S.key f) = true := by
    rw [List.contains_iff_mem]
    exact List.mem_map.mpr ⟨_, Store.mem_entries_of_get? _ (S.named f hf), rfl⟩
  have htarget : (S.place = globalKey || S.names.targets.values.contains S.place) = true := by
    have hknown := S.known
    split at hknown
    · simp [Option.some.inj hknown]
    · have hmem : S.place ∈ S.names.targets.values :=
        List.mem_map.mpr ⟨_, Store.mem_entries_of_get? _ hknown, rfl⟩
      simp [hmem]
  have hgone : ({ m with protocol := v.protocol.forget c, wakers := m.wakers.erase c } :
      Machine).Shows S.toScene { v with protocol := v.protocol.forget c } :=
    { shows with protocol := rfl }
  have htargets {m : Machine} (names : m.names = S.names) :
      m.releaseTarget S.place = m := by
    rw [releaseTarget, names, htarget]
    simp
  have hflags {m : Machine} (names : m.names = S.names) : m.releaseFlag (S.key f) = m := by
    rw [releaseFlag, names, hflag]
    simp
  rw [Machine.forgetCall, shows.protocol, here]
  simp only [Setting.visit]
  rw [htargets hgone.names, hflags hgone.names]
  exact hgone

/-- The caller sees how a call ended. -/
theorem close (shows : m.Shows S.toScene v) (hf : f ∈ S.flags)
    (here : v.protocol.calls.get? c = some (S.visit f outer initiator phase))
    (inv : Invocation) (call : inv.call = c) (verdict : Verdict) (control : Control) :
    (m.close inv verdict control).Shows S.toScene
      { v with
        control
        protocol := v.protocol.forget c
        told := v.told ++ [.called inv.entry inv.name verdict] } := by
  subst call
  unfold Machine.close
  cases inv.flavour with
  | blocking => exact ((shows.emit_of_isTold _ rfl).forgetCall hf here).next control
  | async => exact ((shows.forgetCall hf here).emit_of_isTold _ rfl).next control

end Machine.Shows

/-! ## Steps of a script -/

/-- What was above the steps of a script returned, and they go on. -/
theorem reaches_more : Reaches scene ⟨.steps more kind :: rest, .returned, s, told, trial⟩
    ⟨.steps more kind :: rest, .go, s, told, trial⟩ := by
  have hsettling : Reaches scene ⟨.steps more kind :: rest, .returned, s, told, trial⟩
      ⟨.steps more kind :: rest, .settling, s, told, trial⟩ := .of_step fun m shows => by
    rw [Machine.step, shows.control]
    simp only [Machine.stepReturned, shows.stack]
    exact { shows with stack := rfl, control := rfl }
  have hsettled : Reaches scene ⟨.steps more kind :: rest, .settling, s, told, trial⟩
      ⟨.steps more kind :: rest, .go, s, told, trial⟩ := .of_step fun m shows => by
    have hsettle : m.settle = m.next .go := by
      unfold Machine.settle
      cases hstrand : m.strand with
      | some t => rfl
      | none => simp [Machine.runnable?, Machine.byName, shows.alone hstrand]
    rw [Machine.step, shows.control]
    show m.settle.Shows _ _
    rw [hsettle]
    exact shows.next .go
  exact hsettling.trans hsettled

/-- No step of a script is left. -/
theorem reaches_end : Reaches scene ⟨.steps [] kind :: rest, .go, s, told, none⟩
    ⟨rest, .returned, s, told, none⟩ := .of_step fun m shows => by
  rw [Machine.step, shows.control]
  simp only [Machine.stepGo, shows.stack]
  exact { shows with stack := rfl, control := rfl }

/-- A panic leaves the steps of a script. -/
theorem reaches_outward : Reaches scene ⟨.steps more kind :: rest, .raised text, s, told, none⟩
    ⟨rest, .raised text, s, told, none⟩ := .of_step fun m shows => by
  rw [Machine.step, shows.control]
  simp only [Machine.stepRaised, shows.stack]
  exact { shows with stack := rfl }

/-- A step panics. -/
theorem reaches_panic :
    Reaches scene ⟨.steps (.panic text :: more) kind :: rest, .go, s, told, none⟩
      ⟨.steps more kind :: rest, .raised text, s, told, none⟩ := .of_step fun m shows => by
  rw [Machine.step, shows.control]
  simp only [Machine.stepGo, shows.stack, Machine.runStep]
  have hrest : ({ m with stack := .steps more kind :: rest } : Machine).Shows scene
      ⟨.steps more kind :: rest, .go, s, told, none⟩ := { shows with stack := rfl }
  exact hrest.next (.raised text)

/-! ## Attempts -/

theorem Machine.Shows.enlist (shows : m.Shows scene v) (task : String) :
    (m.enlist task).Shows scene v := by
  unfold Machine.enlist
  split
  · exact shows
  · exact { shows with }

/-- A task is ready from its first frame on. -/
theorem reaches_enlist (task : String) :
    Reaches scene ⟨.enlist task :: rest, .go, s, told, trial⟩
      ⟨rest, .returned, s, told, trial⟩ := .of_step fun m shows => by
  rw [Machine.step, shows.control]
  simp only [Machine.stepGo, shows.stack]
  refine Machine.Shows.enlist ?_ task
  exact { shows with stack := rfl, control := rfl }

/-- Nothing is left to drop. -/
theorem reaches_dropped (isQuiet : Bool) (control : Control) :
    Reaches scene ⟨rest, .dropping [] isQuiet control, s, told, trial⟩
      ⟨rest, control, s, told, trial⟩ := .of_step fun m shows => by
  rw [Machine.step, shows.control]
  exact shows.next control

/-- The task of an attempt is made. The one of an attempt around it has no future while it is
polled, so nothing is dropped. -/
theorem reaches_task :
    Reaches scene ⟨.steps (.task trialTask body :: more) kind :: rest, .go, s, told, none⟩
      ⟨.steps more kind :: rest, .go, s, told, some [.steps body .async]⟩ := by
  have hmade : Reaches scene
      ⟨.steps (.task trialTask body :: more) kind :: rest, .go, s, told, none⟩
      ⟨.enlist trialTask :: .steps more kind :: rest, .dropping [] false .go, s, told,
        some [.steps body .async]⟩ := .of_step fun m shows => by
    rw [Machine.step, shows.control]
    simp only [Machine.stepGo, shows.stack, Machine.runStep, Machine.makeTask, shows.trial,
      Option.getD_none]
    refine Machine.Shows.next (v := ⟨.enlist trialTask :: .steps more kind :: rest, .go, s, told,
      some [.steps body .async]⟩) ?_ _
    refine { shows with stack := rfl, trial := ?_ }
    show ((m.tasks.set trialTask _).get? trialTask).bind _ = _
    rw [Store.get?_set_self]
    rfl
  exact ((hmade.trans (reaches_dropped false .go)).trans (reaches_enlist trialTask)).trans
    reaches_more

/-- The task of an attempt is polled. -/
theorem reaches_poll {frames : List Frame} : Reaches scene
    ⟨.steps (.poll trialTask :: more) kind :: rest, .go, s, told, some frames⟩
    ⟨frames ++ .poll trialTask :: .steps more kind :: rest, .go, s, told, none⟩ :=
  .of_step fun m shows => by
    rw [Machine.step, shows.control]
    obtain ⟨⟨status, future⟩, htask, rfl⟩ := Option.bind_eq_some_iff.mp shows.trial
    simp only [Machine.stepGo, shows.stack, Machine.runStep, Machine.startPoll, Machine.unready,
      htask]
    refine Machine.Shows.next (v := ⟨frames ++ .poll trialTask :: .steps more kind :: rest, .go, s,
      told, none⟩) ?_ _
    refine { shows with stack := rfl, trial := ?_ }
    show ((m.tasks.set trialTask _).get? trialTask).bind _ = _
    rw [Store.get?_set_self]
    rfl

/-- An attempt begins: its task is made and polled. -/
theorem reaches_attempt : Reaches scene
    ⟨.steps (.task trialTask body :: .poll trialTask :: more) kind :: rest, .go, s, told, none⟩
    ⟨.steps body .async :: .poll trialTask :: .steps more kind :: rest, .go, s, told, none⟩ :=
  reaches_task.trans reaches_poll

/-- An attempt is over when its part of the program is. -/
theorem reaches_attempted (play : Play) : Reaches scene
    ⟨.poll trialTask :: rest, play.control, s, told, none⟩
    ⟨rest, .returned, s, told ++ [.polled trialTask (Play.pollResult play.panic)], none⟩ :=
  .of_step fun m shows => by
    have hend (status : TaskStatus) (result : PollResult) :
        (m.endPoll trialTask status result rest).Shows scene
          ⟨rest, .returned, s, told ++ [.polled trialTask result], none⟩ := by
      refine Machine.Shows.next (v := ⟨rest, play.control, s,
        told ++ [.polled trialTask result], none⟩) ?_ _
      refine Machine.Shows.emit_of_isTold (v := ⟨rest, play.control, s, told, none⟩) ?_ _ rfl
      refine { shows with stack := rfl, trial := ?_ }
      show ((m.tasks.modify trialTask _).get? trialTask).bind _ = none
      rw [Store.get?_modify, if_pos rfl]
      have htrial := shows.trial
      cases htask : m.tasks.get? trialTask with
      | none => rfl
      | some task =>
        rw [htask] at htrial
        exact htrial
    rw [Machine.step, shows.control]
    unfold Play.control
    cases play.panic with
    | none =>
      simp only [Machine.stepReturned, shows.stack]
      exact hend .done .ready
    | some text =>
      simp only [Machine.stepRaised, shows.stack]
      exact hend .panicked (.panicked text)

/-! ## Calls -/

/-- The frame of a call. -/
def Setting.frame (S : Setting) (f : String) (handling : Handling) (body : List Step) (c : Nat)
    (hasEntered : Bool) : Frame :=
  .call { entry := .exec, name := f, call := c, flavour := S.flavour, body, handling, hasEntered }

theorem Machine.Shows.beginExec (shows : m.Shows S.toScene v) (hf : f ∈ S.flags)
    (enclosing : Machine.enclosingCall? v.stack = outer) :
    (m.beginExec S.flavour S.target f body handling).Shows S.toScene
      { v with
        stack := S.frame f handling body (v.protocol.issue (S.visit f outer none .arriving)).1
          false :: v.stack
        control := .go
        protocol := (v.protocol.issue (S.visit f outer none .arriving)).2 } := by
  have htarget : m.targetKey? S.target = some S.place := by
    rw [Machine.targetKey?, shows.names]
    exact S.known
  have hflag : m.names.flags.get? f = some (S.key f) := by
    rw [shows.names]
    exact S.named f hf
  have hthread : m.thread = S.thread := by
    rw [Machine.thread, shows.strand]
    rfl
  simp only [Machine.beginExec, htarget, hflag, Machine.begin, hthread, shows.stack, enclosing,
    shows.protocol]
  exact { shows with stack := rfl, control := rfl, protocol := rfl }

/-- A step makes a call. -/
theorem reaches_issue (hf : f ∈ S.flags) (enclosing : Machine.enclosingCall? rest = outer) :
    Reaches S.toScene
      ⟨.steps (.exec S.flavour S.target f body handling :: more) kind :: rest, .go, s, told, none⟩
      ⟨S.frame f handling body (s.issue (S.visit f outer none .arriving)).1 false ::
        .steps more kind :: rest, .go, (s.issue (S.visit f outer none .arriving)).2, told, none⟩ :=
  .of_step fun m shows => by
    rw [Machine.step, shows.control]
    simp only [Machine.stepGo, shows.stack, Machine.runStep]
    refine Machine.Shows.beginExec (v := ⟨.steps more kind :: rest, .go, s, told, none⟩) ?_ hf
      enclosing
    exact { shows with stack := rfl }

/-- Whether a call takes its next step by itself. -/
def Phase.isBusy : Phase Value → Bool
  | .arriving | .contending | .concluding => true
  | phase => Phase.isLeaving phase

/-- A call takes its next step. -/
theorem reaches_advance {entered : Bool} (goes : Goes s c s') (alive : s'.violation = none)
    (busy : Phase.isBusy (s.phaseOf c) = true) : Reaches S.toScene
      ⟨S.frame f handling body c entered :: rest, .go, s, told, none⟩
      ⟨S.frame f handling body c entered :: rest, .go, s', told, none⟩ := .of_step fun m shows => by
  have hstep : m.step = m.advance c := by
    rw [Machine.step, shows.control]
    simp only [Machine.stepGo, shows.stack, Setting.frame, Machine.goCall, shows.protocol]
    cases hphase : s.phaseOf c <;> simp_all [Phase.isBusy, Phase.isLeaving]
  rw [hstep]
  exact shows.advance goes alive

/-- A panic waits while the call is completed. -/
theorem reaches_advance_raised {entered : Bool} (goes : Goes s c s') (alive : s'.violation = none)
    (leaving : Phase.isLeaving (s.phaseOf c) = true) : Reaches S.toScene
      ⟨S.frame f handling body c entered :: rest, .raised text, s, told, none⟩
      ⟨S.frame f handling body c entered :: rest, .raised text, s', told, none⟩ :=
  .of_step fun m shows => by
    have hstep : m.step = m.advance c := by
      rw [Machine.step, shows.control]
      simp only [Machine.stepRaised, shows.stack, Setting.frame, Machine.raiseToCall,
        shows.protocol]
      cases hphase : s.phaseOf c <;> simp_all [Phase.isLeaving]
    rw [hstep]
    exact shows.advance goes alive

theorem Phase.isBusy_of_isLeaving {phase : Phase Value} (leaving : Phase.isLeaving phase = true) :
    Phase.isBusy phase = true := by
  cases phase <;> first | rfl | cases leaving

/-- A call completes, after its initializer has returned. -/
theorem reaches_completes {entered : Bool} (completes : Completes c s s') : Reaches S.toScene
    ⟨S.frame f handling body c entered :: rest, .go, s, told, none⟩
    ⟨S.frame f handling body c entered :: rest, .go, s', told, none⟩ := by
  induction completes with
  | rests => exact .refl
  | step _ leaving goes alive ih =>
    exact ih.trans (reaches_advance goes alive (Phase.isBusy_of_isLeaving leaving))

/-- A call completes, while a panic waits. -/
theorem reaches_completes_raised {entered : Bool} (completes : Completes c s s') : Reaches S.toScene
    ⟨S.frame f handling body c entered :: rest, .raised text, s, told, none⟩
    ⟨S.frame f handling body c entered :: rest, .raised text, s', told, none⟩ := by
  induction completes with
  | rests => exact .refl
  | step _ leaving goes alive ih => exact ih.trans (reaches_advance_raised goes alive leaving)

/-- An initializer begins. -/
theorem reaches_enter (running : s.phaseOf c = .running) : Reaches S.toScene
    ⟨S.frame f handling body c false :: rest, .go, s, told, none⟩
    ⟨.steps body S.flavour :: S.frame f handling body c true :: rest, .go, s,
      told ++ [.enter f], none⟩ := .of_step fun m shows => by
  rw [Machine.step, shows.control]
  simp only [Machine.stepGo, shows.stack, Setting.frame, Machine.goCall, shows.protocol, running]
  have hentered := shows.emit_of_isTold (.enter f) rfl
  refine Machine.Shows.next (v := ⟨.steps body S.flavour :: S.frame f handling body c true :: rest,
    .go, s, told ++ [.enter f], none⟩) ?_ _
  exact { hentered with stack := rfl }

/-- An initializer returns. -/
theorem reaches_leave : Reaches S.toScene
    ⟨S.frame f handling body c true :: rest, .returned, s, told, none⟩
    ⟨S.frame f handling body c true :: rest, .go, s.finish c .returned none,
      told ++ [.leave f], none⟩ := .of_step fun m shows => by
  rw [Machine.step, shows.control]
  simp only [Machine.stepReturned, shows.stack, Setting.frame, Machine.returnToCall]
  have hleft := shows.emit_of_isTold (.leave f) rfl
  refine Machine.Shows.next (v := ⟨S.frame f handling body c true :: rest, .returned,
    s.finish c .returned none, told ++ [.leave f], none⟩) ?_ _
  exact { hleft with protocol := congrArg (State.finish · c .returned none) hleft.protocol }

/-- A panic reaches a call whose initializer runs. -/
theorem reaches_unwind (running : s.phaseOf c = .running) : Reaches S.toScene
    ⟨S.frame f handling body c true :: rest, .raised text, s, told, none⟩
    ⟨S.frame f handling body c true :: rest, .raised text, s.finish c .unwound none, told, none⟩ :=
  .of_step fun m shows => by
    rw [Machine.step, shows.control]
    simp only [Machine.stepRaised, shows.stack, Setting.frame, Machine.raiseToCall,
      shows.protocol, running]
    exact { shows with stack := rfl, protocol := rfl }

/-- The caller sees that a call passed. -/
theorem reaches_passed {entered : Bool} (hf : f ∈ S.flags)
    (here : s.calls.get? c = some (S.visit f outer initiator (.ended (.ok none)))) :
    Reaches S.toScene ⟨S.frame f handling body c entered :: rest, .go, s, told, none⟩
      ⟨rest, .returned, s.forget c, told ++ [.called .exec f (.ok none)], none⟩ :=
  .of_step fun m shows => by
    have hphase : s.phaseOf c = .ended (.ok none) := State.phaseOf_of_get? here
    rw [Machine.step, shows.control]
    simp only [Machine.stepGo, shows.stack, Setting.frame, Machine.goCall, shows.protocol, hphase]
    refine Machine.Shows.close (v := ⟨rest, .go, s, told, none⟩) ?_ hf here _ rfl (.ok none)
      .returned
    exact { shows with stack := rfl, protocol := rfl }

/-- The caller sees that a call was refused. -/
theorem reaches_refused {entered : Bool} {error : AccessError} (hf : f ∈ S.flags)
    (here : s.calls.get? c = some (S.visit f outer initiator (.ended (.failed error)))) :
    Reaches S.toScene ⟨S.frame f handling body c entered :: rest, .go, s, told, none⟩
      ⟨rest, if handling.unwraps then .raised error.message else .returned, s.forget c,
        told ++ [.called .exec f (.refused error)], none⟩ := .of_step fun m shows => by
  have hphase : s.phaseOf c = .ended (.failed error) := State.phaseOf_of_get? here
  rw [Machine.step, shows.control]
  simp only [Machine.stepGo, shows.stack, Setting.frame, Machine.goCall, shows.protocol, hphase]
  refine Machine.Shows.close (v := ⟨rest, .go, s, told, none⟩) ?_ hf here _ rfl (.refused error) _
  exact { shows with stack := rfl, protocol := rfl }

/-- The caller sees the panic of an initializer. -/
theorem reaches_panicked {entered : Bool} (hf : f ∈ S.flags)
    (here : s.calls.get? c = some (S.visit f outer initiator (.ended .unwound))) :
    Reaches S.toScene ⟨S.frame f handling body c entered :: rest, .raised text, s, told, none⟩
      ⟨rest, if handling.catches then .returned else .raised text, s.forget c,
        told ++ [.called .exec f (.panicked text)], none⟩ := .of_step fun m shows => by
  have hphase : s.phaseOf c = .ended .unwound := State.phaseOf_of_get? here
  rw [Machine.step, shows.control]
  simp only [Machine.stepRaised, shows.stack, Setting.frame, Machine.raiseToCall, shows.protocol,
    hphase]
  refine Machine.Shows.close (v := ⟨rest, .raised text, s, told, none⟩) ?_ hf here _ rfl
    (.panicked text) _
  exact { shows with stack := rfl, protocol := rfl }

end

end RunOnce.Scenario
