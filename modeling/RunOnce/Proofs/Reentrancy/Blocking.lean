import RunOnce.Proofs.Exclusion.Clear
import RunOnce.Proofs.Reentrancy.Refusal
import RunOnce.Proofs.Waiting.Lock

/-!
# Reentrancy of blocking calls

**Theorem (`blocking_reentrant_iff`).** Let threads make blocking calls, in initializers to any
depth, and let each flag be used through one registry or slot table. A call is told that it is
reentrant exactly when its thread runs an initializer for the same flag that it started through the
same target; then the flag is clear, this initializer encloses the call, and the call has not
entered. A call that is told has left everything untouched.

**Stacks** (`Stacked`). A thread does one thing at a time: it calls from the innermost initializer
that it runs, which does not end before the call is over (`Sequential`). So the calls of a thread
that are not over lie one inside another, all but the innermost run their initializers, and every
call is known by its thread. A call that is under way and meets the identity of its own thread is
therefore inside of the one that it meets, and not next to it.
-/

namespace RunOnce.Protocol

open Relation State

variable {α : Type} {s s₀ : State α} {a : Action α} {past : List (Moment α)} {c w : Nat}
  {call call' : Call α} {via : Nat → Nat} {rule : State α → Action α → Prop}

/-- Whether a thread can make a call from an initializer, or from none: it runs this initializer,
and no call that it made there is still under way. -/
def State.Ready (s : State α) (thread : String) : Option Nat → Prop
  | none => ∀ c call, s.calls.get? c = some call → call.thread = thread → call.phase.isOver = true
  | some outer => (∃ o, s.calls.get? outer = some o ∧ o.thread = thread) ∧
      ∀ c call, s.calls.get? c = some call → call.enclosing = some outer → call.phase.isOver = true

/-- Threads make blocking calls, and each of them does one thing at a time. All calls for a flag go
through one target. -/
def Sequential (via : Nat → Nat) (s : State α) : Action α → Prop
  | .issue call => call.flavour = .blocking ∧ call.target = via call.flag ∧
      s.Ready call.thread call.enclosing
  | .finish outer _ _ => ∀ c call, s.calls.get? c = some call → call.enclosing = some outer →
      call.phase.isOver = true
  | .advance _ | .abandon _ => True

/-- The thread runs an initializer for a flag, which it started through a target. -/
def State.RunsOn (s : State α) (thread : String) (t f w : Nat) : Prop :=
  ∃ call, s.calls.get? w = some call ∧ call.thread = thread ∧ call.target = t ∧ call.flag = f ∧
    call.phase = .running

/-- The calls of each thread lie one inside another. -/
structure Stacked (s : State α) : Prop where
  blocking : ∀ c call, s.calls.get? c = some call → call.flavour = .blocking
  named : ∀ c call who, s.calls.get? c = some call → call.initiator = some who →
    who = .thread call.thread
  below : ∀ c call outer, s.calls.get? c = some call → call.enclosing = some outer →
    ∃ o, s.calls.get? outer = some o ∧ o.thread = call.thread ∧
      (call.phase.isOver = false → o.phase = .running)
  nested : ∀ c c' call call', s.calls.get? c = some call → s.calls.get? c' = some call' →
    call.thread = call'.thread → call.phase.isOver = false → call'.phase.isOver = false →
    c = c' ∨ Encloses s c c' ∨ Encloses s c' c

/-- A call that is under way was so before. -/
theorem isOver_of_act (alive : s.violation = none) (possible : s.Possible a)
    (fresh : s.calls.get? s.nextKey = none) (hc : s.calls.get? c = some call)
    (hc' : (s.act a).calls.get? c = some call') (active : call'.phase.isOver = false) :
    call.phase.isOver = false := by
  rw [Bool.eq_false_iff]
  intro isOver
  have hsame := phaseOf_act_of_over alive possible hc isOver fresh
  rw [phaseOf_of_get? hc', phaseOf_of_get? hc] at hsame
  rw [hsame, isOver] at active
  cases active

/-! ## Stacks -/

namespace Stacked

/-- What encloses a call that is under way runs, on the same thread. -/
theorem running_of_encloses (h : Stacked s) (encloses : Encloses s w c)
    (hc : s.calls.get? c = some call) (active : call.phase.isOver = false) :
    ∃ o, s.calls.get? w = some o ∧ o.thread = call.thread ∧ o.phase = .running := by
  induction encloses generalizing call with
  | single link =>
    obtain ⟨mine, hmine, henclosing⟩ := link
    rw [hc] at hmine
    cases hmine
    obtain ⟨o, ho, hthread, hrunning⟩ := h.below _ call _ hc henclosing
    exact ⟨o, ho, hthread, hrunning active⟩
  | @tail b c _ link ih =>
    obtain ⟨mine, hmine, henclosing⟩ := link
    rw [hc] at hmine
    cases hmine
    obtain ⟨o, ho, hthread, hrunning⟩ := h.below c call b hc henclosing
    obtain ⟨top, htop, hsame, hruns⟩ := ih ho (by rw [hrunning active]; rfl)
    exact ⟨top, htop, hsame.trans hthread, hruns⟩

/-- A call is known by its thread. -/
theorem identify_eq (h : Stacked s) (hc : s.calls.get? c = some call) :
    s.identify call = (.thread call.thread, s) := by
  rcases s.identify_cases call with ⟨token, hin, -⟩ | ⟨-, -, he⟩ | ⟨-, async, -⟩
  · obtain ⟨outer, -, houter⟩ := exists_of_inherited? hin
    obtain ⟨o, ho, hwho⟩ := exists_of_tokenOf? houter
    cases h.named outer o _ ho hwho
  · exact he
  · rw [h.blocking c call hc] at async
    cases async

/-- Next to a call that is about to be made nothing of its thread is under way. -/
theorem nested_issue (h : Stacked s) (possible : call.IsNew s)
    (ready : s.Ready call.thread call.enclosing) (hc : s.calls.get? c = some call')
    (same : call'.thread = call.thread) (active : call'.phase.isOver = false) :
    ∃ outer, call.enclosing = some outer ∧ (c = outer ∨ Encloses s c outer) := by
  cases henclosing : call.enclosing with
  | none =>
    rw [henclosing] at ready
    rw [ready c call' hc same] at active
    cases active
  | some outer =>
    rw [henclosing] at ready
    obtain ⟨⟨o, ho, hthread⟩, hinner⟩ := ready
    have hrunning := possible.enclosing outer henclosing
    rw [phaseOf_of_get? ho] at hrunning
    have hactive : o.phase.isOver = false := by
      rw [hrunning]
      rfl
    refine ⟨outer, rfl, ?_⟩
    rcases h.nested c outer call' o hc ho (same.trans hthread.symm) active hactive with
      heq | hencloses | hencloses
    · exact Or.inl heq
    · exact Or.inr hencloses
    · -- The call would lie in another one that the initializer made and that is still under way.
      obtain ⟨x, ⟨inner, hx, hlink⟩, hunder⟩ := TransGen.head'_iff.mp hencloses
      have hover := hinner x inner hx hlink
      rcases reflTransGen_iff_eq_or_transGen.mp hunder with heq | hdeeper
      · subst heq
        rw [hc] at hx
        cases hx
        rw [hover] at active
        cases active
      · obtain ⟨o', ho', -, hruns⟩ := h.running_of_encloses hdeeper hc active
        rw [hx] at ho'
        cases ho'
        rw [hruns] at hover
        cases hover

/-! ## One action -/

section

variable (h : Stacked s) (alive : s.violation = none) (possible : s.Possible a)
  (admitted : Sequential via s a) (fresh : s.calls.get? s.nextKey = none)

include h

theorem blocking_act (admitted : Sequential via s a) (hc : (s.act a).calls.get? c = some call) :
    call.flavour = .blocking := by
  rcases calls_act hc with ⟨rfl, -⟩ | ⟨before, hbefore, becomes⟩
  · exact admitted.1
  · rw [becomes.alike.flavour]
    exact h.blocking c before hbefore

theorem named_act {who : Initiator} (possible : s.Possible a)
    (hc : (s.act a).calls.get? c = some call) (hwho : call.initiator = some who) :
    who = .thread call.thread := by
  rcases calls_act hc with ⟨rfl, -⟩ | ⟨before, hbefore, becomes⟩
  · rw [possible.initiator] at hwho
    cases hwho
  · have hthread : call.thread = before.thread := becomes.alike.thread
    rw [hthread]
    rcases becomes.initiator.2 with hsame | ⟨-, -, hnow, -⟩
    · rw [hsame] at hwho
      exact h.named c before who hbefore hwho
    · rw [hwho, h.identify_eq hbefore] at hnow
      exact Option.some.inj hnow

include alive possible admitted fresh

theorem below_act {outer : Nat} (hc : (s.act a).calls.get? c = some call)
    (henclosing : call.enclosing = some outer) :
    ∃ o, (s.act a).calls.get? outer = some o ∧ o.thread = call.thread ∧
      (call.phase.isOver = false → o.phase = .running) := by
  have hkept {o : Call α} (ho : s.calls.get? outer = some o) :
      ∃ o', (s.act a).calls.get? outer = some o' ∧ o'.thread = o.thread := by
    obtain ⟨o', ho', becomes⟩ := call_act (a := a) fresh ho
    exact ⟨o', ho', becomes.alike.thread⟩
  rcases calls_act hc with ⟨rfl, -⟩ | ⟨before, hbefore, becomes⟩
  · have hready := admitted.2.2
    rw [henclosing] at hready
    obtain ⟨⟨o, ho, hthread⟩, -⟩ := hready
    obtain ⟨o', ho', hsame⟩ := hkept ho
    refine ⟨o', ho', hsame.trans hthread, fun _ => ?_⟩
    have hrunning := running_act alive possible (possible.enclosing outer henclosing) fresh nofun
      nofun
    rwa [phaseOf_of_get? ho'] at hrunning
  · have hlink : before.enclosing = some outer := becomes.initiator.1.symm.trans henclosing
    have hthread : call.thread = before.thread := becomes.alike.thread
    obtain ⟨o, ho, hsame, hruns⟩ := h.below c before outer hbefore hlink
    obtain ⟨o', ho', hsame'⟩ := hkept ho
    refine ⟨o', ho', hsame'.trans (hsame.trans hthread.symm), fun active => ?_⟩
    have hactive := isOver_of_act alive possible fresh hbefore hc active
    have hrunning : s.phaseOf outer = .running := (phaseOf_of_get? ho).trans (hruns hactive)
    have hnow := running_act alive possible hrunning fresh ?_ ?_
    · rwa [phaseOf_of_get? ho'] at hnow
    · rintro ending value rfl
      rw [admitted c before hbefore hlink] at hactive
      cases hactive
    · rintro rfl
      obtain ⟨mine, hmine, async, -⟩ := possible
      rw [h.blocking outer mine hmine] at async
      cases async

theorem nested_act {c' : Nat} (hc : (s.act a).calls.get? c = some call)
    (hc' : (s.act a).calls.get? c' = some call') (same : call.thread = call'.thread)
    (active : call.phase.isOver = false) (active' : call'.phase.isOver = false) :
    c = c' ∨ Encloses (s.act a) c c' ∨ Encloses (s.act a) c' c := by
  -- A call that is new lies inside of what is under way.
  have hnew {k k' : Nat} {new other : Call α} (hnow : (s.act a).calls.get? k' = some new)
      (hother : (s.act a).calls.get? k = some other) (issued : a = .issue new)
      (threads : other.thread = new.thread) (under : other.phase.isOver = false)
      {before : Call α} (hbefore : s.calls.get? k = some before)
      (becomes : Becomes s a (s.act a) k before other) : Encloses (s.act a) k k' := by
    subst issued
    have hthread : other.thread = before.thread := becomes.alike.thread
    obtain ⟨outer, henclosing, hcases⟩ := h.nested_issue possible admitted.2.2 hbefore
      (hthread.symm.trans threads) (isOver_of_act alive possible fresh hbefore hother under)
    refine encloses_iff.mpr ⟨new, outer, hnow, henclosing, ?_⟩
    exact hcases.imp id (Encloses.act fresh)
  rcases calls_act hc with ⟨hissue, hkey⟩ | ⟨before, hbefore, becomes⟩
  · rcases calls_act hc' with ⟨-, hkey'⟩ | ⟨before', hbefore', becomes'⟩
    · exact Or.inl (hkey.trans hkey'.symm)
    · exact Or.inr (Or.inr (hnew hc hc' hissue same.symm active' hbefore' becomes'))
  · rcases calls_act hc' with ⟨hissue, -⟩ | ⟨before', hbefore', becomes'⟩
    · exact Or.inr (Or.inl (hnew hc' hc hissue same active hbefore becomes))
    · have hthread : call.thread = before.thread := becomes.alike.thread
      have hthread' : call'.thread = before'.thread := becomes'.alike.thread
      rcases h.nested c c' before before' hbefore hbefore'
          (hthread.symm.trans (same.trans hthread'))
          (isOver_of_act alive possible fresh hbefore hc active)
          (isOver_of_act alive possible fresh hbefore' hc' active') with heq | hen | hen
      · exact Or.inl heq
      · exact Or.inr (Or.inl (hen.act fresh))
      · exact Or.inr (Or.inr (hen.act fresh))

/-- **Every action keeps the stacks.** -/
theorem act : Stacked (s.act a) where
  blocking _ _ hc := h.blocking_act admitted hc
  named _ _ _ hc hwho := h.named_act possible hc hwho
  below _ _ _ hc henclosing := h.below_act alive possible admitted fresh hc henclosing
  nested _ _ _ _ hc hc' same active active' :=
    h.nested_act alive possible admitted fresh hc hc' same active active'

end

end Stacked

/-! ## Runs -/

theorem Run.stacked (run : Run (Sequential via) s₀ past s) (fresh : s₀.IsFresh) : Stacked s := by
  induction run with
  | start =>
    have hnone {c : Nat} {call : Call α} (hc : s₀.calls.get? c = some call) : False := by
      rw [fresh.calls c] at hc
      cases hc
    exact { blocking := fun _ _ hc => (hnone hc).elim, named := fun _ _ _ hc => (hnone hc).elim
            below := fun _ _ _ hc => (hnone hc).elim
            nested := fun _ _ _ _ hc => (hnone hc).elim }
  | step run alive possible admitted ih =>
    exact ih.act alive possible admitted (run.fresh_keys fresh (Nat.le_refl _))

/-- Calls of a thread have one identity. -/
theorem Run.initiator_of_thread (run : Run (Sequential via) s₀ past s) (fresh : s₀.IsFresh)
    {outer : Call α} (hw : s.calls.get? w = some outer) (inFlight : outer.phase.isInFlight = true)
    (hc : s.calls.get? c = some call) (same : outer.thread = call.thread) :
    outer.initiator = some (s.identify call).1 := by
  have stacked := run.stacked fresh
  obtain ⟨who, hwho⟩ := Option.ne_none_iff_exists'.mp
    ((run.lineage fresh).inside w outer hw inFlight)
  rw [hwho, stacked.named w outer who hw hwho, stacked.identify_eq hc, same]

theorem State.RunsOn.inFlight {thread : String} {t f : Nat} (runs : s.RunsOn thread t f w) :
    ∃ outer, s.calls.get? w = some outer ∧ outer.thread = thread ∧ outer.target = t ∧
      outer.flag = f ∧ outer.phase.isInFlight = true := by
  obtain ⟨outer, hw, hthread, htarget, hflag, hrunning⟩ := runs
  exact ⟨outer, hw, hthread, htarget, hflag, by rw [hrunning]; rfl⟩

/-- While a thread runs the initializer of a flag, its other calls for the flag lie inside of it. -/
theorem Run.recurs_of_runsOn (run : Run (Sequential via) s₀ past s) (fresh : s₀.IsFresh)
    (hc : s.calls.get? c = some call) (active : call.phase.isOver = false) (other : w ≠ c)
    (runs : s.RunsOn call.thread call.target call.flag w) :
    ∃ outer, s.Recurs w c outer call ∧ outer.thread = call.thread := by
  have stacked := run.stacked fresh
  obtain ⟨outer, hw, hthread, htarget, hflag, inFlight⟩ := runs.inFlight
  have hid : (s.flagOf call).id = (s.flagOf outer).id := by rw [flagOf, flagOf, hflag]
  refine ⟨outer, { here := hw, mine := hc, encloses := ?_, inFlight := inFlight
                   target := htarget.symm, id := hid }, hthread⟩
  have hactive : outer.phase.isOver = false := by
    obtain ⟨mine, hmine, -, -, -, hrunning⟩ := runs
    rw [hw] at hmine
    cases hmine
    rw [hrunning]
    rfl
  rcases stacked.nested w c outer call hw hc hthread hactive active with heq | hen | hen
  · exact absurd heq other
  · exact hen
  · -- The call would run an initializer for the flag, too.
    obtain ⟨mine, hmine, -, hruns⟩ := stacked.running_of_encloses hen hw hactive
    rw [hc] at hmine
    cases hmine
    exact absurd (InFlight.unique (run.board_inv fresh) (run.lineage fresh)
      ⟨outer, hw, htarget, hid.symm, inFlight⟩ ⟨call, hc, rfl, rfl, by rw [hruns]; rfl⟩) other

/-- Flags that are different tell their handles apart. -/
def State.HandlesDiffer (s : State α) : Prop :=
  ∀ f f' flag flag', s.flags.get? f = some flag → s.flags.get? f' = some flag' →
    flag.id = flag'.id → f = f'

theorem Run.flag_eq (run : Run rule s₀ past s) (fresh : s₀.IsFresh) (differ : s₀.HandlesDiffer)
    {outer : Call α} (hw : s.calls.get? w = some outer) (hc : s.calls.get? c = some call)
    (same : (s.flagOf outer).id = (s.flagOf call).id) : outer.flag = call.flag := by
  have inv := run.board_inv fresh
  have hstart {k : Nat} {mine : Call α} (hk : s.calls.get? k = some mine) :
      ∃ flag, s₀.flags.get? mine.flag = some flag ∧ flag.id = (s.flagOf mine).id := by
    have hid := (run.static fresh).2 mine.flag
    rw [known_flagOf inv hk] at hid
    exact Option.map_eq_some_iff.mp hid.symm
  obtain ⟨flag, hflag, hid⟩ := hstart hw
  obtain ⟨flag', hflag', hid'⟩ := hstart hc
  exact differ _ _ flag flag' hflag hflag' (hid.trans (same.trans hid'.symm))

/-- A call that is told meets an initializer of its own thread, inside of which it lies. -/
theorem Run.runsOn_of_told (run : Run (Sequential via) s₀ past s) (fresh : s₀.IsFresh)
    (differ : s₀.HandlesDiffer) (possible : s.Possible (.advance c))
    (hc : s.calls.get? c = some call) (contending : call.phase = .contending)
    (told : ((s.enter c call).1.phaseOf c).isReentrant = true) :
    ∃ w, s.RunsOn call.thread call.target call.flag w := by
  have inv := run.board_inv fresh
  have lineage := run.lineage fresh
  have stacked := run.stacked fresh
  obtain ⟨-, held⟩ := (reentrant_enter_iff inv possible hc contending).mp told
  obtain ⟨w, hclaim⟩ := (inv.mem_held _ _ _).mp held
  obtain ⟨⟨outer, hw, htarget, hid, inFlight⟩, mine, hmine, hwho⟩ :=
    (claim?_iff inv lineage).mp hclaim
  rw [hw] at hmine
  cases hmine
  have hthread : outer.thread = call.thread := by
    have hsame := stacked.named w outer _ hw hwho
    rw [stacked.identify_eq hc] at hsame
    exact (Initiator.thread.inj hsame).symm
  have hactive : outer.phase.isOver = false := by
    cases hp : outer.phase with
    | ended outcome =>
      rw [hp] at inFlight
      cases inFlight
    | _ => rfl
  refine ⟨w, outer, hw, hthread, htarget, run.flag_eq fresh differ hw hc hid, ?_⟩
  have hunder : call.phase.isOver = false := by
    rw [contending]
    rfl
  rcases stacked.nested w c outer call hw hc hthread hactive hunder with rfl | hen | hen
  · rw [hw] at hc
    cases hc
    rw [contending] at inFlight
    cases inFlight
  · obtain ⟨mine, hmine, -, hruns⟩ := stacked.running_of_encloses hen hc hunder
    rw [hw] at hmine
    cases hmine
    exact hruns
  · obtain ⟨mine, hmine, -, hruns⟩ := stacked.running_of_encloses hen hw hactive
    rw [hc] at hmine
    cases hmine
    rw [contending] at hruns
    cases hruns

/-- While a thread runs the initializer of a flag, the flag is clear for its other calls. -/
theorem Run.recurs_clear (run : Run (Sequential via) s₀ past s) (fresh : s₀.IsFresh)
    (hc : s.calls.get? c = some call) (active : call.phase.isOver = false) (other : w ≠ c)
    (runs : s.RunsOn call.thread call.target call.flag w) :
    ∃ outer, s.Recurs w c outer call ∧ outer.thread = call.thread ∧
      (s.flagOf call).isDone = false := by
  obtain ⟨outer, recurs, hthread⟩ := run.recurs_of_runsOn fresh hc active other runs
  obtain ⟨mine, hmine, -, -, hflag, inFlight⟩ := runs.inFlight
  have through : Run (UsedThrough (via call.flag) (· = call.flag)) s₀ past s := by
    refine run.weaken fun past s' a _ admitted => ?_
    cases a with
    | issue new =>
      intro hnew
      rw [← hnew]
      exact admitted.2.1
    | advance | finish | abandon => trivial
  have hclear := through.clear_of_inFlight fresh hmine hflag inFlight
  rw [flagOf, hflag] at hclear
  exact ⟨outer, recurs, hthread, hclear⟩

/-- **When a blocking call is told that it is reentrant.** This happens in its locked section,
exactly when its thread runs an initializer for the same flag that it started through the same
target. While the thread does so, the flag is clear, this initializer encloses every other call of
the thread for the flag that is under way, and none of these has got further than to its locked
section. A lock that is taken is given back. Whoever was told has changed nothing and has not run
its initializer. -/
theorem blocking_reentrant_iff (run : Run (Sequential via) s₀ past s) (fresh : s₀.IsFresh)
    (differ : s₀.HandlesDiffer) (alive : s.violation = none)
    (hc : s.calls.get? c = some call) :
    (call.phase.isReentrant = false → ∀ a, s.Possible a →
      ((s.act a).phaseOf c = .ended (.failed (.reentrant (s.flagOf call).id)) ↔
        a = .advance c ∧ call.phase = .contending ∧
          ∃ w, s.RunsOn call.thread call.target call.flag w)) ∧
    (∀ w, w ≠ c → call.phase.isOver = false → s.RunsOn call.thread call.target call.flag w →
      (s.flagOf call).isDone = false ∧ Encloses s w c ∧ call.phase.isEarly = true) ∧
    (s.isLockedOut c = true → ∃ k, s.FreedBy c k) ∧
    (call.phase.isReentrant = true → Untouched past c) := by
  refine ⟨fun untold a possible => ?_, fun w other active runs => ?_,
    (run.locks fresh).freed alive, fun told => ?_⟩
  · constructor
    · intro hnow
      have told : ((s.act a).phaseOf c).isReentrant = true := by
        rw [hnow]
        rfl
      obtain ⟨hact, contending, hmeets⟩ :=
        (reentrant_act_iff alive (run.fresh_keys fresh (Nat.le_refl _)) hc untold).mp told
      rw [hact] at possible
      exact ⟨hact, contending, run.runsOn_of_told fresh differ possible hc contending hmeets⟩
    · rintro ⟨rfl, contending, w, runs⟩
      have other : w ≠ c := by
        rintro rfl
        obtain ⟨mine, hmine, -, -, -, hruns⟩ := runs
        rw [hc] at hmine
        cases hmine
        rw [contending] at hruns
        cases hruns
      obtain ⟨outer, recurs, hthread, hclear⟩ :=
        run.recurs_clear fresh hc (by rw [contending]; rfl) other runs
      exact (recurs.told (run.board_inv fresh) (run.lineage fresh) alive possible hclear contending
        (run.initiator_of_thread fresh recurs.here recurs.inFlight hc hthread)).1
  · obtain ⟨outer, recurs, -, hclear⟩ := run.recurs_clear fresh hc active other runs
    refine ⟨hclear, recurs.encloses, ?_⟩
    obtain ⟨barred, -⟩ := run.barred (P := fun _ => True) fresh
      (fun past s w c outer call run recurs _ contending => by
        obtain ⟨o, ho, hthread, -⟩ := (run.stacked fresh).running_of_encloses recurs.encloses
          recurs.mine (by rw [contending]; rfl)
        rw [recurs.here] at ho
        cases ho
        exact run.initiator_of_thread fresh recurs.here recurs.inFlight recurs.mine hthread)
      recurs trivial
    rcases barred.of_clear hclear with early | htold | hdropped | ⟨-, isOver⟩
    · exact early
    · rw [htold] at active
      cases active
    · rw [hdropped] at active
      cases active
    · rw [isOver] at active
      cases active
  · refine run.untouched fresh fun mine hmine => ?_
    obtain rfl : call = mine := Option.some.inj (hc.symm.trans hmine)
    rw [Phase.isAloof, told, Bool.or_true]

/-- One thread runs the initializer of a flag, for which another thread waits. The initializer makes
a call for a second flag, whose initializer makes one for the first flag again; this call is about
to enter. -/
def threadsActions : List (Action Unit) :=
  [.issue { flavour := .blocking, thread := "main", target := 0, flag := 1, phase := .arriving },
    .advance 3, .advance 3,
    .issue { flavour := .blocking, thread := "worker", target := 0, flag := 1, phase := .arriving },
    .advance 4, .advance 4,
    .issue { flavour := .blocking, thread := "main", enclosing := some 3, target := 0, flag := 2,
             phase := .arriving },
    .advance 5, .advance 5,
    .issue { flavour := .blocking, thread := "main", enclosing := some 5, target := 0, flag := 1,
             phase := .arriving },
    .advance 6]

theorem threads_allowed : siblingsStart.Allows (Sequential fun _ => 0) threadsActions := by
  have hinside {s : State Unit} {k : Nat} (hs : s.phaseOf k = .running) (outer : Nat)
      (ho : some k = some outer) : s.phaseOf outer = .running := by
    cases ho
    exact hs
  have hall {s : State Unit} {P : Call Unit → Prop} (h : ∀ e ∈ s.calls.entries, P e.2) (c : Nat)
      (call : Call Unit) (hc : s.calls.get? c = some call) : P call :=
    h _ (s.calls.mem_entries_of_get? hc)
  exact ⟨rfl, ⟨Or.inr rfl, rfl, ⟨_, rfl⟩, ⟨_, rfl⟩, nofun⟩, ⟨rfl, rfl, hall (by decide)⟩,
    rfl, rfl, trivial, rfl, rfl, trivial,
    rfl, ⟨Or.inr rfl, rfl, ⟨_, rfl⟩, ⟨_, rfl⟩, nofun⟩, ⟨rfl, rfl, hall (by decide)⟩,
    rfl, rfl, trivial, rfl, rfl, trivial,
    rfl, ⟨Or.inr rfl, rfl, ⟨_, rfl⟩, ⟨_, rfl⟩, hinside rfl⟩,
    ⟨rfl, rfl, ⟨_, rfl, rfl⟩, hall (by decide)⟩,
    rfl, rfl, trivial, rfl, rfl, trivial,
    rfl, ⟨Or.inr rfl, rfl, ⟨_, rfl⟩, ⟨_, rfl⟩, hinside rfl⟩,
    ⟨rfl, rfl, ⟨_, rfl, rfl⟩, hall (by decide)⟩,
    rfl, rfl, trivial, trivial⟩

theorem siblings_differ : siblingsStart.HandlesDiffer := by
  intro f f' flag flag' hf hf' same
  have hmem := siblingsStart.flags.mem_entries_of_get? hf
  have hmem' := siblingsStart.flags.mem_entries_of_get? hf'
  simp only [siblingsStart, List.mem_cons, Prod.mk.injEq, List.not_mem_nil, or_false] at hmem hmem'
  rcases hmem with ⟨rfl, rfl⟩ | ⟨rfl, rfl⟩ <;> rcases hmem' with ⟨rfl, rfl⟩ | ⟨rfl, rfl⟩
  · rfl
  · cases same
  · cases same
  · rfl

/-- The innermost call is told that it is reentrant, and it has left everything untouched. The other
thread goes on to wait. -/
theorem blocking_reentrant_iff_threads :
    ((siblingsStart.acts threadsActions).act (.advance 6)).phaseOf 6 =
      .ended (.failed (.reentrant ⟨15⟩)) ∧
    Encloses (siblingsStart.acts threadsActions) 3 6 ∧
    Untouched (siblingsStart.moments threadsActions ++
      [⟨siblingsStart.acts threadsActions, .advance 6⟩]) 6 ∧
    (((siblingsStart.acts threadsActions).act (.advance 6)).phaseOf 4).isQueued = true := by
  have run := Run.of_allows threads_allowed
  have runs : (siblingsStart.acts threadsActions).RunsOn "main" 0 1 3 :=
    ⟨_, rfl, rfl, rfl, rfl, rfl⟩
  obtain ⟨htold, hinside, -⟩ :=
    blocking_reentrant_iff (c := 6) run siblings_isFresh siblings_differ rfl rfl
  obtain ⟨-, -, -, huntouched⟩ := blocking_reentrant_iff (c := 6)
    (run.step (a := .advance 6) rfl rfl trivial) siblings_isFresh siblings_differ rfl rfl
  exact ⟨(htold rfl (.advance 6) rfl).mpr ⟨rfl, rfl, 3, runs⟩,
    (hinside 3 (by decide) rfl runs).2.1, huntouched rfl, rfl⟩

end RunOnce.Protocol
