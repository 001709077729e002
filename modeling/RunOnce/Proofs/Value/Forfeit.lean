import RunOnce.Proofs.Value.Concession
import RunOnce.Proofs.Value.Integrity

/-!
# A global that is done stays as it is

**Theorem (`settled_for_good`).** Let a global be accessed through any contexts, by any number of
threads and tasks, with initializers that unwind and futures that are dropped.

* When its flag is set and it has no value, it is without a value for good (`Forfeited`). No
  initializer of it starts any more, no call returns, and no step of its calls aborts. A call that
  is begun later through the context of the global ends with the message that the value is missing,
  and one through another context is turned away. Calls that queue or poll end like the former, once
  they are handed control.
* When it has a value, every call that is begun later, through whatever context, returns with this
  value in its first step, and it starts no initializer (`Provided`).

**The idea.** The first part is an induction over the later actions. The global is forfeited in
every state (`Run.forfeits_later`), so each step of a call is a concession, which keeps the fate of
the call and takes it nearer to its end (`Conceding`).
-/

namespace RunOnce.Protocol

open State

variable {α : Type}

/-! ## What is counted -/

/-- Whether a call takes a step by itself. -/
def Moment.isStepOf (m : Moment α) (c : Nat) : Bool :=
  match m.action with
  | .advance k => decide (k = c) && (m.state.calls.get? c).isSome
  | _ => false

/-- How many steps a call has taken by itself. -/
def steps (past : List (Moment α)) (c : Nat) : Nat := past.countP (·.isStepOf c)

/-- The phase of a call. A call of a global that is not there yet begins with a look at the value. -/
def State.phaseFrom (s : State α) (c : Nat) : Phase α :=
  match s.calls.get? c with
  | some call => call.phase
  | none => .probing

/-- What holds of a global without a value whose flag is set, after more actions. The global is tied
to a target, and its flag has a handle. -/
structure Forfeited (k f t : Nat) (id : FlagId) (s : State α) (later : List (Moment α))
    (s' : State α) : Prop where
  set : s'.isSet f = true
  bare : s'.valueOf? k = none
  /-- No initializer of the global starts. -/
  unstarted : s'.startedBy (forFlag f) later = []
  unreturned : ∀ c call result, s'.calls.get? c = some call → call.cell = some k →
    call.phase ≠ .ended (.ok result)
  /-- No step of its calls aborts. -/
  safe : ∀ m ∈ later, ∀ c call, m.action = .advance c → m.state.calls.get? c = some call →
    call.cell = some k → m.next.violation = none
  /-- Its calls end as they were bound to, unless their futures are dropped. -/
  fate : ∀ c call outcome, s'.calls.get? c = some call → call.cell = some k →
    call.phase = .ended outcome →
    outcome = (s.phaseFrom c).fate (decide (call.target ≠ t)) id ∨
      outcome = .dropped ∧ ∃ m ∈ later, m.action = .abandon c
  /-- All of them end in a few steps, but for those who wait to be handed control. -/
  ends : ∀ c call, s'.calls.get? c = some call → call.cell = some k →
    (s.phaseFrom c).isSuspended = false → (s.phaseFrom c).toGo ≤ steps later c →
    call.phase.isOver = true
  /-- A lock to which a call comes is given back. -/
  waits : ∀ c, s'.violation = none → s'.isLockedOut c = true → ∃ k, s'.FreedBy c k

/-- How far a call is that is begun when its global has a value. -/
inductive Served (value : α) (later : List (Moment α)) (c : Nat) : Phase α → Prop
  /-- It has not taken a step yet. -/
  | begins (still : steps later c = 0) : Served value later c .probing
  | returns : Served value later c (.ended (.ok (some value)))
  | dropped (abandoned : ∃ m ∈ later, m.action = .abandon c) : Served value later c (.ended .dropped)

/-- What holds of a global that has a value, after more actions. -/
structure Provided (k : Nat) (value : α) (s : State α) (later : List (Moment α)) (s' : State α) :
    Prop where
  stored : s'.valueOf? k = some value
  /-- Calls that are begun later return with the value, and their initializers do not start. -/
  served : ∀ c call, s.calls.get? c = none → s'.calls.get? c = some call → call.cell = some k →
    Served value later c call.phase ∧ c ∉ started later
  /-- No step of them aborts. -/
  safe : ∀ m ∈ later, ∀ c call, s.calls.get? c = none → m.action = .advance c →
    m.state.calls.get? c = some call → call.cell = some k → m.next.violation = none

theorem steps_concat (past : List (Moment α)) (m : Moment α) (c : Nat) :
    steps (past ++ [m]) c = steps past c + if m.isStepOf c then 1 else 0 := by
  rw [steps, List.countP_append, List.countP_singleton]
  rfl

theorem abandoned_concat {past : List (Moment α)} {c : Nat} (m : Moment α)
    (abandoned : ∃ m ∈ past, m.action = .abandon c) :
    ∃ m' ∈ past ++ [m], m'.action = .abandon c := by
  obtain ⟨m', hm', dropped⟩ := abandoned
  exact ⟨m', List.mem_append_left _ hm', dropped⟩

/-! ## Steps of runs -/

section

variable {s s' s₀ : State α} {a : Action α} {c f : Nat} {call : Call α}
  {past later : List (Moment α)} {rule : State α → Action α → Prop}

theorem Moment.isStepOf_of_ne (other : a ≠ .advance c) : Moment.isStepOf ⟨s, a⟩ c = false := by
  cases a with
  | advance k =>
    have hne : k ≠ c := by
      rintro rfl
      exact other rfl
    simp [isStepOf, hne]
  | _ => rfl

/-- A call that is not there was not there before, and it has taken no step. -/
theorem Run.of_absent (run : Run rule s later s') (inv : s.board.Inv)
    (absent : s'.calls.get? c = none) : s.calls.get? c = none ∧ steps later c = 0 := by
  suffices s'.board.Inv ∧
      (s'.calls.get? c = none → s.calls.get? c = none ∧ steps later c = 0) from this.2 absent
  clear absent
  induction run with
  | start => exact ⟨inv, fun absent => ⟨absent, rfl⟩⟩
  | @step later s' a run alive possible _ ih =>
    obtain ⟨inv', hbefore⟩ := ih
    refine ⟨inv'.turn (turn_act inv' alive possible), fun absent => ?_⟩
    have before : s'.calls.get? c = none := by
      cases hc : s'.calls.get? c with
      | none => rfl
      | some call =>
        obtain ⟨call', hc', -⟩ := call_act (a := a) (absent_nextKey inv') hc
        rw [absent] at hc'
        cases hc'
    obtain ⟨hnone, hzero⟩ := hbefore before
    have hstill : Moment.isStepOf ⟨s', a⟩ c = false := by
      cases a <;> simp [Moment.isStepOf, before]
    refine ⟨hnone, ?_⟩
    rw [steps_concat, hzero, hstill]
    rfl

/-- The handle of a flag stays what it is. -/
theorem Run.id_flagOf (run : Run rule s₀ past s) (fresh : s₀.IsFresh) (more : Run rule s later s')
    {flag : Flag} (known : s.flags.get? f = some flag) (own : call.flag = f) :
    (s'.flagOf call).id = flag.id := by
  rw [(run.trans more).id_flagOf_eq fresh, ← run.id_flagOf_eq fresh, flagOf, own, known]
  rfl

end

/-! ## A forfeited global -/

/-- What has become of a call of a forfeited global. -/
structure Conceding (foreign : Bool) (id : FlagId) (later : List (Moment α)) (c : Nat)
    (start now : Phase α) : Prop where
  fate : now.fate foreign id = start.fate foreign id ∨
    now = .ended .dropped ∧ ∃ m ∈ later, m.action = .abandon c
  nearer : start.isSuspended = false → now.isOver = true ∨
    now.isSuspended = false ∧ now.toGo + steps later c ≤ start.toGo

namespace Conceding

variable {foreign : Bool} {id : FlagId} {later : List (Moment α)} {c : Nat}
  {start now now' : Phase α} {m : Moment α}

/-- A call that is new. -/
theorem begin (still : steps later c = 0) : Conceding foreign id later c start start where
  fate := Or.inl rfl
  nearer free := Or.inr ⟨free, by rw [still, Nat.add_zero]⟩

/-- A future that is dropped. -/
theorem drop (dropped : m.action = .abandon c) :
    Conceding foreign id (later ++ [m]) c start (.ended .dropped) where
  fate := Or.inr ⟨rfl, m, List.mem_concat_self, dropped⟩
  nearer _ := Or.inl rfl

/-- The call does not take a step by itself. -/
theorem rest (h : Conceding foreign id later c start now) (still : m.isStepOf c = false) :
    Conceding foreign id (later ++ [m]) c start now where
  fate := h.fate.imp_right (And.imp_right (abandoned_concat m))
  nearer free := by
    rw [steps_concat, still]
    exact h.nearer free

/-- The signal of the call is raised. -/
theorem raise {signal : Signal} (h : Conceding foreign id later c start (.queued signal)) :
    Conceding foreign id later c start (.queued signal.raise) where
  fate := by
    rcases h.fate with same | ⟨hnow, -⟩
    · exact Or.inl same
    · cases hnow
  nearer free := by
    rcases h.nearer free with isOver | ⟨-, left⟩
    · cases isOver
    · exact Or.inr ⟨by cases signal <;> rfl, left⟩

/-- The call takes a step. -/
theorem step (h : Conceding foreign id later c start now)
    (concession : Concession foreign id now now')
    (further : now.isOver = false → now.isSuspended = false → now' ≠ now) :
    Conceding foreign id (later ++ [m]) c start now' := by
  cases isOver : now.isOver with
  | true =>
    cases concession with
    | rests =>
      exact ⟨h.fate.imp_right (And.imp_right (abandoned_concat m)), fun _ => Or.inl isOver⟩
    | _ => cases isOver
  | false =>
    constructor
    · left
      rw [concession.fate_eq]
      rcases h.fate with same | ⟨rfl, -⟩
      · exact same
      · cases isOver
    · intro free
      rcases h.nearer free with hover | ⟨unsuspended, left⟩
      · rw [isOver] at hover
        cases hover
      · obtain ⟨unsuspended', same | less⟩ := concession.nearer unsuspended
        · exact absurd same (further isOver unsuspended)
        · refine Or.inr ⟨unsuspended', ?_⟩
          rw [steps_concat]
          split <;> omega

end Conceding

section

variable {k t f c : Nat} {cell₀ cell cell' : LazyCell α} {s₀ s s' : State α} {a : Action α}
  {past later : List (Moment α)} {own own' : List Nat} {call : Call α} {id : FlagId}

/-- **A forfeited global stays forfeited.** -/
theorem State.Forfeits.act (h : s.Forfeits k t cell₀ cell own) (inv : s.board.Inv)
    (alive : s.violation = none) (possible : s.Possible a)
    (next : (s.act a).Guarded k cell₀ cell' own') : (s.act a).Forfeits k t cell₀ cell' own' := by
  obtain ⟨now, comes⟩ := comes_act alive possible (absent_nextKey inv) h.known
  obtain rfl : now = cell' := Option.some.inj (comes.known.symm.trans next.known)
  refine { next with
    bound := comes.bound_eq h.bound, bare := ?_
    closed := h.closed.turn inv (turn_act inv alive possible) }
  rcases h.content_act comes with hsame | ⟨c, call, hc, wanted, inside, -⟩
  · rw [LazyCell.value?, hsame]
    exact h.bare
  · -- Nobody is there to write a value.
    obtain ⟨who, holder⟩ := Stage.holder?_of_isInside inside
    rw [holder?_stage, h.not_inFlight hc wanted] at holder
    cases holder

/-- **One action on a call of a forfeited global.** -/
theorem State.Forfeits.conceding_act {start : Phase α} (h : s.Forfeits k t cell₀ cell own)
    (inv : s.board.Inv) (alive : s.violation = none) (possible : s.Possible a)
    (hc : s.calls.get? c = some call) (wanted : call.cell = some k)
    (target : ∃ target, s.targets.get? call.target = some target)
    (seen : s.HasSeen call call.phase)
    (conceding : Conceding (decide (call.target ≠ t)) (s.flagOf call).id later c start call.phase) :
    Conceding (decide (call.target ≠ t)) (s.flagOf call).id (later ++ [⟨s, a⟩]) c start
      ((s.act a).phaseOf c) := by
  by_cases mine : a = .advance c
  · subst mine
    have concession := (h.concession_effect hc wanted inv alive (effect_advance alive hc)).2
    exact conceding.step concession fun active free =>
      h.phaseOf_advance_ne hc wanted inv alive possible target seen active free
  · have still : Moment.isStepOf ⟨s, a⟩ c = false := Moment.isStepOf_of_ne mine
    rcases phaseOf_act_cases alive possible hc (absent_nextKey inv) (h.not_running hc wanted) with
      hsame | ⟨signal, queued, hraised⟩ | ⟨hact, -⟩ | ⟨rfl, hdropped⟩
    · rw [hsame]
      exact conceding.rest still
    · rw [hraised]
      rw [queued] at conceding
      exact (conceding.rest still).raise
    · exact absurd hact mine
    · rw [hdropped]
      exact .drop rfl

variable (run : Run (AccessedAs k cell₀.flag) s₀ past s) (fresh : s₀.IsFresh)
  (known : s₀.cells.get? k = some cell₀) (settled : cell₀.content ≠ .writing)

include run fresh known settled

/-- A global without a value whose flag is set is forfeited. -/
theorem Run.forfeits (clear : cell₀.value? = none → s₀.isSet cell₀.flag = false)
    (set : s.isSet cell₀.flag = true) (bare : s.valueOf? k = none) :
    ∃ cell t, s.Forfeits k t cell₀ cell (s.startedBy (forFlag cell₀.flag) past) := by
  obtain ⟨cell, g⟩ := run.guarded fresh known settled
  rw [valueOf?, g.known, Option.bind_some] at bare
  have start : cell₀.value? = none := by
    by_contra stored
    exact (g.kept stored).1 bare
  obtain ⟨same, t, hsame, bound, closed⟩ := run.closed fresh known settled (clear start) set
  obtain rfl : cell = same := Option.some.inj (g.known.symm.trans hsame)
  exact ⟨cell, t, { g with bound := bound, bare := bare, closed := closed }⟩

/-- **After more actions the global is still forfeited**, at the same target. -/
theorem Run.forfeits_later (more : Run (AccessedAs k cell₀.flag) s later s')
    (h : s.Forfeits k t cell₀ cell (s.startedBy (forFlag cell₀.flag) past)) :
    ∃ cell', s'.Forfeits k t cell₀ cell' (s'.startedBy (forFlag cell₀.flag) (past ++ later)) := by
  induction more with
  | start =>
    rw [List.append_nil]
    exact ⟨cell, h⟩
  | @step later s' a more alive possible admitted ih =>
    obtain ⟨before, hbefore⟩ := ih
    have run' := run.trans more
    obtain ⟨after, g⟩ := (run'.step alive possible admitted).guarded fresh known settled
    rw [List.append_assoc] at g
    exact ⟨after, hbefore.act (run'.board_inv fresh) alive possible g⟩

/-- No initializer of a forfeited global starts. -/
theorem Run.unstarted (more : Run (AccessedAs k cell₀.flag) s later s')
    (h : s.Forfeits k t cell₀ cell (s.startedBy (forFlag cell₀.flag) past)) :
    s'.startedBy (forFlag cell₀.flag) later = [] := by
  induction more with
  | start => rfl
  | @step later s' a more alive possible admitted ih =>
    have run' := run.trans more
    have inv := run'.board_inv fresh
    obtain ⟨after, hafter⟩ :=
      run.forfeits_later fresh known settled (more.step alive possible admitted) h
    have hout : ((s'.act a).board.stageOf (forFlag cell₀.flag) (a.call s')).isInside = false := by
      by_contra hin
      rw [Bool.not_eq_false] at hin
      obtain ⟨card, hcard, hp, hstage⟩ := Board.card_of_stageOf
        (b := (s'.act a).board) (p := forFlag cell₀.flag) (c := a.call s')
        (by intro houtside; rw [houtside] at hin; cases hin)
      obtain ⟨call, hc, rfl⟩ := Option.map_eq_some_iff.mp hcard
      rw [← hstage] at hin
      obtain ⟨who, holder⟩ := Stage.holder?_of_isInside hin
      have wanted := (hafter.owns _ call hc).mpr (of_decide_eq_true hp)
      rw [show call.card.stage = call.stage from rfl, holder?_stage,
        hafter.not_inFlight hc wanted] at holder
      cases holder
    rw [State.startedBy_act inv alive possible (run.knows_later fresh more), ih, hout]
    simp

/-- **What becomes of the calls of a forfeited global.** -/
theorem Run.conceding (more : Run (AccessedAs k cell₀.flag) s later s')
    (h : s.Forfeits k t cell₀ cell (s.startedBy (forFlag cell₀.flag) past)) {flag : Flag}
    (hflag : s.flags.get? cell₀.flag = some flag) (hc : s'.calls.get? c = some call)
    (wanted : call.cell = some k) :
    Conceding (decide (call.target ≠ t)) flag.id later c (s.phaseFrom c) call.phase := by
  induction more generalizing call with
  | start =>
    rw [phaseFrom, hc]
    exact .begin rfl
  | @step later s' a more alive possible admitted ih =>
    have run' := run.trans more
    obtain ⟨before, hbefore⟩ := run.forfeits_later fresh known settled more h
    rcases calls_act hc with ⟨rfl, rfl⟩ | ⟨mine, hmine, becomes⟩
    · obtain ⟨hnone, still⟩ :=
        more.of_absent (run.board_inv fresh) (absent_nextKey (run'.board_inv fresh))
      rw [phaseFrom, hnone, admitted.2 wanted]
      exact (Conceding.begin still).rest (Moment.isStepOf_of_ne nofun)
    · have wanted' : mine.cell = some k := becomes.alike.cell.symm.trans wanted
      have hid := run.id_flagOf fresh more hflag ((hbefore.owns c mine hmine).mp wanted')
      have seen := (run'.hasSeen fresh hmine).resolve_left (not_not_intro alive)
      have conceding := ih hmine wanted'
      rw [← hid] at conceding
      have after := hbefore.conceding_act (run'.board_inv fresh) alive possible hmine wanted'
        (run'.exists_target fresh hmine) seen conceding
      rwa [hid, ← becomes.alike.target, phaseOf_of_get? hc] at after

/-- **A forfeited global is forfeited for good.** -/
theorem Run.forfeited (more : Run (AccessedAs k cell₀.flag) s later s')
    (h : s.Forfeits k t cell₀ cell (s.startedBy (forFlag cell₀.flag) past)) {flag : Flag}
    (hflag : s.flags.get? cell₀.flag = some flag) :
    Forfeited k cell₀.flag t flag.id s later s' := by
  obtain ⟨now, hnow⟩ := run.forfeits_later fresh known settled more h
  have bare : s'.valueOf? k = none := by
    rw [valueOf?, hnow.known, Option.bind_some, hnow.bare]
  have conceding {c : Nat} {call : Call α} (hc : s'.calls.get? c = some call)
      (wanted : call.cell = some k) := run.conceding fresh known settled more h hflag hc wanted
  refine { set := hnow.closed.set, bare := bare
           unstarted := run.unstarted fresh known settled more h
           unreturned := ?_, safe := ?_, fate := ?_, ends := ?_
           waits := fun c alive => ((run.trans more).locks fresh).freed alive }
  · intro c call result hc wanted phase
    obtain ⟨value, -, stored⟩ :=
      (run.trans more).value_of_returned fresh known settled hc wanted phase
    rw [bare] at stored
    cases stored
  · intro m hm c call action hc wanted
    obtain ⟨before, more', alive, -⟩ := more.before_moment hm
    obtain ⟨there, hthere⟩ := run.forfeits_later fresh known settled more' h
    rw [Moment.next, action]
    exact (hthere.concession_effect hc wanted ((run.trans more').board_inv fresh) alive
      (effect_advance alive hc)).1
  · intro c call outcome hc wanted phase
    have fate := (conceding hc wanted).fate
    rw [phase] at fate
    exact fate.imp_right (And.imp_left Phase.ended.inj)
  · intro c call hc wanted free taken
    rcases (conceding hc wanted).nearer free with isOver | ⟨-, left⟩
    · exact isOver
    · exact Phase.isOver_of_toGo (by omega)

end

/-! ## A global with a value -/

section

variable {k c : Nat} {cell₀ : LazyCell α} {s₀ s s' : State α} {a : Action α}
  {past later : List (Moment α)} {call : Call α} {value : α}

theorem Served.isInside {phase : Phase α} (served : Served value later c phase) :
    phase.isInside = false := by
  cases served <;> rfl

/-- A call that looks for the value of a global finds it. -/
theorem State.advance_of_stored (alive : s.violation = none) (hc : s.calls.get? c = some call)
    (wanted : call.cell = some k) (phase : call.phase = .probing)
    (stored : s.valueOf? k = some value) :
    s.act (.advance c) = s.setPhase c call (.ended (.ok (some value))) := by
  obtain ⟨cell, hcell, hvalue⟩ := Option.bind_eq_some_iff.mp stored
  simp only [act, advance, alive, hc, phase, probe, wanted, Option.bind_some, hcell, hvalue]

/-- One action of a call that is served. -/
theorem Served.act (served : Served value later c call.phase) (alive : s.violation = none)
    (possible : s.Possible a) (fresh : s.calls.get? s.nextKey = none)
    (hc : s.calls.get? c = some call) (wanted : call.cell = some k)
    (stored : s.valueOf? k = some value) :
    Served value (later ++ [⟨s, a⟩]) c ((s.act a).phaseOf c) := by
  have hover (isOver : call.phase.isOver = true) : (s.act a).phaseOf c = call.phase :=
    (phaseOf_act_of_over alive possible hc isOver fresh).trans (phaseOf_of_get? hc)
  generalize phase : call.phase = now at served hover
  cases served with
  | returns =>
    rw [hover rfl]
    exact .returns
  | dropped abandoned =>
    rw [hover rfl]
    exact .dropped (abandoned_concat _ abandoned)
  | begins still =>
    have idle : call.phase ≠ .running := by
      rw [phase]
      intro running
      cases running
    by_cases mine : a = .advance c
    · rw [mine, advance_of_stored alive hc wanted phase stored, phaseOf_setPhase]
      exact .returns
    · rcases phaseOf_act_cases alive possible hc fresh idle with
        hsame | ⟨signal, queued, -⟩ | ⟨hact, -⟩ | ⟨rfl, hdropped⟩
      · rw [hsame, phase]
        refine .begins ?_
        rw [steps_concat, still, Moment.isStepOf_of_ne mine]
        rfl
      · rw [phase] at queued
        cases queued
      · exact absurd hact mine
      · rw [hdropped]
        exact .dropped ⟨_, List.mem_concat_self, rfl⟩

variable (run : Run (AccessedAs k cell₀.flag) s₀ past s) (fresh : s₀.IsFresh)
  (known : s₀.cells.get? k = some cell₀) (settled : cell₀.content ≠ .writing)
  (more : Run (AccessedAs k cell₀.flag) s later s') (stored : s.valueOf? k = some value)

include run fresh known settled more stored

theorem Run.valueOf?_later : s'.valueOf? k = some value := by
  induction more with
  | start => exact stored
  | step more alive possible _ ih =>
    exact (run.trans more).valueOf?_act fresh known settled alive possible ih

/-- **Every call that is begun later is served**, and its initializer does not start. -/
theorem Run.served (begun : s.calls.get? c = none) (hc : s'.calls.get? c = some call)
    (wanted : call.cell = some k) : Served value later c call.phase ∧ c ∉ started later := by
  induction more generalizing call with
  | start =>
    rw [begun] at hc
    cases hc
  | @step later s' a more alive possible admitted ih =>
    have run' := run.trans more
    have habsent := absent_nextKey (run'.board_inv fresh)
    have hstored := run.valueOf?_later fresh known settled more stored
    rcases calls_act hc with ⟨rfl, rfl⟩ | ⟨mine, hmine, becomes⟩
    · obtain ⟨-, still⟩ := more.of_absent (run.board_inv fresh) habsent
      have unstarted : s'.nextKey ∉ started later := by
        intro hstarted
        obtain ⟨card, hcard⟩ := run.knows_later fresh more _ hstarted
        have hnone : s'.board.card? s'.nextKey = none :=
          (run'.board_inv fresh).fresh _ (Nat.le_refl _)
        rw [hnone] at hcard
        cases hcard
      rw [admitted.2 wanted]
      refine ⟨.begins ?_, ?_⟩
      · rw [steps_concat, still]
        rfl
      · rw [started_concat, List.mem_append, not_or]
        exact ⟨unstarted, nofun⟩
    · have wanted' : mine.cell = some k := becomes.alike.cell.symm.trans wanted
      obtain ⟨served, unstarted⟩ := ih hmine wanted'
      have served' := served.act (a := a) alive possible habsent hmine wanted' hstored
      rw [phaseOf_of_get? hc] at served'
      refine ⟨served', ?_⟩
      rw [started_concat, List.mem_append, not_or]
      refine ⟨unstarted, fun hstarts => ?_⟩
      have inside := (Option.mem_filter_iff.mp (Option.mem_toList.mp hstarts)).2
      have hinside : (s'.act a).isInside c = true := (Bool.and_eq_true_iff.mp inside).2
      rw [isInside, phaseOf_of_get? hc, served'.isInside] at hinside
      cases hinside

/-- **A global that has a value provides it for good.** -/
theorem Run.provided : Provided k value s later s' where
  stored := run.valueOf?_later fresh known settled more stored
  served c call begun hc wanted := run.served fresh known settled more stored begun hc wanted
  safe m hm c call begun action hc wanted := by
    obtain ⟨before, more', alive, -⟩ := more.before_moment hm
    have hstored := run.valueOf?_later fresh known settled more' stored
    obtain ⟨served, -⟩ := run.served fresh known settled more' stored begun hc wanted
    rw [Moment.next, action]
    generalize phase : call.phase = now at served
    cases served with
    | begins =>
      rw [advance_of_stored alive hc wanted phase hstored]
      exact alive
    | returns | dropped =>
      simp only [act, advance, alive, hc, phase]

end

/-- **A global that is done stays as it is.** However the steps of threads and tasks that access it
through any contexts are interleaved, a global whose flag is set and that has no value is without
one for good, and one that has a value provides it to all calls that are begun later. -/
theorem settled_for_good {k : Nat} {cell₀ : LazyCell α} {s₀ s s' : State α}
    {past later : List (Moment α)} (run : Run (AccessedAs k cell₀.flag) s₀ past s)
    (fresh : s₀.IsFresh) (known : s₀.cells.get? k = some cell₀)
    (settled : cell₀.content ≠ .writing)
    (clear : cell₀.value? = none → s₀.isSet cell₀.flag = false)
    (more : Run (AccessedAs k cell₀.flag) s later s') :
    (s.isSet cell₀.flag = true → s.valueOf? k = none → ∃ t cell flag,
      s.cells.get? k = some cell ∧ cell.bound = some t ∧
      s.flags.get? cell₀.flag = some flag ∧ Forfeited k cell₀.flag t flag.id s later s') ∧
    ∀ value, s.valueOf? k = some value → Provided k value s later s' := by
  refine ⟨fun set bare => ?_, fun value stored => run.provided fresh known settled more stored⟩
  obtain ⟨cell, t, h⟩ := run.forfeits fresh known settled clear set bare
  obtain ⟨flag, hflag⟩ : ∃ flag, s.flags.get? cell₀.flag = some flag := by
    cases hflag : s.flags.get? cell₀.flag with
    | none =>
      rw [isSet, hflag] at set
      cases set
    | some flag => exact ⟨flag, rfl⟩
  exact ⟨t, cell, flag, h.known, h.bound, hflag, run.forfeited fresh known settled more h hflag⟩

/-- A call for the global. -/
def globalCall (flavour : Flavour) (thread : String) (target : Nat) : Call Nat :=
  { flavour, thread, target, flag := 1, cell := some 3, phase := .probing }

/-- A thread runs the initializer of the global, another one queues, and the initializer unwinds. -/
def unwoundActions : List (Action Nat) :=
  [.issue (globalCall .blocking "main" 0), .advance 4, .advance 4, .advance 4, .advance 4,
    .issue (globalCall .blocking "other" 0), .advance 5, .advance 5, .advance 5, .advance 5,
    .finish 4 .unwound none, .advance 4]

/-- The first thread hands control to the second one and ends. The second one goes on, and two calls
are begun, one through each of the registries. -/
def lateActions : List (Action Nat) :=
  [.advance 4, .advance 4, .advance 5, .advance 5,
    .issue (globalCall .async "main" 0), .advance 6, .advance 6, .advance 6, .advance 6,
    .issue (globalCall .blocking "main" 2), .advance 7, .advance 7, .advance 7, .advance 7]

/-- The state after the initializer has unwound. -/
def unwoundState : State Nat := globalStart.acts unwoundActions

theorem unwound_allowed : globalStart.Allows (AccessedAs 3 untied.flag) unwoundActions :=
  ⟨rfl, ⟨Or.inl rfl, rfl, ⟨_, rfl⟩, ⟨_, rfl⟩, nofun⟩, ⟨⟨fun _ => rfl, fun _ => rfl⟩, fun _ => rfl⟩,
    rfl, rfl, trivial, rfl, rfl, trivial, rfl, rfl, trivial, rfl, rfl, trivial,
    rfl, ⟨Or.inl rfl, rfl, ⟨_, rfl⟩, ⟨_, rfl⟩, nofun⟩, ⟨⟨fun _ => rfl, fun _ => rfl⟩, fun _ => rfl⟩,
    rfl, rfl, trivial, rfl, rfl, trivial, rfl, rfl, trivial, rfl, rfl, trivial,
    rfl, nofun, trivial, rfl, rfl, trivial, trivial⟩

theorem late_allowed : unwoundState.Allows (AccessedAs 3 untied.flag) lateActions :=
  ⟨rfl, rfl, trivial, rfl, rfl, trivial, rfl, rfl, trivial, rfl, rfl, trivial,
    rfl, ⟨Or.inl rfl, rfl, ⟨_, rfl⟩, ⟨_, rfl⟩, nofun⟩, ⟨⟨fun _ => rfl, fun _ => rfl⟩, fun _ => rfl⟩,
    rfl, rfl, trivial, rfl, rfl, trivial, rfl, rfl, trivial, rfl, rfl, trivial,
    rfl, ⟨Or.inl rfl, rfl, ⟨_, rfl⟩, ⟨_, rfl⟩, nofun⟩, ⟨⟨fun _ => rfl, fun _ => rfl⟩, fun _ => rfl⟩,
    rfl, rfl, trivial, rfl, rfl, trivial, rfl, rfl, trivial, rfl, rfl, trivial,
    trivial⟩

/-- A task looks for the value that is stored, through the registry to which the global is not
tied. -/
def foreignActions : List (Action Nat) := [.issue (globalCall .async "main" 2), .advance 6]

theorem foreign_allowed : storedState.Allows (AccessedAs 3 untied.flag) foreignActions :=
  ⟨rfl, ⟨Or.inl rfl, rfl, ⟨_, rfl⟩, ⟨_, rfl⟩, nofun⟩, ⟨⟨fun _ => rfl, fun _ => rfl⟩, fun _ => rfl⟩,
    rfl, rfl, trivial, trivial⟩

/-- After the initializer has unwound, the thread that queued and a call that is begun later miss
the value, and a call through the other registry is turned away. With a value it returns. -/
theorem settled_for_good_unwound :
    (unwoundState.acts lateActions).valueOf? 3 = none ∧
    (unwoundState.acts lateActions).startedBy (forFlag 1) (unwoundState.moments lateActions) = [] ∧
    (unwoundState.acts lateActions).phaseOf 5 = .ended (.missing ⟨0⟩) ∧
    (unwoundState.acts lateActions).phaseOf 6 = .ended (.missing ⟨0⟩) ∧
    (unwoundState.acts lateActions).phaseOf 7 = .ended (.failed (.foreignContext ⟨0⟩)) ∧
    (storedState.acts foreignActions).phaseOf 6 = .ended (.ok (some 7)) ∧
    6 ∉ started (storedState.moments foreignActions) := by
  obtain ⟨t, cell, flag, -, -, -, forfeited⟩ :=
    (settled_for_good (Run.of_allows unwound_allowed) global_isFresh rfl nofun (fun _ => rfl)
      (Run.of_allows late_allowed)).1 rfl rfl
  have provided : Provided 3 7 storedState (storedState.moments foreignActions)
      (storedState.acts foreignActions) :=
    (settled_for_good ((Run.of_allows global_allowed).append store_allowed) global_isFresh rfl nofun
      (fun _ => rfl) (Run.of_allows foreign_allowed)).2 7 rfl
  exact ⟨forfeited.bare, forfeited.unstarted, rfl, rfl, rfl, rfl,
    (provided.served 6 _ rfl rfl rfl).2⟩

end RunOnce.Protocol
