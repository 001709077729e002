import RunOnce.Proofs.Exclusion.Local
import RunOnce.Proofs.Exclusion.Passage
import RunOnce.Proofs.Reentrancy.Report

/-!
# One initializer for each global

**Theorem (`global_exactly_once`).** Let a global be accessed through any contexts, over registries
or slot tables, by any number of threads and tasks, also from inside of initializers. Whatever the
order of their steps, at most one of its initializers starts, it runs through the context to which
the global is tied, and no value is ever discarded.

**Spent** (`Board.Spent`). What excludes calls is different for registries and for slot tables, but
both go through it once: a flag at a target is spent as soon as some call has it in flight, and it
stays so. No call starts for a flag that is spent (`Board.Inv.not_spent`). A call starts only
through the context of its global, so it is the same flag at the same target each time.
-/

namespace RunOnce.Protocol

variable {α : Type}

/-! ## What is spent -/

section

variable {b b' : Board} {c t f : Nat}

/-- A flag at a target is settled, or some call has it in flight. -/
structure Board.Spent (b : Board) (t f : Nat) : Prop where
  bare : b.table? t = none → b.isSet f = true ∨ ∃ c card who, b.card? c = some card ∧
    card.target = t ∧ card.flag = f ∧ card.stage.holder? = some who
  table : ∀ o n flag, b.table? t = some (o, n) → b.flag? f = some flag →
    b.slot? o flag.id ≠ some slotIdle

/-- What a call has in flight is spent. -/
theorem Board.Inv.spent_of_holder (h : b.Inv) {card : Card} {who : Initiator}
    (here : b.card? c = some card) (holder : card.stage.holder? = some who) :
    b.Spent card.target card.flag where
  bare _ := Or.inr ⟨c, card, who, here, rfl, rfl, holder⟩
  table o n flag htable hflag hidle := by
    have hclaim : b.claim? c = some (card.target, flag.id, who) := by
      rw [claim?_of_card here, claimOf_eq_some holder hflag]
    rw [(h.running c _ _ _ o n hclaim htable).2] at hidle
    cases hidle

/-- A call goes for the same flag at the same target all along. -/
theorem Turn.aim_eq (h : b.Inv) (turn : Turn b c b') {card card' : Card}
    (here : b.card? c = some card) (now : b'.card? c = some card') :
    card'.target = card.target ∧ card'.flag = card.flag := by
  rcases turn.move h with heq | ⟨hnone, -⟩ | ⟨same, stage, hsame, hnow, -⟩
  · rw [here, now] at heq
    cases heq
    exact ⟨rfl, rfl⟩
  · rw [here] at hnone
    cases hnone
  · rw [here] at hsame
    cases hsame
    rw [now] at hnow
    cases hnow
    exact ⟨rfl, rfl⟩

/-- A call through a registry keeps what it has in flight, or its flag is set. -/
theorem Turn.holder_or (h : b.Inv) (turn : Turn b c b') {k : Nat} {card : Card} {who : Initiator}
    (here : b.card? k = some card) (bare : b.table? card.target = none)
    (holder : card.stage.holder? = some who) :
    b'.isSet card.flag = true ∨ ∃ stage, b'.card? k = some { card with stage } ∧
      stage.holder? = some who := by
  by_cases hk : k = c
  · subst hk
    rcases turn.move h with hsame | ⟨hnone, -⟩ | ⟨card', stage, hcard, hnow, hmove⟩
    · exact Or.inr ⟨card.stage, hsame.trans here, holder⟩
    · rw [here] at hnone
      cases hnone
    · rw [here] at hcard
      cases hcard
      generalize hstage : card.stage = before at hmove holder
      cases hmove with
      | same => exact Or.inr ⟨_, hnow, holder⟩
      | passes => cases holder
      | wins => cases holder
      | ends => exact Or.inr ⟨_, hnow, holder⟩
      | marks => cases holder
      | leaves | settles =>
        obtain ⟨-, -, ⟨-, -, hset⟩ | ⟨o, n, table, -⟩⟩ :=
          turn.of_leaving h here hstage hnow (by simp)
        · exact Or.inl hset
        · cases bare.symm.trans table
  · exact Or.inr ⟨card.stage, (turn.card?_of_ne hk).trans here, holder⟩

/-- What is spent stays spent. -/
theorem Board.Spent.turn (h : b.Inv) (turn : Turn b c b') (spent : b.Spent t f) : b'.Spent t f where
  bare hbare := by
    rw [turn.table?_eq] at hbare
    rcases spent.bare hbare with hset | ⟨k, card, who, here, rfl, rfl, holder⟩
    · exact Or.inl (turn.isSet_mono hset)
    · rcases turn.holder_or h here hbare holder with hset | ⟨stage, hnow, hholder⟩
      · exact Or.inl hset
      · exact Or.inr ⟨k, _, who, hnow, rfl, rfl, hholder⟩
  table o n flag htable hflag := by
    rw [turn.table?_eq] at htable
    have hid := turn.flag_id f
    rw [hflag] at hid
    obtain ⟨before, hbefore, hsame⟩ := Option.map_eq_some_iff.mp hid.symm
    have hspent := spent.table o n before htable hbefore
    rw [hsame] at hspent
    rcases turn.slot?_cases o flag.id with
      hslot | ⟨hidle, -⟩ | ⟨_, _, _, _, _, _, _, _, _, _, hdone⟩
    · rw [hslot]
      exact hspent
    · exact absurd hidle hspent
    · rw [hdone]
      decide

/-- Through one target one call at most has a flag in flight. -/
theorem Board.Inv.holder_alone (h : b.Inv) {k : Nat} {card card' : Card} {who who' : Initiator}
    (here : b.card? c = some card) (there : b.card? k = some card')
    (holder : card.stage.holder? = some who) (holder' : card'.stage.holder? = some who')
    (target : card'.target = card.target) (flag : card'.flag = card.flag) : k = c := by
  obtain ⟨known, hknown⟩ := h.known c card here
  have hclaim : b.claim? c = some (card.target, known.id, who) := by
    rw [claim?_of_card here, claimOf_eq_some holder hknown]
  have hclaim' : b.claim? k = some (card.target, known.id, who') := by
    rw [← flag] at hknown
    rw [claim?_of_card there, claimOf_eq_some holder' hknown, target]
  exact h.unique k c _ _ _ _ _ hclaim' hclaim rfl

theorem Stage.holder?_of_isInside {stage : Stage} (inside : stage.isInside = true) :
    ∃ who, stage.holder? = some who := by
  cases stage with
  | inside who => exact ⟨who, rfl⟩
  | _ => cases inside

/-- **No call starts for what is spent.** -/
theorem Board.Inv.not_spent (h : b.Inv) (turn : Turn b c b') {card card' : Card}
    (here : b.card? c = some card) (now : b'.card? c = some card')
    (before : card.stage.isInside = false) (after : card'.stage.isInside = true) :
    ¬b.Spent card.target card.flag := by
  intro spent
  obtain ⟨outside, flag, hflag, ⟨hbare, hunset⟩ | ⟨o, n, htable, hidle⟩⟩ :=
    turn.of_start here now before after
  · rcases spent.bare hbare with hset | ⟨k, other, who, hother, htarget, hsame, holder⟩
    · rw [isSet_of_flag hflag, hunset] at hset
      cases hset
    · -- Whoever has the flag in flight goes on to have it so, and then there are two.
      have hne : k ≠ c := by
        rintro rfl
        rw [here] at hother
        cases hother
        rw [outside] at holder
        cases holder
      obtain ⟨mine, hmine⟩ := Stage.holder?_of_isInside after
      obtain ⟨haim, haimflag⟩ := turn.aim_eq h here now
      exact hne ((h.turn turn).holder_alone now ((turn.card?_of_ne hne).trans hother) hmine holder
        (htarget.trans haim.symm) (hsame.trans haimflag.symm))
  · exact spent.table o n flag htable hflag hidle

end

/-! ## The global and its calls -/

/-- The calls of a global are those for its flag, and they begin with a look at its value. -/
def AccessedAs (k f : Nat) (_ : State α) : Action α → Prop
  | .issue call =>
    (call.cell = some k ↔ call.flag = f) ∧ (call.cell = some k → call.phase = .probing)
  | .advance _ | .finish _ _ _ | .abandon _ => True

namespace State

/-- What holds of a global and its calls, given what it was in the beginning and which of its calls
have started. -/
structure Guarded (s : State α) (k : Nat) (cell₀ cell : LazyCell α) (own : List Nat) : Prop where
  known : s.cells.get? k = some cell
  owns : ∀ c call, s.calls.get? c = some call → (call.cell = some k ↔ call.flag = cell₀.flag)
  /-- With a value from the beginning no call does more than look for it. -/
  kept : cell₀.value? ≠ none → cell.value? ≠ none ∧
    ∀ c call, s.calls.get? c = some call → call.cell = some k → call.phase.access.isIdle = true
  through : ∀ c call, s.calls.get? c = some call → call.cell = some k →
    call.phase.access.isThrough = true → cell.bound = some call.target
  clear : ∀ c call, s.calls.get? c = some call → call.cell = some k →
    call.phase.access = .inside → cell.content = .empty
  filled : cell.content ≠ .empty → cell₀.value? ≠ none ∨
    ∃ t, cell.bound = some t ∧ s.board.Spent t cell₀.flag
  started : ∀ w ∈ own, ∃ call, s.calls.get? w = some call ∧ cell.bound = some call.target ∧
    s.board.Spent call.target cell₀.flag
  one : own.length ≤ 1

variable {s : State α} {a : Action α} {k : Nat} {cell₀ cell cell' : LazyCell α} {own : List Nat}

theorem isInside_stage (call : Call α) : call.stage.isInside = true ↔
    call.phase.access = .inside ∨ call.phase.access = .writing := by
  unfold Call.stage
  cases call.phase with
  | ended outcome =>
    cases outcome with
    | ok value => cases value <;> simp [Phase.access, Stage.isInside]
    | _ => simp [Phase.access, Stage.isInside]
  | _ => simp [Phase.access, Stage.isInside]

/-- A global stays tied. -/
theorem Comes.bound_eq (comes : s.Comes a k cell cell') {t : Nat} (tied : cell.bound = some t) :
    cell'.bound = some t := by
  rcases comes.changed with rfl | ⟨c, call, hc, wanted, passage⟩
  · exact tied
  · exact passage.bound_eq tied

/-- A call of a global that starts its initializer was tied before. -/
theorem Comes.tied_of_start (comes : s.Comes a k cell cell') (possible : s.Possible a) {c : Nat}
    {call call' : Call α} (hc : s.calls.get? c = some call)
    (hnow : (s.act a).calls.get? c = some call') (wanted : call'.cell = some k)
    (before : call.stage.isInside = false) (after : call'.stage.isInside = true) :
    call.phase.access = .tied := by
  have hbefore (h : call.phase.access = .inside ∨ call.phase.access = .writing) : False := by
    rw [(isInside_stage call).mpr h] at before
    cases before
  have hafter := (isInside_stage call').mp after
  rcases comes.calls c call' hnow wanted with rfl | ⟨same, hsame, -, -, -, passage | heq⟩
  · have hnew := possible.phase
    rcases hnew with hp | hp <;> rw [hp] at hafter <;> simp [Phase.access] at hafter
  · rw [hc] at hsame
    cases hsame
    rcases hafter with hin | hwriting
    · rw [hin] at passage
      rcases passage.of_inside.2 with hx | hx
      · exact absurd (Or.inl hx) hbefore
      · exact hx
    · rw [hwriting] at passage
      exact absurd passage.of_writing hbefore
  · rw [hc] at hsame
    cases hsame
    rw [heq] at hafter
    exact absurd hafter hbefore

namespace Guarded

/-- A call whose initializer runs has the flag of the global in flight. -/
theorem spent (g : s.Guarded k cell₀ cell own) (inv : s.board.Inv) {c : Nat} {call : Call α}
    (hc : s.calls.get? c = some call) (wanted : call.cell = some k)
    (inside : call.stage.isInside = true) : s.board.Spent call.target cell₀.flag := by
  obtain ⟨who, holder⟩ := Stage.holder?_of_isInside inside
  rw [← (g.owns c call hc).mp wanted]
  exact inv.spent_of_holder (card?_board hc) holder

theorem bound_of_isInside (g : s.Guarded k cell₀ cell own) {c : Nat} {call : Call α}
    (hc : s.calls.get? c = some call) (wanted : call.cell = some k)
    (inside : call.stage.isInside = true) : cell.bound = some call.target := by
  refine g.through c call hc wanted ?_
  rcases (isInside_stage call).mp inside with hin | hin <;> rw [hin] <;> rfl

/-- One call of the global at most runs its initializer. -/
theorem alone (g : s.Guarded k cell₀ cell own) (inv : s.board.Inv) {c c' : Nat}
    {call call' : Call α} (hc : s.calls.get? c = some call) (wanted : call.cell = some k)
    (inside : call.stage.isInside = true) (hc' : s.calls.get? c' = some call')
    (wanted' : call'.cell = some k) (inside' : call'.stage.isInside = true) : c' = c := by
  obtain ⟨who, holder⟩ := Stage.holder?_of_isInside inside
  obtain ⟨who', holder'⟩ := Stage.holder?_of_isInside inside'
  have htarget : call'.target = call.target :=
    Option.some.inj ((g.bound_of_isInside hc' wanted' inside').symm.trans
      (g.bound_of_isInside hc wanted inside))
  have hflag : call'.flag = call.flag :=
    ((g.owns c' call' hc').mp wanted').trans ((g.owns c call hc).mp wanted).symm
  exact inv.holder_alone (card?_board hc) (card?_board hc') holder holder' htarget hflag

/-- When a call can start, there is no value and no call has started. -/
theorem of_start (g : s.Guarded k cell₀ cell own) {c : Nat} {call : Call α}
    (hc : s.calls.get? c = some call) (wanted : call.cell = some k)
    (tied : call.phase.access = .tied) (unspent : ¬s.board.Spent call.target cell₀.flag) :
    cell.content = .empty ∧ own = [] := by
  have hbound : cell.bound = some call.target := g.through c call hc wanted (by rw [tied]; rfl)
  constructor
  · by_contra hcontent
    rcases g.filled hcontent with hstored | ⟨t, ht, spent⟩
    · have hidle := (g.kept hstored).2 c call hc wanted
      rw [tied] at hidle
      cases hidle
    · rw [hbound] at ht
      cases ht
      exact unspent spent
  · refine List.eq_nil_iff_forall_not_mem.mpr fun w hw => ?_
    obtain ⟨winner, -, hwinner, spent⟩ := g.started w hw
    rw [hbound] at hwinner
    rw [← Option.some.inj hwinner] at spent
    exact unspent spent

/-! ## One action -/

section

variable (g : s.Guarded k cell₀ cell own) (comes : s.Comes a k cell cell')

include g comes

theorem owns_act (admitted : AccessedAs k cell₀.flag s a) (c : Nat) (call' : Call α)
    (hc' : (s.act a).calls.get? c = some call') :
    call'.cell = some k ↔ call'.flag = cell₀.flag := by
  rcases calls_act hc' with ⟨rfl, -⟩ | ⟨call, hc, becomes⟩
  · exact admitted.1
  · have hbefore := g.owns c call hc
    rw [becomes.alike.cell, becomes.alike.flag]
    exact hbefore

theorem kept_act (admitted : AccessedAs k cell₀.flag s a) (stored : cell₀.value? ≠ none) :
    cell'.value? ≠ none ∧ ∀ c call', (s.act a).calls.get? c = some call' →
      call'.cell = some k → call'.phase.access.isIdle = true := by
  obtain ⟨hvalue, hidle⟩ := g.kept stored
  constructor
  · rcases comes.changed with rfl | ⟨c, call, hc, wanted, passage⟩
    · exact hvalue
    · rw [(passage.of_isIdle (hidle c call hc wanted) hvalue).1]
      exact hvalue
  · intro c call' hc' wanted'
    rcases comes.calls c call' hc' wanted' with rfl | ⟨call, hc, wanted, -, -, passage | heq⟩
    · rw [admitted.2 wanted']
      rfl
    · exact (passage.of_isIdle (hidle c call hc wanted) hvalue).2
    · rw [heq]
      exact hidle c call hc wanted

theorem through_act (admitted : AccessedAs k cell₀.flag s a) (c : Nat) (call' : Call α)
    (hc' : (s.act a).calls.get? c = some call') (wanted' : call'.cell = some k)
    (through : call'.phase.access.isThrough = true) : cell'.bound = some call'.target := by
  rcases comes.calls c call' hc' wanted' with rfl | ⟨call, hc, wanted, htarget, -, passage | heq⟩
  · rw [admitted.2 wanted'] at through
    cases through
  · rw [htarget]
    exact passage.bound_of_isThrough (g.through c call hc wanted) through
  · rw [htarget]
    rw [heq] at through
    exact comes.bound_eq (g.through c call hc wanted through)

/-- The global is as it was, or a call that ran its initializer has written it. -/
theorem content_act : cell'.content = cell.content ∨ ∃ c call, s.calls.get? c = some call ∧
    call.cell = some k ∧ call.stage.isInside = true ∧
    Passage call.target cell call.phase.access cell' ((s.act a).phaseOf c).access := by
  rcases comes.changed with rfl | ⟨c, call, hc, wanted, passage⟩
  · exact Or.inl rfl
  · rcases passage.content_eq with hsame | hinside
    · exact Or.inl hsame
    · exact Or.inr ⟨c, call, hc, wanted, (isInside_stage call).mpr hinside, passage⟩

theorem filled_act (inv : s.board.Inv) (turn : Turn s.board (a.call s) (s.act a).board)
    (filled : cell'.content ≠ .empty) : cell₀.value? ≠ none ∨
      ∃ t, cell'.bound = some t ∧ (s.act a).board.Spent t cell₀.flag := by
  have hbefore : cell₀.value? ≠ none ∨ ∃ t, cell.bound = some t ∧ s.board.Spent t cell₀.flag := by
    rcases g.content_act comes with hsame | ⟨c, call, hc, wanted, inside, -⟩
    · rw [hsame] at filled
      exact g.filled filled
    · exact Or.inr ⟨call.target, g.bound_of_isInside hc wanted inside, g.spent inv hc wanted inside⟩
  rcases hbefore with hstored | ⟨t, hbound, spent⟩
  · exact Or.inl hstored
  · exact Or.inr ⟨t, comes.bound_eq hbound, spent.turn inv turn⟩

/-- When a call starts, there is no value and no other call has started. -/
theorem start_act (inv : s.board.Inv) (turn : Turn s.board (a.call s) (s.act a).board)
    (possible : s.Possible a) {c : Nat} {call call' : Call α} (hc : s.calls.get? c = some call)
    (hc' : (s.act a).calls.get? c = some call') (wanted : call.cell = some k)
    (wanted' : call'.cell = some k) (before : call.stage.isInside = false)
    (after : call'.stage.isInside = true) : cell.content = .empty ∧ own = [] := by
  have hcall : c = a.call s := by
    by_contra hne
    have hcard := turn.card?_of_ne hne
    rw [card?_board hc, card?_board hc'] at hcard
    have hstage : call'.stage = call.stage := congrArg Card.stage (Option.some.inj hcard)
    rw [hstage, before] at after
    cases after
  subst hcall
  have htied := comes.tied_of_start possible hc hc' wanted' before after
  have hunspent := inv.not_spent turn (card?_board hc) (card?_board hc') before after
  refine g.of_start hc wanted htied ?_
  rw [← (g.owns _ call hc).mp wanted]
  exact hunspent

theorem clear_act (inv : s.board.Inv) (turn : Turn s.board (a.call s) (s.act a).board)
    (possible : s.Possible a) (admitted : AccessedAs k cell₀.flag s a) (c : Nat)
    (call' : Call α) (hc' : (s.act a).calls.get? c = some call') (wanted' : call'.cell = some k)
    (inside' : call'.phase.access = .inside) : cell'.content = .empty := by
  have hnow : call'.stage.isInside = true := (isInside_stage call').mpr (Or.inl inside')
  rcases comes.calls c call' hc' wanted' with rfl | ⟨call, hc, wanted, -, -, passage | heq⟩
  · rw [admitted.2 wanted'] at inside'
    cases inside'
  · rw [inside'] at passage
    obtain ⟨rfl, hinside | htied⟩ := passage.of_inside
    · exact g.clear c call hc wanted hinside
    · have hout : call.stage.isInside = false := by
        rw [Bool.eq_false_iff, ne_eq, isInside_stage, htied]
        simp
      exact (g.start_act comes inv turn possible hc hc' wanted wanted' hout hnow).1
  · rw [inside'] at heq
    have hclear := g.clear c call hc wanted heq.symm
    rcases g.content_act comes with hsame | ⟨c₁, writer, hc₁, wanted₁, inside₁, passage⟩
    · rw [hsame]
      exact hclear
    · -- Only the call itself could have written the value, but it still runs its initializer.
      obtain rfl := g.alone inv hc wanted ((isInside_stage call).mpr (Or.inl heq.symm)) hc₁
        wanted₁ inside₁
      rw [phaseOf_of_get? hc', inside'] at passage
      rw [passage.of_inside.1]
      exact hclear

/-- A call that has started goes on to be there, through the target to which the global is tied. -/
theorem started_act (inv : s.board.Inv) (turn : Turn s.board (a.call s) (s.act a).board) {w : Nat}
    (hw : w ∈ own) : ∃ call, (s.act a).calls.get? w = some call ∧
      cell'.bound = some call.target ∧ (s.act a).board.Spent call.target cell₀.flag := by
  obtain ⟨call, hc, hbound, spent⟩ := g.started w hw
  obtain ⟨call', hc', becomes⟩ := call_act (a := a) (absent_nextKey inv) hc
  have htarget : call'.target = call.target := becomes.alike.target
  refine ⟨call', hc', ?_, ?_⟩
  · rw [htarget]
    exact comes.bound_eq hbound
  · rw [htarget]
    exact spent.turn inv turn

end

end Guarded

/-- The call of an action that starts an initializer for a flag. -/
theorem call_of_start {f : Nat} (inv : s.board.Inv)
    (turn : Turn s.board (a.call s) (s.act a).board)
    (before : (s.board.stageOf (forFlag f) (a.call s)).isInside = false)
    (after : ((s.act a).board.stageOf (forFlag f) (a.call s)).isInside = true) :
    ∃ call call', s.calls.get? (a.call s) = some call ∧ call.flag = f ∧
      (s.act a).calls.get? (a.call s) = some call' ∧ call'.flag = f ∧
      call.stage.isInside = false ∧ call'.stage.isInside = true := by
  obtain ⟨card, -, hcard, hp, -⟩ := turn.start_of_stageOf inv before after
  rw [Board.stageOf_of_card hcard hp] at before
  obtain ⟨call, hc, rfl⟩ := Option.map_eq_some_iff.mp hcard
  have hne : (s.act a).board.stageOf (forFlag f) (a.call s) ≠ .outside := by
    intro h
    rw [h] at after
    cases after
  obtain ⟨card', hcard', hp', hstage⟩ := Board.card_of_stageOf hne
  rw [← hstage] at after
  obtain ⟨call', hc', rfl⟩ := Option.map_eq_some_iff.mp hcard'
  exact ⟨call, call', hc, of_decide_eq_true hp, hc', of_decide_eq_true hp', before, after⟩

/-- No call starts, or the first one does. -/
theorem Guarded.startedBy_act {past : List (Moment α)}
    (g : s.Guarded k cell₀ cell (s.startedBy (forFlag cell₀.flag) past))
    (comes : s.Comes a k cell cell') (inv : s.board.Inv) (alive : s.violation = none)
    (possible : s.Possible a) (admitted : AccessedAs k cell₀.flag s a)
    (known : s.KnowsStarted past) :
    (s.act a).startedBy (forFlag cell₀.flag) (past ++ [⟨s, a⟩]) =
        s.startedBy (forFlag cell₀.flag) past ∨
      (s.act a).startedBy (forFlag cell₀.flag) (past ++ [⟨s, a⟩]) = [a.call s] ∧
        ∃ call', (s.act a).calls.get? (a.call s) = some call' ∧ call'.cell = some k ∧
          call'.flag = cell₀.flag ∧ call'.stage.isInside = true := by
  have turn := turn_act inv alive possible
  rw [State.startedBy_act inv alive possible known]
  split
  · rename_i hstart
    right
    simp only [Bool.and_eq_true, Bool.not_eq_true'] at hstart
    obtain ⟨call, call', hc, hflag, hc', hflag', hout, hin⟩ :=
      call_of_start inv turn hstart.1 hstart.2
    have wanted := (g.owns _ call hc).mpr hflag
    have wanted' := (g.owns_act comes admitted _ call' hc').mpr hflag'
    obtain ⟨-, hnone⟩ := g.start_act comes inv turn possible hc hc' wanted wanted' hout hin
    refine ⟨?_, call', hc', wanted', hflag', hin⟩
    rw [hnone, List.nil_append]
  · left
    rw [List.append_nil]

/-- **One action keeps what holds of a global.** -/
theorem Guarded.act {past : List (Moment α)}
    (g : s.Guarded k cell₀ cell (s.startedBy (forFlag cell₀.flag) past)) (inv : s.board.Inv)
    (alive : s.violation = none) (possible : s.Possible a)
    (admitted : AccessedAs k cell₀.flag s a) (known : s.KnowsStarted past) :
    ∃ cell', (s.act a).Guarded k cell₀ cell'
      ((s.act a).startedBy (forFlag cell₀.flag) (past ++ [⟨s, a⟩])) := by
  have turn := turn_act inv alive possible
  obtain ⟨cell', comes⟩ := comes_act alive possible (absent_nextKey inv) g.known
  have hthrough := g.through_act comes admitted
  have hstarts := g.startedBy_act comes inv alive possible admitted known
  refine ⟨cell', { known := comes.known, owns := g.owns_act comes admitted
                   kept := g.kept_act comes admitted, through := hthrough
                   clear := g.clear_act comes inv turn possible admitted
                   filled := g.filled_act comes inv turn, started := ?_, one := ?_ }⟩
  · intro w hw
    rcases hstarts with hsame | ⟨hmine, call', hc', wanted', hflag', hin⟩
    · rw [hsame] at hw
      exact g.started_act comes inv turn hw
    · rw [hmine] at hw
      obtain rfl := List.mem_singleton.mp hw
      obtain ⟨who, holder⟩ := Stage.holder?_of_isInside hin
      refine ⟨call', hc', hthrough _ call' hc' wanted' ?_, ?_⟩
      · rcases (isInside_stage call').mp hin with hx | hx <;> rw [hx] <;> rfl
      · rw [← hflag']
        exact (inv.turn turn).spent_of_holder (card?_board hc') holder
  · rcases hstarts with hsame | ⟨hmine, -⟩
    · rw [hsame]
      exact g.one
    · rw [hmine]
      exact Nat.le_refl 1

/-- In the beginning nothing is written and no call is there. -/
theorem guarded_fresh (fresh : s.IsFresh) (known : s.cells.get? k = some cell₀)
    (settled : cell₀.content ≠ .writing) : s.Guarded k cell₀ cell₀ [] := by
  have hnone {c : Nat} {call : Call α} (hc : s.calls.get? c = some call) : False := by
    rw [fresh.calls c] at hc
    cases hc
  refine { known := known, owns := fun c call hc => (hnone hc).elim
           kept := fun stored => ⟨stored, fun c call hc => (hnone hc).elim⟩
           through := fun c call hc => (hnone hc).elim
           clear := fun c call hc => (hnone hc).elim, filled := fun hfilled => Or.inl ?_
           started := nofun, one := Nat.zero_le 1 }
  cases hcontent : cell₀.content with
  | empty => exact absurd hcontent hfilled
  | writing => exact absurd hcontent settled
  | stored value =>
    rw [LazyCell.value?, hcontent]
    exact Option.some_ne_none value

end State

/-! ## Runs -/

section

variable {k : Nat} {cell₀ : LazyCell α} {s₀ s : State α} {past : List (Moment α)}

theorem Run.guarded (run : Run (AccessedAs k cell₀.flag) s₀ past s) (fresh : s₀.IsFresh)
    (known : s₀.cells.get? k = some cell₀) (settled : cell₀.content ≠ .writing) :
    ∃ cell, s.Guarded k cell₀ cell (s.startedBy (forFlag cell₀.flag) past) := by
  induction run with
  | start => exact ⟨cell₀, State.guarded_fresh fresh known settled⟩
  | step run alive possible admitted ih =>
    obtain ⟨cell, g⟩ := ih
    exact g.act (run.board_inv fresh) alive possible admitted (run.knows_started fresh)

/-- **One initializer for each global.** However the steps of threads and tasks that access a global
through any contexts are interleaved, at most one of its initializers starts, and it runs through
the context to which the global is tied. No step of a call of the global discards a value. -/
theorem global_exactly_once (run : Run (AccessedAs k cell₀.flag) s₀ past s) (fresh : s₀.IsFresh)
    (known : s₀.cells.get? k = some cell₀) (settled : cell₀.content ≠ .writing) :
    (s.startedBy (forFlag cell₀.flag) past).length ≤ 1 ∧
    (∀ w ∈ s.startedBy (forFlag cell₀.flag) past, ∃ call cell, s.calls.get? w = some call ∧
      call.cell = some k ∧ s.cells.get? k = some cell ∧ cell.bound = some call.target) ∧
    ∀ c call, s.calls.get? c = some call → call.cell = some k → ∀ notice ∈ (s.advance c).2,
      (∀ id, notice ≠ .log (.secondValue id)) ∧ ∀ value, notice ≠ .discarded value := by
  obtain ⟨cell, g⟩ := run.guarded fresh known settled
  refine ⟨g.one, fun w hw => ?_, fun c call hc wanted notice hmem => ?_⟩
  · obtain ⟨call, hc, hbound, -⟩ := g.started w hw
    have hpicks := (List.mem_filter.mp hw).2
    rw [State.picks_of_card (State.card?_board hc)] at hpicks
    have hflag : call.flag = cell₀.flag := of_decide_eq_true hpicks
    exact ⟨call, cell, hc, (g.owns w call hc).mpr hflag, g.known, hbound⟩
  · have hnone (second : (∃ id, .log (.secondValue id) ∈ (s.advance c).2) ∨
        ∃ value, .discarded value ∈ (s.advance c).2) : False := by
      cases alive : s.violation with
      | some v => simp [State.advance, alive] at second
      | none =>
        obtain ⟨hinside, key, hkey, htaken⟩ :=
          State.notices_effect (State.effect_advance alive hc) second
        rw [wanted] at hkey
        cases hkey
        rw [g.known, Option.bind_some, LazyCell.claim_eq_none] at htaken
        exact htaken (g.clear c call hc wanted hinside)
    constructor
    · rintro id rfl
      exact hnone (Or.inl ⟨id, hmem⟩)
    · rintro value rfl
      exact hnone (Or.inr ⟨value, hmem⟩)

end

/-- A global that is not tied to anything. -/
def untied : LazyCell Nat where
  flag := 1

/-- Two registries and a global. -/
def globalStart : State Nat where
  flags := ⟨[(1, { id := ⟨0⟩ })]⟩
  cells := ⟨[(3, untied)]⟩
  targets := ⟨[(0, Target.inProcess), (2, Target.inProcess)]⟩
  image := { self := 1, isAlive := fun _ => true }
  nextKey := 4

/-- A thread and a task access the global through different registries. Both find no value, the
thread ties the global first, and its initializer has returned a value. -/
def globalActions : List (Action Nat) :=
  [.issue { flavour := .blocking, thread := "main", target := 0, flag := 1, cell := some 3
            phase := .probing },
    .issue { flavour := .async, thread := "main", target := 2, flag := 1, cell := some 3
             phase := .probing },
    .advance 4, .advance 5, .advance 4, .advance 5, .advance 4, .advance 4,
    .finish 4 .returned (some 7)]

theorem global_isFresh : globalStart.IsFresh := by
  refine State.isFresh_of_registries (fun _ => rfl) (fun t target ht => ?_) rfl
  simp only [globalStart, Store.get?, Store.lookup] at ht
  split at ht
  · cases ht
    rfl
  · split at ht
    · cases ht
      rfl
    · cases ht

theorem global_allowed : globalStart.Allows (AccessedAs 3 untied.flag) globalActions :=
  ⟨rfl, ⟨Or.inl rfl, rfl, ⟨_, rfl⟩, ⟨_, rfl⟩, nofun⟩, ⟨⟨fun _ => rfl, fun _ => rfl⟩, fun _ => rfl⟩,
    rfl, ⟨Or.inl rfl, rfl, ⟨_, rfl⟩, ⟨_, rfl⟩, nofun⟩, ⟨⟨fun _ => rfl, fun _ => rfl⟩, fun _ => rfl⟩,
    rfl, rfl, trivial, rfl, rfl, trivial, rfl, rfl, trivial, rfl, rfl, trivial,
    rfl, rfl, trivial, rfl, rfl, trivial, rfl, nofun, trivial, trivial⟩

/-- The thread stores its value, and the task was turned away. -/
theorem global_exactly_once_two :
    (globalStart.acts globalActions).phaseOf 4 = .storing 7 ∧
    (globalStart.acts globalActions).phaseOf 5 = .ended (.failed (.foreignContext ⟨0⟩)) ∧
    (∃ w cell, (globalStart.acts globalActions).startedBy (forFlag 1)
        (globalStart.moments globalActions) = [w] ∧
      (globalStart.acts globalActions).cells.get? 3 = some cell ∧ cell.bound = some 0) ∧
    ∀ notice ∈ ((globalStart.acts globalActions).advance 4).2, notice ≠ .discarded 7 := by
  obtain ⟨-, htied, hkept⟩ :=
    global_exactly_once (Run.of_allows global_allowed) global_isFresh rfl nofun
  obtain ⟨call, cell, hc, -, hcell, hbound⟩ := htied 4 (by decide)
  refine ⟨rfl, rfl, ⟨4, cell, by decide, hcell, ?_⟩, fun notice hmem => ?_⟩
  · cases hc
    exact hbound
  · exact (hkept 4 _ rfl rfl notice hmem).2 7

end RunOnce.Protocol
