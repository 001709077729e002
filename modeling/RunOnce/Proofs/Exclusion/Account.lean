import RunOnce.Proofs.Exclusion.Refine
import RunOnce.Proofs.Exclusion.Turn
import RunOnce.Proofs.Protocol.Frame

/-!
# The account of one initialization

**Stages** (`Board.stageOf`). Of the calls that go for one handle at one site it matters how far
they are.

**The account** (`Account`) is what the past says about one initialization, whatever it is that
settles it: while somebody is in flight, that call alone has started; once it is settled, one call
has started and has ended; before, nobody has. `Account.move` keeps it, as long as calls start only
when nobody is in flight and nothing is settled, and it is settled exactly when a call leaves.

**Actions** (`account_act`). The list of calls that have started follows the moves.
-/

namespace RunOnce.Protocol

open Function

variable {α : Type}

section

variable {b b' : Board} {c : Nat}

/-- How far a call is, if it is one of those that a predicate on targets and flags picks. The
others count as outside. -/
def Board.stageOf (b : Board) (p : Nat → Nat → Bool) (c : Nat) : Stage :=
  match b.card? c with
  | some card => if p card.target card.flag then card.stage else .outside
  | none => .outside

theorem Board.stageOf_of_card {p : Nat → Nat → Bool} {card : Card} (here : b.card? c = some card)
    (picked : p card.target card.flag = true) : b.stageOf p c = card.stage := by
  simp [stageOf, here, picked]

/-- A call that is not outside is one of those that are picked. -/
theorem Board.card_of_stageOf {p : Nat → Nat → Bool} (h : b.stageOf p c ≠ .outside) :
    ∃ card, b.card? c = some card ∧ p card.target card.flag = true ∧
      card.stage = b.stageOf p c := by
  unfold stageOf at *
  split at h
  · rename_i card hcard
    split at h
    · rename_i hp
      exact ⟨card, hcard, hp, (if_pos hp).symm⟩
    · exact absurd rfl h
  · exact absurd rfl h

/-- A turn moves the stage of its call, among whichever calls. -/
theorem Turn.stageOf (h : b.Inv) (turn : Turn b c b') (p : Nat → Nat → Bool) :
    Move (b.stageOf p c) (b'.stageOf p c) ∧
      b'.stageOf p = update (b.stageOf p) c (b'.stageOf p c) := by
  constructor
  · rcases turn.move h with hsame | ⟨hnone, t, f, hnew⟩ | ⟨card, stage, hcard, hnew, hmove⟩
    · have : b'.stageOf p c = b.stageOf p c := by rw [Board.stageOf, Board.stageOf, hsame]
      rw [this]
      exact .same _
    · have hnow : b'.stageOf p c = .outside := by simp [Board.stageOf, hnew]
      have hbefore : b.stageOf p c = .outside := by simp [Board.stageOf, hnone]
      rw [hnow, hbefore]
      exact .same _
    · by_cases hp : p card.target card.flag = true
      · rw [Board.stageOf_of_card hcard hp, Board.stageOf_of_card hnew hp]
        exact hmove
      · have hnow : b'.stageOf p c = .outside := by simp [Board.stageOf, hnew, hp]
        have hbefore : b.stageOf p c = .outside := by simp [Board.stageOf, hcard, hp]
        rw [hnow, hbefore]
        exact .same _
  · funext k
    by_cases hk : k = c
    · subst hk
      rw [update_self]
    · rw [update_of_ne hk, Board.stageOf, Board.stageOf, turn.card?_of_ne hk]

/-- A turn in which a call among those that are picked starts. -/
theorem Turn.start_of_stageOf (h : b.Inv) (turn : Turn b c b') {p : Nat → Nat → Bool}
    (before : (b.stageOf p c).isInside = false) (after : (b'.stageOf p c).isInside = true) :
    ∃ card f, b.card? c = some card ∧ p card.target card.flag = true ∧
      b.flag? card.flag = some f ∧ ((b.table? card.target = none ∧ f.isDone = false) ∨
        ∃ o n, b.table? card.target = some (o, n) ∧ b.slot? o f.id = some slotIdle) := by
  have hne : b'.stageOf p c ≠ .outside := by
    intro he
    rw [he] at after
    cases after
  obtain ⟨card', hcard', hp, hstage⟩ := Board.card_of_stageOf hne
  rw [← hstage] at after
  rcases turn.move h with hsame | ⟨-, t, f, hnew⟩ | ⟨card, stage, hcard, hnew, -⟩
  · rw [hcard'] at hsame
    rw [Board.stageOf_of_card hsame.symm hp, after] at before
    cases before
  · rw [hcard'] at hnew
    cases hnew
    cases after
  · rw [hcard'] at hnew
    cases hnew
    rw [Board.stageOf_of_card hcard hp] at before
    obtain ⟨-, f, hf, hguard⟩ := turn.of_start hcard hcard' before after
    exact ⟨card, f, hcard, hp, hf, hguard⟩

/-- A turn in which a call among those that are picked leaves, with its flag set or its slot
done. -/
theorem Turn.leave_of_stageOf (h : b.Inv) (turn : Turn b c b') {p : Nat → Nat → Bool}
    {who : Initiator} (before : b.stageOf p c = .leaving who)
    (after : (b'.stageOf p c).holder? = none) :
    ∃ card f, b.card? c = some card ∧ p card.target card.flag = true ∧
      b.flag? card.flag = some f ∧
      ((b.table? card.target = none ∧ b'.isSet card.flag = true) ∨
        ∃ o n, b.table? card.target = some (o, n) ∧ b'.slot? o f.id = some slotDone) := by
  obtain ⟨card, hcard, hp, hstage⟩ := Board.card_of_stageOf (by rw [before]; simp)
  rw [before] at hstage
  have hleft {card' : Card} (now : b'.card? c = some card')
      (same : p card'.target card'.flag = true) : card'.stage ≠ .leaving who := by
    intro he
    rw [Board.stageOf_of_card now same, he] at after
    cases after
  have hleave {card' : Card} (now : b'.card? c = some card')
      (same : p card'.target card'.flag = true) :
      ∃ f, b.flag? card.flag = some f ∧
        ((b.table? card.target = none ∧ b'.isSet card.flag = true) ∨
          ∃ o n, b.table? card.target = some (o, n) ∧ b'.slot? o f.id = some slotDone) := by
    obtain ⟨f, hf, ⟨bare, -, set⟩ | ⟨o, n, table, -, done⟩⟩ :=
      turn.of_leaving h hcard hstage now (hleft now same)
    · exact ⟨f, hf, Or.inl ⟨bare, set⟩⟩
    · exact ⟨f, hf, Or.inr ⟨o, n, table, done⟩⟩
  rcases turn.move h with hsame | ⟨hnone, -⟩ | ⟨mine, stage, hmine, hnew, -⟩
  · rw [hcard] at hsame
    obtain ⟨f, hf, how⟩ := hleave hsame hp
    exact ⟨card, f, hcard, hp, hf, how⟩
  · rw [hcard] at hnone
    cases hnone
  · rw [hcard] at hmine
    cases hmine
    obtain ⟨f, hf, how⟩ := hleave hnew hp
    exact ⟨card, f, hcard, hp, hf, how⟩

end

/-! ## The account -/

/-- What the past says about one initialization: which calls have started it, given how far each
call for it is, whether it was settled from the beginning, and whether it is settled now. -/
structure Account (old settled : Prop) (stage : Nat → Stage) (own en : List Nat) : Prop where
  from_start : old → settled ∧ own = []
  idle : ¬settled → (∀ c, (stage c).holder? = none) → own = []
  held : ∀ c who, (stage c).holder? = some who → own = [c] ∧ ¬settled
  left : ∀ c who, stage c = .leaving who → c ∈ en
  settled : settled → ¬old → ∃ c, own = [c] ∧ c ∈ en

namespace Account

variable {old settled settled' : Prop} {stage : Nat → Stage} {own own' en en' : List Nat}

/-- At most one call has started. -/
theorem length_le_one (acc : Account old settled stage own en) : own.length ≤ 1 := by
  by_cases hs : settled
  · by_cases ho : old
    · simp [(acc.from_start ho).2]
    · obtain ⟨c, hc, -⟩ := acc.settled hs ho
      simp [hc]
  · by_cases hidle : ∀ c, (stage c).holder? = none
    · simp [acc.idle hs hidle]
    · push Not at hidle
      obtain ⟨c, hc⟩ := hidle
      obtain ⟨who, hwho⟩ := Option.ne_none_iff_exists'.mp hc
      simp [(acc.held c who hwho).1]

/-- Nothing happens to what is in flight, at most an initializer ends. -/
theorem restage {stage' : Nat → Stage} (acc : Account old settled stage own en)
    (same : ∀ k, (stage' k).holder? = (stage k).holder?)
    (left : ∀ k who, stage' k = .leaving who → k ∈ en') (keeps : ∀ k ∈ en, k ∈ en') :
    Account old settled stage' own en' := by
  refine { from_start := acc.from_start, idle := ?_, held := ?_, left := left, settled := ?_ }
  · intro hs hidle
    exact acc.idle hs fun k => by rw [← same]; exact hidle k
  · intro k who hk
    rw [same] at hk
    exact acc.held k who hk
  · intro hs ho
    obtain ⟨k, hk, hen⟩ := acc.settled hs ho
    exact ⟨k, hk, keeps k hen⟩

/-- A call starts its initializer. -/
theorem start {c : Nat} (acc : Account old settled stage own en) (who : Initiator)
    (unsettled : ¬settled) (free : ∀ k, (stage k).holder? = none) :
    Account old settled (update stage c (.inside who)) (own ++ [c]) en := by
  have hown : own = [] := acc.idle unsettled free
  have hold : ¬old := fun ho => unsettled (acc.from_start ho).1
  have hother {k : Nat} (hk : k ≠ c) : update stage c (.inside who) k = stage k :=
    update_of_ne hk _ _
  subst hown
  refine { from_start := fun ho => absurd ho hold, idle := ?_, held := ?_, left := ?_
           settled := fun hs => absurd hs unsettled }
  · intro _ hidle
    have hc := hidle c
    rw [update_self] at hc
    cases hc
  · intro k w hk
    by_cases hkc : k = c
    · subst hkc
      exact ⟨rfl, unsettled⟩
    · rw [hother hkc, free k] at hk
      cases hk
  · intro k w hk
    by_cases hkc : k = c
    · subst hkc
      rw [update_self] at hk
      cases hk
    · rw [hother hkc] at hk
      exact acc.left k w hk

/-- A call that has ended its initializer leaves, which settles the initialization. -/
theorem leave {c : Nat} {who : Initiator} {new : Stage} (acc : Account old settled stage own en)
    (leaving : stage c = .leaving who) (empty : new.holder? = none) :
    Account old True (update stage c new) own en := by
  obtain ⟨hown, hset⟩ := acc.held c who (by rw [leaving]; rfl)
  have hfree (k : Nat) : (update stage c new k).holder? = none := by
    by_cases hk : k = c
    · subst hk
      rw [update_self, empty]
    · rw [update_of_ne hk]
      by_contra hcon
      obtain ⟨w, hw⟩ := Option.ne_none_iff_exists'.mp hcon
      have hk' := (acc.held k w hw).1
      rw [hown] at hk'
      exact hk (List.cons.inj hk').1.symm
  refine { from_start := fun ho => absurd (acc.from_start ho).1 hset
           idle := fun hs => absurd trivial hs, held := ?_, left := ?_, settled := ?_ }
  · intro k w hk
    rw [hfree] at hk
    cases hk
  · intro k w hk
    have := hfree k
    rw [hk] at this
    cases this
  · intro _ _
    exact ⟨c, hown, acc.left c who leaving⟩

/-- **One move keeps the account.** -/
theorem move {c : Nat} {new : Stage} (acc : Account old settled stage own en)
    (move : Move (stage c) new)
    (wins : (stage c).isInside = false → new.isInside = true →
      ¬settled ∧ ∀ k, (stage k).holder? = none)
    (settles : settled' ↔ settled ∨ (∃ who, stage c = .leaving who) ∧ new.holder? = none)
    (starts : own' = own ++ if !(stage c).isInside && new.isInside then [c] else [])
    (keeps : ∀ k ∈ en, k ∈ en')
    (ends : (stage c).isInside = true → new.isInside = false → c ∈ en') :
    Account old settled' (update stage c new) own' en' := by
  generalize hstage : stage c = before at move wins settles starts ends
  -- Only a call that leaves settles anything.
  have hset (h : ∀ who, before ≠ .leaving who) : settled' = settled := by
    rw [settles]
    refine propext ⟨?_, Or.inl⟩
    rintro (hs | ⟨⟨who, hwho⟩, -⟩)
    · exact hs
    · exact absurd hwho (h who)
  have hkept (h : ∀ who, new ≠ .leaving who) (k : Nat) (who : Initiator)
      (hleft : update stage c new k = .leaving who) : k ∈ en' := by
    by_cases hk : k = c
    · subst hk
      rw [update_self] at hleft
      exact absurd hleft (h who)
    · rw [update_of_ne hk] at hleft
      exact keeps k (acc.left k who hleft)
  have hholder (h : new.holder? = before.holder?) (k : Nat) :
      (update stage c new k).holder? = (stage k).holder? := by
    by_cases hk : k = c
    · subst hk
      rw [update_self, h, hstage]
    · rw [update_of_ne hk]
  cases move with
  | same =>
    have hown : own' = own := by simpa using starts
    rw [hown, ← hstage, update_eq_self]
    have hsettled : settled' = settled := by
      rw [settles]
      refine propext ⟨?_, Or.inl⟩
      rintro (hs | ⟨⟨who, rfl⟩, hnew⟩)
      · exact hs
      · cases hnew
    rw [hsettled]
    exact acc.restage (fun _ => rfl) (fun k who hk => keeps k (acc.left k who hk)) keeps
  | passes =>
    have hown : own' = own := by simpa [Stage.isInside] using starts
    rw [hown, hset (fun who h => by cases h)]
    exact acc.restage (hholder rfl) (hkept (fun who h => by cases h)) keeps
  | wins who =>
    have hown : own' = own ++ [c] := by simpa [Stage.isInside] using starts
    obtain ⟨unsettled, free⟩ := wins rfl rfl
    rw [hown, hset (fun who h => by cases h)]
    exact (acc.start who unsettled free).restage (fun _ => rfl) (hkept (fun who h => by cases h))
      keeps
  | ends who =>
    have hown : own' = own := by simpa [Stage.isInside] using starts
    rw [hown, hset (fun who h => by cases h)]
    refine acc.restage (hholder rfl) (fun k w hk => ?_) keeps
    by_cases hkc : k = c
    · subst hkc
      exact ends rfl rfl
    · rw [update_of_ne hkc] at hk
      exact keeps k (acc.left k w hk)
  | leaves who | settles who =>
    have hown : own' = own := by simpa [Stage.isInside] using starts
    have hsettled : settled' = True := by
      rw [settles]
      exact eq_true (Or.inr ⟨⟨who, rfl⟩, rfl⟩)
    rw [hown, hsettled]
    exact (acc.leave hstage rfl).restage (fun _ => rfl) (hkept (fun who h => by cases h)) keeps
  | marks =>
    have hown : own' = own := by simpa [Stage.isInside] using starts
    rw [hown, hset (fun who h => by cases h)]
    exact acc.restage (hholder rfl) (hkept (fun who h => by cases h)) keeps

end Account

/-! ## Actions -/

/-- Whether a predicate on targets and flags picks a call. -/
def State.picks (s : State α) (p : Nat → Nat → Bool) (c : Nat) : Bool :=
  (s.calls.get? c).any fun call => p call.target call.flag

/-- The calls that a predicate on targets and flags picks and whose initializers have started, in
order. -/
def State.startedBy (s : State α) (p : Nat → Nat → Bool) (past : List (Moment α)) : List Nat :=
  (started past).filter (s.picks p)

variable {s : State α} {a : Action α} {p : Nat → Nat → Bool} {past : List (Moment α)}

theorem State.isInside_stageOf (s : State α) (p : Nat → Nat → Bool) (c : Nat) :
    (s.board.stageOf p c).isInside = (s.isInside c && s.picks p c) := by
  cases hc : s.calls.get? c with
  | none =>
    simp [Board.stageOf, board, isInside, phaseOf, picks, hc, Phase.isInside, Stage.isInside]
  | some call =>
    have hstage : call.stage.isInside = call.phase.isInside := by
      unfold Call.stage
      split <;> simp_all [Phase.isInside, Stage.isInside]
    by_cases hp : p call.target call.flag = true
    · rw [Board.stageOf_of_card (card?_board hc) hp]
      simp [isInside, phaseOf, picks, hc, hp, ← hstage, Call.card]
    · simp [Board.stageOf, card?_board hc, Call.card, picks, hc, hp, Stage.isInside]

theorem State.picks_of_card {c : Nat} {card : Card} (known : s.board.card? c = some card) :
    s.picks p c = p card.target card.flag := by
  obtain ⟨call, hc, rfl⟩ := Option.map_eq_some_iff.mp known
  rw [picks, hc]
  rfl

/-- A predicate goes on to pick the calls that it picks. -/
theorem State.picks_act (h : s.board.Inv) (alive : s.violation = none) (possible : s.Possible a)
    {c : Nat} {card : Card} (known : s.board.card? c = some card) :
    ∃ card', (s.act a).board.card? c = some card' ∧ (s.act a).picks p c = s.picks p c := by
  have turn := turn_act h alive possible
  by_cases hc : c = a.call s
  · subst hc
    rcases turn.move h with hsame | ⟨hnone, -⟩ | ⟨card', stage, hcard, hnew, -⟩
    · rw [known] at hsame
      exact ⟨card, hsame, by rw [picks_of_card known, picks_of_card hsame]⟩
    · rw [known] at hnone
      cases hnone
    · exact ⟨_, hnew, by rw [picks_of_card hcard, picks_of_card hnew]⟩
  · have hsame := turn.card?_of_ne hc
    rw [known] at hsame
    exact ⟨card, hsame, by rw [picks_of_card known, picks_of_card hsame]⟩

theorem State.card_of_isInside {c : Nat} (hin : s.isInside c = true) :
    ∃ card, s.board.card? c = some card := by
  cases hc : s.calls.get? c with
  | none =>
    rw [isInside, phaseOf, hc] at hin
    cases hin
  | some call => exact ⟨call.card, card?_board hc⟩

/-- A call that is issued is not inside. -/
theorem State.isInside_issue (call : Call α) (new : call.IsNew s) :
    (s.issue call).2.isInside s.nextKey = false := by
  have hget : (s.issue call).2.calls.get? s.nextKey = some call := Store.get?_set_self ..
  rw [isInside, phaseOf_of_get? hget]
  rcases new.phase with hp | hp
  · rw [hp]
    rfl
  · rw [hp]
    rfl

/-- Which of the calls that are picked starts its initializer. -/
theorem State.starts_filter (h : s.board.Inv) (alive : s.violation = none)
    (possible : s.Possible a) (p : Nat → Nat → Bool) :
    (Moment.mk s a).starts?.toList.filter ((s.act a).picks p) =
      if !(s.board.stageOf p (a.call s)).isInside &&
        ((s.act a).board.stageOf p (a.call s)).isInside then [a.call s] else [] := by
  rw [isInside_stageOf, isInside_stageOf]
  cases hsub : a.subject? with
  | none =>
    cases a with
    | issue call =>
      have hnow : (s.act (.issue call)).isInside s.nextKey = false := isInside_issue call possible
      show [] = _
      rw [Action.call, Action.subject?, Option.getD_none, hnow]
      simp
    | advance c => cases hsub
    | finish c ending value => cases hsub
    | abandon c => cases hsub
  | some c =>
    have hcall : a.call s = c := by rw [Action.call, hsub]; rfl
    have hstarts : (Moment.mk s a).starts? =
        if !s.isInside c && (s.act a).isInside c then some c else none := by
      rw [Moment.starts?, hsub, Option.filter_some]
      rfl
    rw [hcall, hstarts]
    cases hin : s.isInside c with
    | false =>
      cases hnow : (s.act a).isInside c <;> cases hp : (s.act a).picks p c <;> simp [hp]
    | true =>
      obtain ⟨card, hcard⟩ := card_of_isInside hin
      obtain ⟨-, -, hpicks⟩ := picks_act (p := p) h alive possible hcard
      cases hp : s.picks p c <;> simp [hp, hpicks]

/-- Calls that have started are there. -/
def State.KnowsStarted (s : State α) (past : List (Moment α)) : Prop :=
  ∀ c ∈ started past, ∃ card, s.board.card? c = some card

theorem State.KnowsStarted.act (h : s.board.Inv) (alive : s.violation = none)
    (possible : s.Possible a) (known : s.KnowsStarted past) :
    (s.act a).KnowsStarted (past ++ [⟨s, a⟩]) := by
  intro c hc
  rw [started_concat, List.mem_append, Option.mem_toList] at hc
  rcases hc with hc | hc
  · obtain ⟨card, hcard⟩ := known c hc
    obtain ⟨card', hcard', -⟩ := picks_act (p := fun _ _ => true) h alive possible hcard
    exact ⟨card', hcard'⟩
  · have hin := (Option.mem_filter_iff.mp hc).2
    exact card_of_isInside (Bool.and_eq_true_iff.mp hin).2

theorem State.startedBy_act (h : s.board.Inv) (alive : s.violation = none)
    (possible : s.Possible a) (known : s.KnowsStarted past) (p : Nat → Nat → Bool) :
    (s.act a).startedBy p (past ++ [⟨s, a⟩]) = s.startedBy p past ++
      if !(s.board.stageOf p (a.call s)).isInside &&
        ((s.act a).board.stageOf p (a.call s)).isInside then [a.call s] else [] := by
  rw [startedBy, started_concat, List.filter_append, starts_filter h alive possible, startedBy]
  congr 1
  refine List.filter_congr fun c hc => ?_
  obtain ⟨card, hcard⟩ := known c hc
  obtain ⟨-, -, hpicks⟩ := picks_act (p := p) h alive possible hcard
  exact hpicks

/-- A call that stops being inside has ended its initializer. -/
theorem State.ends_act (h : s.board.Inv) (alive : s.violation = none) (possible : s.Possible a)
    (hin : (s.board.stageOf p (a.call s)).isInside = true)
    (hout : ((s.act a).board.stageOf p (a.call s)).isInside = false) :
    a.call s ∈ ended (past ++ [⟨s, a⟩]) := by
  rw [isInside_stageOf] at hin hout
  obtain ⟨hin, hp⟩ := Bool.and_eq_true_iff.mp hin
  obtain ⟨card, hcard⟩ := card_of_isInside hin
  obtain ⟨-, -, hpicks⟩ := picks_act (p := p) h alive possible hcard
  rw [hpicks, hp, Bool.and_true] at hout
  cases hsub : a.subject? with
  | none =>
    have hcall : a.call s = s.nextKey := by rw [Action.call, hsub]; rfl
    have hnone : s.board.card? s.nextKey = none := h.fresh _ (Nat.le_refl _)
    rw [hcall, hnone] at hcard
    cases hcard
  | some c =>
    have hcall : a.call s = c := by rw [Action.call, hsub]; rfl
    rw [hcall] at hin hout ⊢
    have hends : (Moment.mk s a).ends? = some c := by
      rw [Moment.ends?, hsub, Option.filter_some]
      show (if s.isInside c && !(s.act a).isInside c then some c else none) = some c
      rw [hin, hout]
      rfl
    rw [ended_concat, hends]
    simp

/-- All calls that a predicate picks go for one handle at one site. -/
def Board.Agree (b : Board) (p : Nat → Nat → Bool) (site : Nat ⊕ Nat) (id : FlagId) : Prop :=
  ∀ c card, b.card? c = some card → p card.target card.flag = true →
    b.site card.target = site ∧ ∃ f, b.flag? card.flag = some f ∧ f.id = id

/-- Of calls for one handle at one site, one at most is in flight. -/
theorem Board.Agree.alone {b : Board} {site : Nat ⊕ Nat} {id : FlagId} (agree : b.Agree p site id)
    (h : b.Inv) {c k : Nat} {w w' : Initiator} (hc : (b.stageOf p c).holder? = some w)
    (hk : (b.stageOf p k).holder? = some w') : c = k := by
  have hclaim {k : Nat} {who : Initiator} (hk : (b.stageOf p k).holder? = some who) :
      ∃ t, b.claim? k = some (t, id, who) ∧ b.site t = site := by
    have hne : b.stageOf p k ≠ .outside := by
      intro he
      rw [he] at hk
      cases hk
    obtain ⟨card, hcard, hp, hstage⟩ := card_of_stageOf hne
    obtain ⟨hsite, f, hf, rfl⟩ := agree k card hcard hp
    rw [← hstage] at hk
    exact ⟨card.target, by rw [claim?_of_card hcard, claimOf_eq_some hk hf], hsite⟩
  obtain ⟨t, hclaimc, hsitec⟩ := hclaim hc
  obtain ⟨t', hclaimk, hsitek⟩ := hclaim hk
  exact h.unique c k t t' id w w' hclaimc hclaimk (by rw [hsitec, hsitek])

/-- A move from outside to inside is a win. -/
theorem Move.of_start {before after : Stage} (move : Move before after)
    (hout : before.isInside = false) (hin : after.isInside = true) :
    before = .outside ∧ ∃ who, after = .inside who := by
  cases move with
  | same =>
    rw [hout] at hin
    cases hin
  | wins who => exact ⟨rfl, who, rfl⟩
  | passes => cases hin
  | ends => cases hin
  | leaves => cases hin
  | settles => cases hin
  | marks => cases hin

/-- **One action keeps an account**, of the calls that go for one handle at one site. -/
theorem account_act {old settled settled' : Prop} {site : Nat ⊕ Nat} {id : FlagId}
    (h : s.board.Inv) (alive : s.violation = none) (possible : s.Possible a)
    (known : s.KnowsStarted past)
    (acc : Account old settled (s.board.stageOf p) (s.startedBy p past) (ended past))
    (agree : (s.act a).board.Agree p site id)
    (starts : (s.board.stageOf p (a.call s)).isInside = false →
      ((s.act a).board.stageOf p (a.call s)).isInside = true → ¬settled)
    (settles : settled' ↔ settled ∨ (∃ who, s.board.stageOf p (a.call s) = .leaving who) ∧
      ((s.act a).board.stageOf p (a.call s)).holder? = none) :
    Account old settled' ((s.act a).board.stageOf p)
      ((s.act a).startedBy p (past ++ [⟨s, a⟩])) (ended (past ++ [⟨s, a⟩])) := by
  have turn := State.turn_act h alive possible
  obtain ⟨hmove, hstages⟩ := turn.stageOf h p
  rw [hstages]
  refine acc.move hmove (fun hout hin => ⟨starts hout hin, fun k => ?_⟩) settles
    (State.startedBy_act h alive possible known p) ?_ (State.ends_act h alive possible)
  · -- Whoever is in flight before goes on to be so, and then there are two.
    by_contra hcon
    obtain ⟨who, hwho⟩ := Option.ne_none_iff_exists'.mp hcon
    obtain ⟨hbefore, mine, hmine⟩ := hmove.of_start hout hin
    have hne : k ≠ a.call s := by
      rintro rfl
      rw [hbefore] at hwho
      cases hwho
    have hk : ((s.act a).board.stageOf p k).holder? = some who := by
      rw [hstages, update_of_ne hne]
      exact hwho
    have hc : ((s.act a).board.stageOf p (a.call s)).holder? = some mine := by
      rw [hmine]
      rfl
    exact hne (agree.alone (h.turn turn) hk hc)
  · intro k hk
    rw [ended_concat]
    exact List.mem_append_left _ hk

/-! ## Runs -/

/-- Whether a flag is set. -/
def State.isSet (s : State α) (f : Nat) : Bool := (s.flags.get? f).any Flag.isDone

/-- Before anything happens nothing has started. -/
theorem account_fresh (fresh : s.IsFresh) (settled : Prop) :
    Account settled settled (s.board.stageOf p) (s.startedBy p [])
      (ended ([] : List (Moment α))) := by
  have hstage (c : Nat) : s.board.stageOf p c = .outside := by
    rw [Board.stageOf, State.card?_fresh fresh]
  refine { from_start := fun ho => ⟨ho, rfl⟩, idle := fun _ _ => rfl, held := ?_, left := ?_
           settled := fun hs ho => absurd hs ho }
  · intro c who hc
    rw [hstage] at hc
    cases hc
  · intro c who hc
    rw [hstage] at hc
    cases hc

section

variable {rule : State α → Action α → Prop} {s₀ : State α}

theorem Run.knows_started (run : Run rule s₀ past s) (fresh : s₀.IsFresh) :
    s.KnowsStarted past := by
  induction run with
  | start =>
    intro c hc
    cases hc
  | step run alive possible _ ih => exact ih.act (run.board_inv fresh) alive possible

/-- Calls that have started since a state are there. -/
theorem Run.knows_later (run : Run rule s₀ past s) (fresh : s₀.IsFresh)
    {later : List (Moment α)} {s' : State α} (more : Run rule s later s') :
    s'.KnowsStarted later := by
  intro c hc
  refine (run.trans more).knows_started fresh c ?_
  rw [started, List.filterMap_append]
  exact List.mem_append_right _ hc

/-- Targets and the handles of flags stay what they were. -/
theorem Run.static (run : Run rule s₀ past s) (fresh : s₀.IsFresh) :
    s.board.table? = s₀.board.table? ∧
      ∀ f, (s.board.flag? f).map Flag.id = (s₀.board.flag? f).map Flag.id := by
  induction run with
  | start => exact ⟨rfl, fun _ => rfl⟩
  | step run alive possible _ ih =>
    have turn := State.turn_act (run.board_inv fresh) alive possible
    exact ⟨turn.table?_eq.trans ih.1, fun f => (turn.flag_id f).trans (ih.2 f)⟩

/-- Where a flag has the same handle, so have calls for it. -/
theorem State.id_flagOf_congr {s' : State α} {call call' : Call α}
    (handle : (s'.flags.get? call.flag).map Flag.id = (s.flags.get? call.flag).map Flag.id)
    (same : call'.flag = call.flag) : (s'.flagOf call').id = (s.flagOf call).id := by
  rw [flagOf, flagOf, same]
  cases hnow : s'.flags.get? call.flag <;> cases hbefore : s.flags.get? call.flag <;>
    simp [hnow, hbefore] at handle
  · rfl
  · exact handle

/-- The handle for which a call goes is what it was. -/
theorem Run.id_flagOf_eq (run : Run rule s₀ past s) (fresh : s₀.IsFresh) (call : Call α) :
    (s.flagOf call).id = (s₀.flagOf call).id :=
  State.id_flagOf_congr ((run.static fresh).2 call.flag) rfl

/-- A call that has returned has its flag set. -/
theorem Run.passed (run : Run rule s₀ past s) (fresh : s₀.IsFresh) :
    ∀ c card, s.board.card? c = some card → card.stage = .passed →
      s.board.isSet card.flag = true := by
  induction run with
  | start =>
    intro c card hc
    rw [State.card?_fresh fresh] at hc
    cases hc
  | step run alive possible _ ih =>
    exact (State.turn_act (run.board_inv fresh) alive possible).passed ih

theorem Run.isSet_of_returned (run : Run rule s₀ past s) (fresh : s₀.IsFresh) {c : Nat}
    {call : Call α} (hc : s.calls.get? c = some call) (hp : call.phase = .ended (.ok none)) :
    s.isSet call.flag = true := by
  refine run.passed fresh c call.card (State.card?_board hc) ?_
  show call.stage = .passed
  rw [Call.stage, hp]

/-- What a rule asks of the calls that are issued holds of all calls. -/
theorem Run.calls_admitted {R : Nat → Nat → Prop} (run : Run rule s₀ past s) (fresh : s₀.IsFresh)
    (issued : ∀ past s call, Run rule s₀ past s → rule s (.issue call) → R call.target call.flag) :
    ∀ c call, s.calls.get? c = some call → R call.target call.flag := by
  induction run with
  | start =>
    intro c call hc
    rw [fresh.calls c] at hc
    cases hc
  | step run alive possible admitted ih =>
    intro c call' hc
    rcases State.calls_act hc with ⟨rfl, -⟩ | ⟨call, hcall, becomes⟩
    · exact issued _ _ _ run admitted
    · rw [becomes.alike.target, becomes.alike.flag]
      exact ih c call hcall

end

end RunOnce.Protocol
