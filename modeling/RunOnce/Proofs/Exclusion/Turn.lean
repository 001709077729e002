import RunOnce.Proofs.Exclusion.Board

/-!
# What a turn changes

**Moves** (`Move`). Seen from one call, a turn does one of seven things to its stage
(`Turn.move`), and it leaves the cards of all other calls alone.

**Guards.** A call starts when its flag is clear or its slot idle (`Turn.of_start`). A flag is set
by a call that leaves a registry, or by one that sees a slot done (`Turn.isSet_cases`). A call that
leaves has set its flag, or settled its slot if it has one (`Turn.of_leaving`).
-/

namespace RunOnce.Protocol

open Function

/-- Whether the initializer of the call runs. -/
def Stage.isInside : Stage → Bool
  | .inside _ => true
  | .outside | .leaving _ | .settled | .passed => false

/-- What a turn does to the stage of its call. -/
inductive Move : Stage → Stage → Prop
  | same (stage : Stage) : Move stage stage
  | passes : Move .outside .passed
  | wins (who : Initiator) : Move .outside (.inside who)
  | ends (who : Initiator) : Move (.inside who) (.leaving who)
  | leaves (who : Initiator) : Move (.leaving who) .outside
  | settles (who : Initiator) : Move (.leaving who) .settled
  | marks : Move .settled .outside

/-! ## What a turn leaves alone -/

section

variable {b b' : Board} {c : Nat}

/-- What a turn does to the card of its call. -/
theorem Turn.move (h : b.Inv) (turn : Turn b c b') :
    b'.card? c = b.card? c ∨
    (b.card? c = none ∧ ∃ t f, b'.card? c = some ⟨t, f, .outside⟩) ∨
    ∃ card stage, b.card? c = some card ∧ b'.card? c = some { card with stage } ∧
      Move card.stage stage := by
  cases turn with
  | still => exact Or.inl rfl
  | observes => exact Or.inl rfl
  | @arrives target flag f fresh known =>
    exact Or.inr (Or.inl ⟨h.fresh c (Nat.le_of_eq fresh.symm), target, flag, update_self ..⟩)
  | @passes card f here outside known set =>
    exact Or.inr (Or.inr ⟨card, _, here, update_self .., outside ▸ .passes⟩)
  | @wins card f who here outside known bare unset free =>
    exact Or.inr (Or.inr ⟨card, _, here, update_self .., outside ▸ .wins who⟩)
  | @claims card f who o n here outside known table within idle =>
    exact Or.inr (Or.inr ⟨card, _, here, update_self .., outside ▸ .wins who⟩)
  | @ends card who here inside =>
    exact Or.inr (Or.inr ⟨card, _, here, update_self .., inside ▸ .ends who⟩)
  | @retires card f who w rest here leaving known bare taken =>
    exact Or.inr (Or.inr ⟨card, _, here, update_self .., leaving ▸ .leaves who⟩)
  | @settles card f who o n here leaving known table =>
    exact Or.inr (Or.inr ⟨card, _, here, update_self .., leaving ▸ .settles who⟩)
  | @marks card f o n here settled known table done =>
    exact Or.inr (Or.inr ⟨card, _, here, update_self .., settled ▸ .marks⟩)

/-! ## What a turn needs -/

/-- A call that starts is outside, and its flag is clear or its slot idle. -/
theorem Turn.of_start (turn : Turn b c b') {card card' : Card} (here : b.card? c = some card)
    (now : b'.card? c = some card') (before : card.stage.isInside = false)
    (after : card'.stage.isInside = true) :
    card.stage = .outside ∧ ∃ f, b.flag? card.flag = some f ∧
      ((b.table? card.target = none ∧ f.isDone = false) ∨
        ∃ o n, b.table? card.target = some (o, n) ∧ b.slot? o f.id = some slotIdle) := by
  have hnow {new : Card} (h : b'.card? c = some new) (hout : new.stage.isInside = false) :
      False := by
    rw [now] at h
    cases h
    rw [hout] at after
    cases after
  have hstill (h : b'.card? c = b.card? c) : False := by
    rw [here] at h
    exact hnow h before
  cases turn with
  | still => exact (hstill rfl).elim
  | observes => exact (hstill rfl).elim
  | arrives => exact (hnow (update_self ..) rfl).elim
  | passes => exact (hnow (update_self ..) rfl).elim
  | ends => exact (hnow (update_self ..) rfl).elim
  | retires => exact (hnow (update_self ..) rfl).elim
  | settles => exact (hnow (update_self ..) rfl).elim
  | marks => exact (hnow (update_self ..) rfl).elim
  | @wins mine f who hmine outside known bare unset free =>
    rw [here] at hmine
    cases hmine
    exact ⟨outside, f, known, Or.inl ⟨bare, unset⟩⟩
  | @claims mine f who o n hmine outside known table within idle =>
    rw [here] at hmine
    cases hmine
    exact ⟨outside, f, known, Or.inr ⟨o, n, table, idle⟩⟩

/-- Whether a flag is set. -/
def Board.isSet (b : Board) (f : Nat) : Bool := (b.flag? f).any Flag.isDone

theorem Board.isSet_of_flag {f : Nat} {flag : Flag} (known : b.flag? f = some flag) :
    b.isSet f = flag.isDone := by
  rw [isSet, known]
  rfl

theorem Board.isSet_setFlag (b : Board) (g f : Nat) (flag : Flag) :
    (b.setFlag g flag.complete).isSet f = true ↔ f = g ∨ b.isSet f = true := by
  by_cases hf : f = g
  · subst hf
    simp [isSet, setFlag, Flag.complete]
  · simp [isSet, setFlag, hf]

/-- Flags stay set. -/
theorem Turn.isSet_mono (turn : Turn b c b') {f : Nat} (set : b.isSet f = true) :
    b'.isSet f = true := by
  cases turn with
  | retires => exact (Board.isSet_setFlag ..).mpr (Or.inr set)
  | marks => exact (Board.isSet_setFlag ..).mpr (Or.inr set)
  | observes => exact (Board.isSet_setFlag ..).mpr (Or.inr set)
  | _ => exact set

/-- A flag that is set now was set before, or its call leaves a registry or sees the slot done. -/
theorem Turn.isSet_cases (turn : Turn b c b') {f : Nat} (set : b'.isSet f = true) :
    b.isSet f = true ∨ ∃ card flag, b.card? c = some card ∧ card.flag = f ∧
      b.flag? f = some flag ∧
      ((∃ who, card.stage = .leaving who ∧ b.table? card.target = none ∧
          b'.card? c = some { card with stage := .outside }) ∨
        ∃ o n, b.table? card.target = some (o, n) ∧ b.slot? o flag.id = some slotDone) := by
  cases turn with
  | @retires card flag who w rest here leaving known bare taken =>
    rcases (Board.isSet_setFlag ..).mp set with rfl | hset
    · exact Or.inr ⟨card, flag, here, rfl, known, Or.inl ⟨who, leaving, bare, update_self ..⟩⟩
    · exact Or.inl hset
  | @marks card flag o n here settled known table done =>
    rcases (Board.isSet_setFlag ..).mp set with rfl | hset
    · exact Or.inr ⟨card, flag, here, rfl, known, Or.inr ⟨o, n, table, done⟩⟩
    · exact Or.inl hset
  | @observes card flag o n here outside known table done =>
    rcases (Board.isSet_setFlag ..).mp set with rfl | hset
    · exact Or.inr ⟨card, flag, here, rfl, known, Or.inr ⟨o, n, table, done⟩⟩
    · exact Or.inl hset
  | _ => exact Or.inl set

/-- A call that leaves has set its flag, or settled its slot if it has one. -/
theorem Turn.of_leaving (h : b.Inv) (turn : Turn b c b') {card card' : Card} {who : Initiator}
    (here : b.card? c = some card) (leaving : card.stage = .leaving who)
    (now : b'.card? c = some card') (moved : card'.stage ≠ .leaving who) :
    ∃ f, b.flag? card.flag = some f ∧
      ((b.table? card.target = none ∧ card' = { card with stage := .outside } ∧
          b'.isSet card.flag = true) ∨
        ∃ o n, b.table? card.target = some (o, n) ∧ card' = { card with stage := .settled } ∧
          b'.slot? o f.id = some slotDone) := by
  have hmoved (hsame : b'.card? c = b.card? c) : False := by
    rw [now, here] at hsame
    cases hsame
    exact moved leaving
  have hstage {mine : Card} (hmine : b.card? c = some mine) : mine.stage = .leaving who := by
    rw [here] at hmine
    cases hmine
    exact leaving
  cases turn with
  | still => exact (hmoved rfl).elim
  | observes => exact (hmoved rfl).elim
  | @arrives target flag f fresh known =>
    rw [h.fresh c (Nat.le_of_eq fresh.symm)] at here
    cases here
  | @passes mine f hmine outside => cases outside.symm.trans (hstage hmine)
  | @wins mine f w hmine outside => cases outside.symm.trans (hstage hmine)
  | @claims mine f w o n hmine outside => cases outside.symm.trans (hstage hmine)
  | @ends mine w hmine inside => cases inside.symm.trans (hstage hmine)
  | @retires mine f w w' rest hmine leaving' known bare taken =>
    rw [here] at hmine
    cases hmine
    have hcard : some card' = some { card with stage := .outside } := now.symm.trans (update_self ..)
    exact ⟨f, known, Or.inl ⟨bare, Option.some.inj hcard,
      (Board.isSet_setFlag ..).mpr (Or.inl rfl)⟩⟩
  | @settles mine f w o n hmine leaving' known table =>
    rw [here] at hmine
    cases hmine
    have hcard : some card' = some { card with stage := .settled } := now.symm.trans (update_self ..)
    exact ⟨f, known, Or.inr ⟨o, n, table, Option.some.inj hcard, Board.slot?_setSlot_self ..⟩⟩
  | @marks mine f o n hmine settled => cases settled.symm.trans (hstage hmine)

/-- What has passed has its flag set. -/
theorem Turn.passed (turn : Turn b c b')
    (h : ∀ k card, b.card? k = some card → card.stage = .passed → b.isSet card.flag = true) :
    ∀ k card, b'.card? k = some card → card.stage = .passed → b'.isSet card.flag = true := by
  intro k card hk hpassed
  by_cases hkc : k = c
  · subst hkc
    have hnow {new : Card} (hnew : b'.card? k = some new) (hstage : new.stage ≠ .passed) :
        b'.isSet card.flag = true := by
      rw [hk] at hnew
      cases hnew
      exact absurd hpassed hstage
    cases turn with
    | still => exact h k card hk hpassed
    | @observes mine f o n here outside known table done =>
      have hset : b.isSet card.flag = true := h k card hk hpassed
      exact (Board.isSet_setFlag ..).mpr (Or.inr hset)
    | @passes mine f here outside known set =>
      have hcard : (b.setCard k { mine with stage := .passed }).card? k = some _ := update_self ..
      rw [hcard] at hk
      cases hk
      show b.isSet mine.flag = true
      rw [Board.isSet_of_flag known]
      exact set
    | arrives => exact hnow (update_self ..) (by simp)
    | wins => exact hnow (update_self ..) (by simp)
    | claims => exact hnow (update_self ..) (by simp)
    | ends => exact hnow (update_self ..) (by simp)
    | retires => exact hnow (update_self ..) (by simp)
    | settles => exact hnow (update_self ..) (by simp)
    | marks => exact hnow (update_self ..) (by simp)
  · rw [turn.card?_of_ne hkc] at hk
    exact turn.isSet_mono (h k card hk hpassed)

end

end RunOnce.Protocol
