import RunOnce.Proofs.Exclusion.Global
import RunOnce.Proofs.Waiting.Guards

/-!
# A flag that is closed

**Closed** (`Board.Closed`). A flag at a target is closed when it is set, its slot is done if the
target is a slot table, and no call has it in flight there. Whatever happens, it stays closed
(`Board.Closed.turn`): a call that found the flag clear before finds it set under the lock of a
registry, or its slot done.

**Theorem (`Run.closed`).** The flag of a global that had no value in the beginning is closed at the
target of the global as soon as it is set. It is set by a call that leaves its registry, which was
the only one in flight, by one that has settled its slot, or by one that sees the slot done
(`State.MaySet`); all of them go through the target of the global.
-/

namespace RunOnce.Protocol

open State

/-! ## On the board -/

section

variable {b b' : Board} {c t f : Nat}

/-- A flag is set for good at a target. -/
structure Board.Closed (b : Board) (t f : Nat) : Prop where
  set : b.isSet f = true
  settled : ∀ o n flag, b.table? t = some (o, n) → b.flag? f = some flag →
    flag.id.index < n ∧ b.slot? o flag.id = some slotDone
  idle : ∀ c card, b.card? c = some card → card.target = t → card.flag = f →
    card.stage.holder? = none

/-- The flag before a turn, with the same handle. -/
theorem Turn.flag_before (turn : Turn b c b') {flag : Flag} (now : b'.flag? f = some flag) :
    ∃ before, b.flag? f = some before ∧ before.id = flag.id := by
  have hid := turn.flag_id f
  rw [now] at hid
  exact Option.map_eq_some_iff.mp hid.symm

/-- What is in flight through a slot table has a slot, which is not done. -/
theorem Board.Inv.slot_of_holder (h : b.Inv) {card : Card} {who : Initiator} {flag : Flag} {o : Nat}
    {n : UInt32} (here : b.card? c = some card) (holder : card.stage.holder? = some who)
    (known : b.flag? card.flag = some flag) (table : b.table? card.target = some (o, n)) :
    flag.id.index < n ∧ b.slot? o flag.id ≠ some slotDone := by
  have hclaim : b.claim? c = some (card.target, flag.id, who) := by
    rw [claim?_of_card here, claimOf_eq_some holder known]
  obtain ⟨within, running⟩ := h.running c _ _ _ o n hclaim table
  refine ⟨within, fun done => ?_⟩
  rw [running] at done
  cases done

/-- A flag that is set is closed where its slot is done. -/
theorem Board.Inv.closed_of_done (h : b.Inv) {flag : Flag} {o : Nat} {n : UInt32}
    (set : b.isSet f = true) (known : b.flag? f = some flag) (table : b.table? t = some (o, n))
    (within : flag.id.index < n) (done : b.slot? o flag.id = some slotDone) : b.Closed t f where
  set := set
  settled o' n' flag' table' known' := by
    rw [table] at table'
    rw [known] at known'
    cases table'
    cases known'
    exact ⟨within, done⟩
  idle k card here target same := by
    subst target same
    by_contra hholder
    obtain ⟨who, holder⟩ := Option.ne_none_iff_exists'.mp hholder
    exact (h.slot_of_holder here holder known table).2 done

/-- A flag that a turn sets is closed where its slot is done. -/
theorem Turn.closed_of_done (h : b.Inv) (turn : Turn b c b') {flag : Flag} {o : Nat} {n : UInt32}
    (set : b'.isSet f = true) (known : b.flag? f = some flag) (table : b.table? t = some (o, n))
    (within : flag.id.index < n) (done : b.slot? o flag.id = some slotDone) : b'.Closed t f := by
  rw [← turn.table?_eq] at table
  have hid := turn.flag_id f
  rw [known] at hid
  obtain ⟨flag', known', same⟩ := Option.map_eq_some_iff.mp hid
  rw [← same] at within done
  exact (h.turn turn).closed_of_done set known' table within (turn.slot?_done done)

/-- A call that leaves a registry closes its flag. -/
theorem Turn.closed_of_leave (h : b.Inv) (turn : Turn b c b') {card : Card} {who : Initiator}
    (here : b.card? c = some card) (leaving : card.stage = .leaving who)
    (bare : b.table? card.target = none) (now : b'.card? c = some { card with stage := .outside })
    (set : b'.isSet card.flag = true) : b'.Closed card.target card.flag := by
  have holder : card.stage.holder? = some who := by
    rw [leaving]
    rfl
  refine { set := set, settled := fun o n flag' table _ => ?_, idle := ?_ }
  · rw [turn.table?_eq, bare] at table
    cases table
  · intro k other there target same
    by_cases mine : k = c
    · subst mine
      rw [now] at there
      cases there
      rfl
    · by_contra hholder
      obtain ⟨who', holder'⟩ := Option.ne_none_iff_exists'.mp hholder
      rw [turn.card?_of_ne mine] at there
      exact mine (h.holder_alone here there holder holder' target same)

/-- **What is closed stays closed.** -/
theorem Board.Closed.turn (h : b.Inv) (turn : Turn b c b') (closed : b.Closed t f) :
    b'.Closed t f where
  set := turn.isSet_mono closed.set
  settled o n flag table known := by
    rw [turn.table?_eq] at table
    obtain ⟨before, hbefore, hid⟩ := turn.flag_before known
    obtain ⟨within, done⟩ := closed.settled o n before table hbefore
    rw [← hid]
    exact ⟨within, turn.slot?_done done⟩
  idle k card now target same := by
    by_cases mine : k = c
    · subst mine
      rcases turn.move h with hstill | ⟨-, t', f', hnew⟩ | ⟨before, stage, here, hnow, move⟩
      · exact closed.idle k card (hstill.symm.trans now) target same
      · rw [now] at hnew
        cases hnew
        rfl
      · rw [now] at hnow
        cases hnow
        have hidle := closed.idle k before here target same
        generalize hstage : before.stage = stage₀ at move hidle
        cases move with
        | same => exact hidle
        | passes => rfl
        | leaves => rfl
        | settles => rfl
        | marks => rfl
        | ends => cases hidle
        | wins who =>
          -- A call starts when its flag is clear or its slot idle.
          obtain ⟨-, flag, known, ⟨-, clear⟩ | ⟨o, n, table, idle⟩⟩ :=
            turn.of_start here now (by rw [hstage]; rfl) rfl
          · have set := closed.set
            rw [← same, Board.isSet_of_flag known, clear] at set
            cases set
          · have done := (closed.settled o n flag (target ▸ table) (same ▸ known)).2
            rw [idle] at done
            cases done
    · rw [turn.card?_of_ne mine] at now
      exact closed.idle k card now target same

end

/-! ## On runs -/

section

variable {α : Type} {s s₀ : State α} {a : Action α} {past : List (Moment α)} {c f k : Nat}
  {call : Call α} {cell₀ : LazyCell α}

/-- Why a call sets its flag: it leaves a registry, has settled its slot, or sees it done. -/
def State.MaySet (s : State α) (call : Call α) : Prop :=
  (∃ ending r, call.phase = .completing ending ∧ s.executorOf call = some (.registry r)) ∨
    (∃ ending, call.phase = .marking ending) ∨
    call.phase = .polling ∧ s.slotSeen? call = some slotDone

/-- A step sets the flag of its call. -/
theorem State.isSet_effect {s' : State α} {notices : List (Notice α)}
    (effect : Effect s c call s' notices) (clear : s.isSet f = false) (set : s'.isSet f = true) :
    call.flag = f ∧ s.MaySet call := by
  have hsame {next : State α} (flags : next.flags = s.flags) (h : next.isSet f = true) : False := by
    rw [isSet, flags, ← isSet, clear] at h
    cases h
  have hset {next : State α} (flags : next.flags = s.flags.modify call.flag Flag.complete)
      (h : next.isSet f = true) : call.flag = f := by
    by_contra other
    rw [isSet, flags, Store.get?_modify, if_neg other, ← isSet, clear] at h
    cases h
  cases effect with
  | follows phase done => exact ⟨hset rfl set, Or.inr (Or.inr ⟨phase, done⟩)⟩
  | marks phase => exact ⟨hset rfl set, Or.inr (Or.inl ⟨_, phase⟩)⟩
  | misses phase through | retires phase through =>
    exact ⟨hset rfl set, Or.inl ⟨_, _, phase, through⟩⟩
  | late | meets | joins | wins | recurs | loses | claims =>
    obtain ⟨n, -, hn⟩ := identify_eq s call
    refine (hsame ?_ set).elim
    show (s.identify call).2.flags = s.flags
    rw [hn]
  | hands =>
    obtain ⟨calls, hcalls⟩ := handOver_eq ..
    refine (hsame ?_ set).elim
    rw [hcalls]
    rfl
  | _ => exact (hsame rfl set).elim

theorem State.isSet_act (alive : s.violation = none) (possible : s.Possible a)
    (clear : s.isSet f = false) (set : (s.act a).isSet f = true) :
    ∃ c call, a.call s = c ∧ s.calls.get? c = some call ∧ call.flag = f ∧ s.MaySet call := by
  have impact := impact_act alive possible
  generalize s.act a = s' at impact set
  have hsame {next : State α} (flags : next.flags = s.flags) (h : next.isSet f = true) : False := by
    rw [isSet, flags, ← isSet, clear] at h
    cases h
  cases impact with
  | steps known effect => exact ⟨_, _, rfl, known, isSet_effect effect clear set⟩
  | _ => exact (hsame rfl set).elim

/-- A call that sets its flag closes it. -/
theorem State.closed_act (inv : s.board.Inv) (alive : s.violation = none)
    (possible : s.Possible a) (clear : s.isSet f = false) (set : (s.act a).isSet f = true) :
    ∃ c call, s.calls.get? c = some call ∧ call.flag = f ∧ call.phase.access = .tied ∧
      (s.act a).board.Closed call.target f := by
  have turn := turn_act inv alive possible
  obtain ⟨c, call, rfl, hc, rfl, ⟨ending, r, phase, through⟩ | ⟨ending, phase⟩ | ⟨phase, done⟩⟩ :=
    isSet_act alive possible clear set
  · refine ⟨_, call, hc, rfl, by rw [phase]; rfl, ?_⟩
    have holder : call.stage.holder? = some (call.initiator.getD default) := by
      rw [holder?_stage, phase]
      rfl
    have leaving : call.stage = .leaving (call.initiator.getD default) := by
      rw [Call.stage, phase]
    rcases turn.isSet_cases set with hset | ⟨card, flag, here, -, known, hcase⟩
    · have hset : s.isSet call.flag = true := hset
      rw [clear] at hset
      cases hset
    · obtain rfl : call.card = card := Option.some.inj ((card?_board hc).symm.trans here)
      rcases hcase with ⟨who, -, bare, now⟩ | ⟨o, n, table, hdone⟩
      · exact turn.closed_of_leave inv here leaving bare now set
      · exact absurd hdone (inv.slot_of_holder here holder known table).2
  · refine ⟨_, call, hc, rfl, by rw [phase]; rfl, ?_⟩
    obtain ⟨o, n, table, within, hdone⟩ := slot?_of_marking inv hc phase
    exact turn.closed_of_done inv set (known_flagOf inv hc) table within hdone
  · refine ⟨_, call, hc, rfl, by rw [phase]; rfl, ?_⟩
    obtain ⟨table, through⟩ := table_of_slotSeen? done
    rw [slotSeen?, through] at done
    obtain ⟨within, hdone⟩ := slot?_board inv through done
    exact turn.closed_of_done inv set (known_flagOf inv hc) (table?_board through) within hdone

/-- **The flag of a global is closed once it is set**, at the target of the global, unless the
global had its value in the beginning. -/
theorem Run.closed (run : Run (AccessedAs k cell₀.flag) s₀ past s) (fresh : s₀.IsFresh)
    (known : s₀.cells.get? k = some cell₀) (settled : cell₀.content ≠ .writing)
    (clear : s₀.isSet cell₀.flag = false) (set : s.isSet cell₀.flag = true) :
    ∃ cell t, s.cells.get? k = some cell ∧ cell.bound = some t ∧
      s.board.Closed t cell₀.flag := by
  induction run with
  | start =>
    rw [clear] at set
    cases set
  | @step past s a run alive possible admitted ih =>
    have inv := run.board_inv fresh
    have turn := turn_act inv alive possible
    cases before : s.isSet cell₀.flag with
    | true =>
      obtain ⟨cell, t, hcell, bound, closed⟩ := ih before
      obtain ⟨cell', comes⟩ := comes_act alive possible (absent_nextKey inv) hcell
      exact ⟨cell', t, comes.known, comes.bound_eq bound, closed.turn inv turn⟩
    | false =>
      obtain ⟨cell, g⟩ := run.guarded fresh known settled
      obtain ⟨cell', comes⟩ := comes_act alive possible (absent_nextKey inv) g.known
      obtain ⟨c, call, hc, hflag, tied, closed⟩ := closed_act inv alive possible before set
      have bound := g.through c call hc ((g.owns c call hc).mpr hflag) (by rw [tied]; rfl)
      exact ⟨cell', call.target, comes.known, comes.bound_eq bound, closed⟩

end

end RunOnce.Protocol
