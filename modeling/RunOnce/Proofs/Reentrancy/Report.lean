import RunOnce.Proofs.Exclusion.Refine
import RunOnce.Proofs.Reentrancy.Lineage

/-!
# When a call is told that it is reentrant

**Theorem (`async_reentrant_iff`).** An asynchronous call is told so in its locked section only, and
exactly when an initialization for its handle is in flight through the same target and the call that
runs it takes its token from a call from which this one takes its token, too.

This is not the same as nesting. Two calls that one initializer makes side by side take over one
token, so the second one is told that it is reentrant, although the first one does not enclose it.
Calls that no initializer makes are never told so, unless the one in flight is their own.
-/

namespace RunOnce.Protocol

open Relation State

variable {α : Type}

/-- The call has an initialization in flight for a handle through a target. -/
def State.InFlight (s : State α) (w t : Nat) (id : FlagId) : Prop :=
  ∃ call, s.calls.get? w = some call ∧ call.target = t ∧ (s.flagOf call).id = id ∧
    call.phase.isInFlight = true

/-- What a registry wants to go on: the flag is clear. A slot table does not look at it. -/
def State.SeesClear (s : State α) (call : Call α) : Prop :=
  ∀ r, s.executorOf call = some (.registry r) → (s.flagOf call).isDone = false

/-- One call makes another one in its initializer, or in that of one that it makes, and so on. -/
def Encloses (s : State α) : Nat → Nat → Prop :=
  TransGen fun outer c => ∃ call, s.calls.get? c = some call ∧ call.enclosing = some outer

/-- Two calls take over one token. -/
def Akin (s : State α) (c w : Nat) : Prop :=
  ∃ r, ReflTransGen (Passes s) r c ∧ ReflTransGen (Passes s) r w

variable {s : State α} {c w t : Nat} {id : FlagId} {call : Call α}

/-! ## What is in flight -/

theorem holder?_stage (call : Call α) : call.stage.holder? =
    if call.phase.isInFlight then some (call.initiator.getD default) else none := by
  cases hp : call.phase with
  | ended outcome =>
    cases outcome with
    | ok value => cases value <;> simp [Call.stage, hp, Stage.holder?, Phase.isInFlight]
    | _ => simp [Call.stage, hp, Stage.holder?, Phase.isInFlight]
  | _ => simp [Call.stage, hp, Stage.holder?, Phase.isInFlight]

/-- What the board says about what a call has in flight. -/
theorem claim?_iff (h : s.board.Inv) (lineage : Lineage s) {who : Initiator} :
    s.board.claim? w = some (t, id, who) ↔
      s.InFlight w t id ∧ ∃ call, s.calls.get? w = some call ∧ call.initiator = some who := by
  constructor
  · intro hclaim
    obtain ⟨card, hcard, hof⟩ := Option.bind_eq_some_iff.mp hclaim
    obtain ⟨call, hc, rfl⟩ := Option.map_eq_some_iff.mp hcard
    obtain ⟨who', hholder, hflag⟩ := Option.bind_eq_some_iff.mp hof
    have hknown : s.board.flag? call.card.flag = some (s.flagOf call) := known_flagOf h hc
    rw [hknown] at hflag
    cases hflag
    have hholder : call.stage.holder? = some who := hholder
    rw [holder?_stage] at hholder
    split at hholder
    · rename_i hin
      obtain ⟨mine, hmine⟩ := Option.ne_none_iff_exists'.mp (lineage.inside w call hc hin)
      rw [hmine] at hholder
      cases hholder
      exact ⟨⟨call, hc, rfl, rfl, hin⟩, call, hc, hmine⟩
    · cases hholder
  · rintro ⟨⟨call, hc, rfl, rfl, hin⟩, call', hc', hwho⟩
    rw [hc] at hc'
    cases hc'
    refine claim?_board h hc ?_
    rw [holder?_stage, if_pos hin, hwho]
    rfl

/-- Through one target one call at most has an initialization in flight for a handle. -/
theorem InFlight.unique (h : s.board.Inv) (lineage : Lineage s) {w' : Nat}
    (hw : s.InFlight w t id) (hw' : s.InFlight w' t id) : w = w' := by
  have hclaim {k : Nat} (hk : s.InFlight k t id) : ∃ who, s.board.claim? k = some (t, id, who) := by
    have hk' := hk
    obtain ⟨call, hc, -, -, hin⟩ := hk'
    obtain ⟨who, hwho⟩ := Option.ne_none_iff_exists'.mp (lineage.inside k call hc hin)
    exact ⟨who, (claim?_iff h lineage).mpr ⟨hk, call, hc, hwho⟩⟩
  obtain ⟨who, hclaimw⟩ := hclaim hw
  obtain ⟨who', hclaimw'⟩ := hclaim hw'
  exact h.unique w w' t t id who who' hclaimw hclaimw' rfl

/-! ## The answer -/

/-- Of the entries of a target one at most is for a handle. -/
theorem held_unique (h : s.board.Inv) {who who' : Initiator} (hw : (id, who) ∈ s.board.held t)
    (hw' : (id, who') ∈ s.board.held t) : who = who' := by
  have heq := List.inj_on_of_nodup_map (h.distinct t) hw hw' rfl
  cases heq
  rfl

theorem reentrant_enterRegistry_iff {r : Registry Nat} (h : s.board.Inv)
    (he : s.executorOf call = some (.registry r)) :
    ((s.enterRegistry c call r).1.phaseOf c).isReentrant = true ↔
      (s.flagOf call).isDone = false ∧
        ((s.flagOf call).id, (s.identify call).1) ∈ s.board.held call.target := by
  have hheld : s.board.held call.target = r.held := held_board he
  rw [hheld]
  obtain ⟨r', phase, hs, hcases⟩ := s.enterRegistry_cases c call r
  have hphase : (s.enterRegistry c call r).1.phaseOf c = phase := by
    rw [hs]
    exact phaseOf_setCall ..
  rw [hphase]
  rcases hcases with ⟨hset, rfl, -⟩ | ⟨hclear, ⟨op, hop, hwho⟩, rfl, -⟩ |
    ⟨-, ⟨op, hop, hwho⟩, rfl, -⟩ | ⟨-, hnone, rfl, -⟩
  · constructor
    · intro hr
      cases hr
    · rintro ⟨hclear, -⟩
      rw [hset] at hclear
      cases hclear
  · constructor
    · intro _
      have hmem := Registry.mem_held_of_find? hop
      rw [hwho] at hmem
      exact ⟨hclear, hmem⟩
    · exact fun _ => rfl
  · constructor
    · intro hr
      cases hr
    · rintro ⟨-, hmem⟩
      have hmem' := Registry.mem_held_of_find? hop
      rw [← hheld] at hmem hmem'
      exact absurd (held_unique h hmem' hmem) hwho
  · constructor
    · intro hr
      cases hr
    · rintro ⟨-, hmem⟩
      exact absurd hmem (Registry.find?_eq_none.mp hnone _)

theorem reentrant_enterTable_iff {table : SlotTable} (h : s.board.Inv)
    (possible : s.Possible (.advance c)) (hc : s.calls.get? c = some call)
    (contending : call.phase = .contending)
    (he : s.executorOf call = some (.table table)) :
    ((s.enterTable c call table).1.phaseOf c).isReentrant = true ↔
      ((s.flagOf call).id, (s.identify call).1) ∈ s.board.held call.target := by
  have hheld : s.board.held call.target = table.unlock.claims := held_board he
  have hphase {phase : Phase α} {next : State α} {call' : Call α}
      (hs : (s.enterTable c call table).1 = next.setCall c call') (hp : call'.phase = phase) :
      (s.enterTable c call table).1.phaseOf c = phase := by
    rw [hs, ← hp]
    exact phaseOf_setCall ..
  rcases s.enterTable_cases c call table with
    ⟨hnone, -, hs⟩ | ⟨locked, seen, -⟩ |
    ⟨v, -, free, ⟨hmem, hs⟩ | ⟨hmem, -, hs⟩ | ⟨hmem, -, hs⟩⟩
  · constructor
    · intro hr
      rw [hs] at hr
      have hsame : (s.phaseOf c).isReentrant = true := hr
      rw [phaseOf_of_get? hc, contending] at hsame
      cases hsame
    · intro hmem
      -- A handle that is held lies inside the table.
      obtain ⟨k, hk⟩ := (h.mem_held _ _ _).mp hmem
      obtain ⟨within, -⟩ := h.running _ _ _ _ _ _ hk (table?_board he)
      rw [SlotTable.state?, SlotTable.wordOf?, if_pos within] at hnone
      cases hnone
  · have free := guard?_of_possible possible hc (by rw [contending]; rfl) he seen
    rw [SlotTable.isLocked_eq_false.mpr free] at locked
    cases locked
  · rw [hphase hs rfl, hheld, SlotTable.unlock_of_free free]
    exact ⟨fun _ => hmem, fun _ => rfl⟩
  · rw [hphase hs rfl, hheld, SlotTable.unlock_of_free free]
    exact ⟨fun hr => absurd hr Bool.false_ne_true, fun hm => absurd hm hmem⟩
  · rw [hphase hs rfl, hheld, SlotTable.unlock_of_free free]
    exact ⟨fun hr => absurd hr Bool.false_ne_true, fun hm => absurd hm hmem⟩

/-- A call in its locked section is told that it is reentrant when it meets its own identity. -/
theorem reentrant_enter_iff (h : s.board.Inv) (possible : s.Possible (.advance c))
    (hc : s.calls.get? c = some call) (contending : call.phase = .contending) :
    ((s.enter c call).1.phaseOf c).isReentrant = true ↔
      s.SeesClear call ∧ ((s.flagOf call).id, (s.identify call).1) ∈ s.board.held call.target := by
  cases he : s.executorOf call with
  | none =>
    have hheld : s.board.held call.target = [] := by
      have hget : s.targets.get? call.target = none := Option.map_eq_none_iff.mp he
      show ((s.targets.get? call.target).map fun target => target.executor.held).getD [] = []
      rw [hget]
      rfl
    simp only [enter, he]
    rw [phaseOf_of_get? hc, contending, hheld]
    constructor
    · intro hr
      cases hr
    · intro hm
      exact absurd hm.2 List.not_mem_nil
  | some executor =>
    cases executor with
    | registry r =>
      simp only [enter, he]
      rw [reentrant_enterRegistry_iff h he]
      refine and_congr ?_ Iff.rfl
      constructor
      · exact fun hclear _ _ => hclear
      · exact fun hclear => hclear r he
    | table table =>
      simp only [enter, he]
      rw [reentrant_enterTable_iff h possible hc contending he]
      refine ⟨fun hmem => ⟨fun r hr => ?_, hmem⟩, fun hm => hm.2⟩
      rw [he] at hr
      cases hr

/-- The call is told that it is reentrant in its locked section only. -/
theorem reentrant_act_iff {a : Action α} (alive : s.violation = none)
    (fresh : s.calls.get? s.nextKey = none) (hc : s.calls.get? c = some call)
    (untold : call.phase.isReentrant = false) :
    ((s.act a).phaseOf c).isReentrant = true ↔
      a = .advance c ∧ call.phase = .contending ∧
        ((s.enter c call).1.phaseOf c).isReentrant = true := by
  have henter (contending : call.phase = .contending) :
      s.act (.advance c) = (s.enter c call).1 := by
    show (s.advance c).1 = _
    simp only [advance, alive, hc, contending]
  obtain ⟨call', hc', becomes⟩ := call_act (a := a) fresh hc
  constructor
  · intro hr
    rw [phaseOf_of_get? hc'] at hr
    obtain ⟨rfl, contending⟩ := becomes.of_isReentrant untold hr
    rw [← phaseOf_of_get? hc', henter contending] at hr
    exact ⟨rfl, contending, hr⟩
  · rintro ⟨rfl, contending, hr⟩
    rw [henter contending]
    exact hr

/-! ## Runs -/

theorem lineage_fresh (fresh : s.IsFresh) : Lineage s := by
  have hnone (c : Nat) (call : Call α) : s.calls.get? c ≠ some call := by
    rw [fresh.calls c]
    exact Option.some_ne_none call ∘ Eq.symm
  have htoken (c token : Nat) : s.tokenOf? c ≠ some token := by
    rw [tokenOf?, fresh.calls c]
    exact Option.some_ne_none token ∘ Eq.symm
  exact {
    early := fun c call hc => absurd hc (hnone c call)
    inside := fun c call hc => absurd hc (hnone c call)
    earlier := fun c call _ hc => absurd hc (hnone c call)
    drawn := fun c token ht => absurd ht (htoken c token)
    passed := fun c call _ hc => absurd hc (hnone c call)
    source := fun c _ call _ _ hc => absurd hc (hnone c call) }

section

variable {rule : State α → Action α → Prop} {s₀ : State α} {past : List (Moment α)}

/-- Keys that were not given out yet are free. -/
theorem Run.fresh_keys (run : Run rule s₀ past s) (fresh : s₀.IsFresh) {k : Nat}
    (hk : s.nextKey ≤ k) : s.calls.get? k = none :=
  Option.map_eq_none_iff.mp ((run.board_inv fresh).fresh k hk)

/-- **The lineage of all calls is kept by every run.** -/
theorem Run.lineage (run : Run rule s₀ past s) (fresh : s₀.IsFresh) : Lineage s := by
  induction run with
  | start => exact lineage_fresh fresh
  | step run alive possible _ ih => exact ih.act (fun _ hk => run.fresh_keys fresh hk) possible

/-- A call is told that it is reentrant when it meets one of its kin. -/
theorem Run.reentrant_iff_akin {a : Action α} (run : Run rule s₀ past s) (fresh : s₀.IsFresh)
    (alive : s.violation = none) (possible : s.Possible a) (hc : s.calls.get? c = some call)
    (async : call.flavour = .async) (untold : call.phase.isReentrant = false) :
    ((s.act a).phaseOf c).isReentrant = true ↔
      a = .advance c ∧ call.phase = .contending ∧ s.SeesClear call ∧
        ∃ w, s.InFlight w call.target (s.flagOf call).id ∧ Akin s c w := by
  have inv := run.board_inv fresh
  have lineage := run.lineage fresh
  rw [reentrant_act_iff alive (run.fresh_keys fresh (Nat.le_refl _)) hc untold]
  refine and_congr_right fun hact => and_congr_right fun contending => ?_
  subst hact
  rw [reentrant_enter_iff inv possible hc contending, inv.mem_held]
  refine and_congr_right fun _ => exists_congr fun w => ?_
  rw [claim?_iff inv lineage]
  have unnamed := lineage.early c call hc (by rw [contending]; rfl)
  refine and_congr_right fun hin => ?_
  obtain ⟨other, hother, -, -, hinside⟩ := hin
  obtain ⟨who, hwho⟩ := Option.ne_none_iff_exists'.mp (lineage.inside w other hother hinside)
  rw [Akin, ← lineage.identify_eq_iff hc unnamed async hother hwho]
  constructor
  · rintro ⟨mine, hmine, hsame⟩
    rw [hother] at hmine
    cases hmine
    rw [hwho] at hsame
    exact (Option.some.inj hsame).symm
  · rintro rfl
    exact ⟨other, hother, hwho⟩

/-- An asynchronous call that no initializer makes is never told that it is reentrant. -/
theorem Run.outermost_untold {a : Action α} (run : Run rule s₀ past s) (fresh : s₀.IsFresh)
    (alive : s.violation = none) (possible : s.Possible a) (hc : s.calls.get? c = some call)
    (async : call.flavour = .async) (untold : call.phase.isReentrant = false)
    (outermost : call.enclosing = none) : ((s.act a).phaseOf c).isReentrant = false := by
  rw [Bool.eq_false_iff]
  intro told
  obtain ⟨-, contending, -, w, ⟨other, hother, -, -, hinside⟩, r, hr, hrw⟩ :=
    (run.reentrant_iff_akin fresh alive possible hc async untold).mp told
  have lineage := run.lineage fresh
  have unnamed := lineage.early c call hc (by rw [contending]; rfl)
  rcases hr.cases_tail with heq | ⟨outer, -, mine, hmine, henclosing, -⟩
  · subst heq
    have hsame := Lineage.eq_of_under_early hc unnamed hrw
    subst hsame
    rw [hc] at hother
    cases hother
    exact lineage.inside c call hc hinside unnamed
  · rw [hc] at hmine
    cases hmine
    rw [outermost] at henclosing
    cases henclosing

/-- **When an asynchronous call is told that it is reentrant.** This happens in its locked section,
exactly when a call of which it is kin has an initialization for its handle in flight through its
target. It is told so although no such call encloses it exactly when its kin in flight does not. -/
theorem async_reentrant_iff {a : Action α} (run : Run rule s₀ past s) (fresh : s₀.IsFresh)
    (alive : s.violation = none) (possible : s.Possible a) (hc : s.calls.get? c = some call)
    (async : call.flavour = .async) (untold : call.phase.isReentrant = false) :
    (((s.act a).phaseOf c).isReentrant = true ↔
      a = .advance c ∧ call.phase = .contending ∧ s.SeesClear call ∧
        ∃ w, s.InFlight w call.target (s.flagOf call).id ∧ Akin s c w) ∧
    ((((s.act a).phaseOf c).isReentrant = true ∧
        ¬∃ w, s.InFlight w call.target (s.flagOf call).id ∧ Encloses s w c) ↔
      a = .advance c ∧ call.phase = .contending ∧ s.SeesClear call ∧
        ∃ w, s.InFlight w call.target (s.flagOf call).id ∧ Akin s c w ∧ ¬Encloses s w c) := by
  have hiff := run.reentrant_iff_akin fresh alive possible hc async untold
  refine ⟨hiff, ?_⟩
  rw [hiff]
  constructor
  · rintro ⟨⟨hact, contending, hclear, w, hw, hkin⟩, hnone⟩
    exact ⟨hact, contending, hclear, w, hw, hkin, fun henc => hnone ⟨w, hw, henc⟩⟩
  · rintro ⟨hact, contending, hclear, w, hw, hkin, hnot⟩
    refine ⟨⟨hact, contending, hclear, w, hw, hkin⟩, ?_⟩
    rintro ⟨w', hw', henc⟩
    rw [InFlight.unique (run.board_inv fresh) (run.lineage fresh) hw hw'] at hnot
    exact hnot henc

end

/-- A registry and two flags. -/
def siblingsStart : State Unit where
  flags := ⟨[(1, { id := ⟨15⟩ }), (2, { id := ⟨1⟩ })]⟩
  targets := ⟨[(0, Target.inProcess)]⟩
  image := { self := 1, isAlive := fun _ => true }
  nextKey := 3

/-- The initializer of one flag makes two calls for the other one, side by side. The first one wins,
and the second one is about to enter. -/
def siblingsActions : List (Action Unit) :=
  [.issue { flavour := .async, thread := "main", target := 0, flag := 1, phase := .arriving },
    .advance 3, .advance 3,
    .issue { flavour := .async, thread := "main", enclosing := some 3, target := 0, flag := 2,
             phase := .arriving },
    .issue { flavour := .async, thread := "main", enclosing := some 3, target := 0, flag := 2,
             phase := .arriving },
    .advance 4, .advance 4, .advance 5]

theorem siblings_isFresh : siblingsStart.IsFresh := by
  refine isFresh_of_registries (fun _ => rfl) (fun t target ht => ?_) rfl
  simp only [siblingsStart, Store.get?, Store.lookup] at ht
  split at ht
  · cases ht
    rfl
  · cases ht

theorem siblings_allowed : siblingsStart.Allows (fun _ _ => True) siblingsActions := by
  have hinside {s : State Unit} (hs : s.phaseOf 3 = .running) (outer : Nat)
      (ho : some 3 = some outer) : s.phaseOf outer = .running := by
    cases ho
    exact hs
  exact ⟨rfl, ⟨Or.inr rfl, rfl, ⟨_, rfl⟩, ⟨_, rfl⟩, nofun⟩, trivial,
    rfl, rfl, trivial, rfl, rfl, trivial,
    rfl, ⟨Or.inr rfl, rfl, ⟨_, rfl⟩, ⟨_, rfl⟩, hinside rfl⟩, trivial,
    rfl, ⟨Or.inr rfl, rfl, ⟨_, rfl⟩, ⟨_, rfl⟩, hinside rfl⟩, trivial,
    rfl, rfl, trivial, rfl, rfl, trivial, rfl, rfl, trivial, trivial⟩

/-- The second call is told that it is reentrant, and nothing in flight encloses it. -/
theorem async_reentrant_iff_siblings :
    (((siblingsStart.acts siblingsActions).act (.advance 5)).phaseOf 5).isReentrant = true ∧
    ¬∃ w, (siblingsStart.acts siblingsActions).InFlight w 0 ⟨1⟩ ∧
      Encloses (siblingsStart.acts siblingsActions) w 5 := by
  have hrun := Run.of_allows siblings_allowed
  obtain ⟨call, hc, hcall⟩ : ∃ call, (siblingsStart.acts siblingsActions).calls.get? 5 = some call ∧
      call = { flavour := .async, thread := "main", enclosing := some 3, target := 0, flag := 2,
               phase := .contending } := ⟨_, rfl, rfl⟩
  subst hcall
  refine (async_reentrant_iff (a := .advance 5) hrun siblings_isFresh rfl rfl hc rfl rfl).2.mpr ?_
  refine ⟨rfl, rfl, fun r hr => rfl, 4, ⟨_, rfl, rfl, rfl, rfl⟩, ⟨3, ?_, ?_⟩, ?_⟩
  · exact .single ⟨_, rfl, rfl, rfl⟩
  · exact .single ⟨_, rfl, rfl, rfl⟩
  · intro henc
    obtain ⟨b, hb, mine, hmine, hlink⟩ := TransGen.tail'_iff.mp henc
    rw [hc] at hmine
    cases hmine
    cases hlink
    rcases hb.cases_tail with heq | ⟨b, -, mine, hmine, hlink⟩
    · cases heq
    · cases hmine
      cases hlink

end RunOnce.Protocol
