import RunOnce.Proofs.Exclusion.Shared
import RunOnce.Proofs.Reentrancy.Starvation

/-!
# Reentrancy over one object

Several slot tables of one image may map one object. The slots are in the object, and the claims
beside each table.

**Theorem (`tables_told_iff`).** Let a call run its initializer over an object, and let a call for
the same handle, whose flag is clear, be made inside of it, through any table that maps the object.
The inner call is told that it is reentrant exactly when both go through one table and it comes
under the identity of the outer one. Through another table it finds the slot running and polls it,
and if the outer call waits for it, both are stuck for good.
-/

namespace RunOnce.Protocol

open State

variable {α : Type} {s s₀ : State α} {c w o : Nat} {outer call : Call α}
  {rule : State α → Action α → Prop} {past : List (Moment α)}

/-- Two calls over one object for one handle meet, if one of them has its initialization in
flight. -/
theorem meets_of_objectOf? (hw : s.calls.get? w = some outer) (hc : s.calls.get? c = some call)
    (inFlight : outer.phase.isInFlight = true) (mapped : s.objectOf? outer.target = some o)
    (mapped' : s.objectOf? call.target = some o) (id : (s.flagOf call).id = (s.flagOf outer).id) :
    s.Meets w c outer call := by
  rw [objectOf?_eq] at mapped mapped'
  obtain ⟨⟨o₁, n⟩, htable, rfl⟩ := Option.map_eq_some_iff.mp mapped
  obtain ⟨⟨o₂, n'⟩, htable', hobject⟩ := Option.map_eq_some_iff.mp mapped'
  obtain rfl : o₂ = o₁ := hobject
  refine { here := hw, mine := hc, inFlight := inFlight, site := ?_, id := id }
  rw [Board.site_of_table htable, Board.site_of_table htable']

/-- **Who is told over one object.** While a call runs the initializer of a handle over an object,
a call for this handle over the same object that it encloses, with a clear flag, is told that it is
reentrant exactly when it goes through the table of the outer call and comes under its identity.
Else, if its table has a slot for the handle, it polls the slot that the outer call has claimed, and
starves if the outer one waits for it. -/
theorem tables_told_iff (run : Run rule s₀ past s) (fresh : s₀.IsFresh)
    (alive : s.violation = none) (hw : s.calls.get? w = some outer)
    (running : outer.phase = .running) (hc : s.calls.get? c = some call)
    (encloses : Encloses s w c) (mapped : s.objectOf? outer.target = some o)
    (mapped' : s.objectOf? call.target = some o)
    (id : (s.flagOf call).id = (s.flagOf outer).id) (clear : (s.flagOf call).isDone = false) :
    (call.phase = .contending → s.Possible (.advance c) →
      ((s.act (.advance c)).phaseOf c = .ended (.failed (.reentrant (s.flagOf call).id)) ↔
        call.target = outer.target ∧ Inherits s w c outer call)) ∧
    (call.target = outer.target → Inherits s w c outer call → Caught past s c call) ∧
    ((call.target = outer.target → ¬Inherits s w c outer call) → Strands s w c call ∧
      (call.phase = .contending → s.Possible (.advance c) →
        ∀ table, s.executorOf call = some (.table table) →
          (s.flagOf call).id.index < table.slotCount →
          (s.act (.advance c)).phaseOf c = .polling ∧ Behind (s.act (.advance c)) w c)) := by
  have inv := run.board_inv fresh
  have lineage := run.lineage fresh
  have inFlight : outer.phase.isInFlight = true := by
    rw [running]
    rfl
  have meets := meets_of_objectOf? hw hc inFlight mapped mapped' id
  refine ⟨fun contending possible =>
      run.told_iff fresh alive meets encloses possible clear contending,
    fun same inherits => ?_, fun other => ?_⟩
  · exact run.catches fresh alive { meets with encloses := encloses, target := same } inherits clear
  · refine ⟨run.strands fresh alive meets encloses running other clear, ?_⟩
    intro contending possible table through within
    have other' : call.target = outer.target → outer.initiator ≠ some (s.identify call).1 :=
      fun same own => other same ((run.identity_iff fresh hw encloses hc).mp own)
    constructor
    · rw [meets.loses inv lineage alive contending other' possible through within, afterLock,
        phaseOf_setCall]
    · refine meets.behind inv lineage alive contending other' possible clear fun t ht => ?_
      rw [through] at ht
      cases ht
      exact within

/-- The initializer of a call through one table makes a call for the same flag through the other
one, which is about to enter. -/
def otherTableActions : List (Action Unit) :=
  [.issue { flavour := .async, thread := "main", target := 0, flag := 2, phase := .arriving },
    .advance 4, .advance 4,
    .issue { flavour := .async, thread := "main", enclosing := some 4, target := 1, flag := 2,
             phase := .arriving },
    .advance 5]

theorem otherTable_allowed : tablesStart.Allows (fun _ _ => True) otherTableActions := by
  have hinside {s : State Unit} {k : Nat} (hs : s.phaseOf k = .running) (outer : Nat)
      (ho : some k = some outer) : s.phaseOf outer = .running := by
    cases ho
    exact hs
  exact ⟨rfl, ⟨Or.inr rfl, rfl, ⟨_, rfl⟩, ⟨_, rfl⟩, nofun⟩, trivial,
    rfl, rfl, trivial, rfl, rfl, trivial,
    rfl, ⟨Or.inr rfl, rfl, ⟨_, rfl⟩, ⟨_, rfl⟩, hinside rfl⟩, trivial,
    rfl, rfl, trivial, trivial⟩

/-- The inner call has the token of the outer one, and it polls the slot that this one has. -/
theorem tables_told_iff_other :
    (tablesStart.acts otherTableActions).tokenOf? 4 = some 1 ∧
    (tablesStart.acts (otherTableActions ++ [.advance 5])).phaseOf 5 = .polling ∧
    Behind (tablesStart.acts (otherTableActions ++ [.advance 5])) 4 5 ∧
    Strands (tablesStart.acts otherTableActions) 4 5
      { flavour := .async, thread := "main", enclosing := some 4, target := 1, flag := 2,
        phase := .contending } := by
  have encloses : Encloses (tablesStart.acts otherTableActions) 4 5 := .single ⟨_, rfl, rfl⟩
  obtain ⟨-, -, hmissed⟩ := tables_told_iff (Run.of_allows otherTable_allowed) tables_isFresh rfl
    (w := 4) (c := 5) (o := 0) rfl rfl rfl encloses rfl rfl rfl rfl
  obtain ⟨strands, hpolls⟩ := hmissed nofun
  obtain ⟨hpolling, behind⟩ := hpolls rfl rfl attached rfl (by decide)
  exact ⟨rfl, hpolling, behind, strands⟩

end RunOnce.Protocol
