import RunOnce.Proofs.Reentrancy.Starvation

/-!
# Detours from a blocking initializer

**Theorem (`detour_told_iff`).** Let a call run its initializer, with its flag still clear, and let
another call for this flag through the same target be reached from it by way of an asynchronous
call. The inner call is told that it is reentrant exactly when the outer one is asynchronous or
inside of an asynchronous initializer. So if the outer call is blocking, and no asynchronous
initializer is around it, the inner one comes to wait behind the outer one instead, which holds the
operation or the slot. If the initializer polls it until it is done, both are stuck for good.

A blocking call outside of asynchronous initializers is known by its thread. The detour draws a
token, under which the inner call comes, and a token is never the identity of a thread.
-/

namespace RunOnce.Protocol

open State

variable {α : Type} {s s₀ : State α} {c w : Nat} {outer call : Call α}
  {rule : State α → Action α → Prop} {past : List (Moment α)}

/-- **Which detours are caught.** While a call runs the initializer of a flag that is clear, a call
for this flag through the same target that it reaches by way of an asynchronous call is told that it
is reentrant exactly when there is an asynchronous initializer around it that is not on the detour.
Without one the inner call waits in the queue or polls the slot that the outer one holds, and starves
if the outer one waits for it. -/
theorem detour_told_iff (run : Run rule s₀ past s) (fresh : s₀.IsFresh)
    (alive : s.violation = none) (hw : s.calls.get? w = some outer)
    (running : outer.phase = .running) (clear : (s.flagOf outer).isDone = false)
    (hc : s.calls.get? c = some call) (detours : Detours s w c)
    (target : call.target = outer.target) (flag : call.flag = outer.flag) :
    (call.phase = .contending → s.Possible (.advance c) →
      ((s.act (.advance c)).phaseOf c = .ended (.failed (.reentrant (s.flagOf call).id)) ↔
        UnderTask s w)) ∧
    (UnderTask s w → Caught past s c call) ∧
    (¬UnderTask s w → Strands s w c call ∧
      (call.phase = .contending → s.Possible (.advance c) → Behind (s.act (.advance c)) w c)) := by
  have inv := run.board_inv fresh
  have lineage := run.lineage fresh
  have encloses := detours.encloses
  have hflag : s.flagOf call = s.flagOf outer := by rw [flagOf, flagOf, flag]
  rw [← hflag] at clear
  have inFlight : outer.phase.isInFlight = true := by
    rw [running]
    rfl
  have meets : s.Meets w c outer call :=
    { here := hw, mine := hc, inFlight := inFlight, site := by rw [target], id := by rw [hflag] }
  have inherits : Inherits s w c outer call ↔ UnderTask s w := by
    rw [← run.token_iff fresh hw (lineage.inside w outer hw inFlight)]
    exact ⟨fun h => h.resolve_right fun h => h.1 detours, Or.inl⟩
  refine ⟨fun contending possible => ?_, fun under => ?_, fun bare => ?_⟩
  · rw [run.told_iff fresh alive meets encloses possible clear contending, ← inherits]
    exact and_iff_right target
  · exact run.catches fresh alive { meets with encloses := encloses, target := target }
      (inherits.mpr under) clear
  · have other : call.target = outer.target → ¬Inherits s w c outer call :=
      fun _ => mt inherits.mp bare
    refine ⟨run.strands fresh alive meets encloses running other clear,
      fun contending possible => ?_⟩
    exact meets.behind inv lineage alive contending
      (fun same own => other same ((run.identity_iff fresh hw encloses hc).mp own)) possible clear
      fun t through => meets.within inv lineage target through

/-- A blocking initializer polls an asynchronous call for its own flag, which is about to enter. -/
def detourActions : List (Action Unit) :=
  [.issue { flavour := .blocking, thread := "main", target := 0, flag := 1, phase := .arriving },
    .advance 3, .advance 3,
    .issue { flavour := .async, thread := "main", enclosing := some 3, target := 0, flag := 1,
             phase := .arriving },
    .advance 4]

theorem detour_allowed : siblingsStart.Allows (fun _ _ => True) detourActions := by
  have hinside {s : State Unit} {k : Nat} (hs : s.phaseOf k = .running) (outer : Nat)
      (ho : some k = some outer) : s.phaseOf outer = .running := by
    cases ho
    exact hs
  exact ⟨rfl, ⟨Or.inr rfl, rfl, ⟨_, rfl⟩, ⟨_, rfl⟩, nofun⟩, trivial,
    rfl, rfl, trivial, rfl, rfl, trivial,
    rfl, ⟨Or.inr rfl, rfl, ⟨_, rfl⟩, ⟨_, rfl⟩, hinside rfl⟩, trivial,
    rfl, rfl, trivial, trivial⟩

theorem detour_bare : ¬UnderTask (siblingsStart.acts detourActions) 3 := by
  rintro ⟨k, call, hk, async, rfl | encloses⟩
  · cases hk
    cases async
  · obtain ⟨mine, outer, hmine, henclosing, -⟩ := encloses_iff.mp encloses
    cases hmine
    cases henclosing

/-- The call is not told: it queues behind the initializer that polls it. -/
theorem detour_told_iff_queued :
    (siblingsStart.acts (detourActions ++ [.advance 4])).phaseOf 4 = .queued (.channel false) ∧
    Behind (siblingsStart.acts (detourActions ++ [.advance 4])) 3 4 ∧
    ¬(siblingsStart.acts (detourActions ++ [.advance 4])).phaseOf 4 =
      .ended (.failed (.reentrant ⟨15⟩)) := by
  have detours : Detours (siblingsStart.acts detourActions) 3 4 :=
    ⟨4, _, rfl, rfl, .single ⟨_, rfl, rfl⟩, Or.inl rfl⟩
  obtain ⟨htold, -, hmissed⟩ := detour_told_iff (Run.of_allows detour_allowed) siblings_isFresh rfl
    (w := 3) (c := 4) rfl rfl rfl rfl detours rfl rfl
  exact ⟨rfl, (hmissed detour_bare).2 rfl rfl, mt (htold rfl rfl).mp detour_bare⟩

end RunOnce.Protocol
