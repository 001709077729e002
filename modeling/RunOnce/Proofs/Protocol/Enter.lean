import RunOnce.Proofs.Registry
import RunOnce.Protocol.Step

/-!
# The locked section of a call

**Identity** (`identify_cases`). A call takes over the token of the initializer around it. Without
one it is known by its thread if it is blocking, and draws the next token if it is not; nothing else
changes.

**Entering** (`enterRegistry_cases`, `enterTable_cases`). What a call finds decides which phase
comes next and what its executor has in flight afterwards. These cases say all that the locked
section does.
-/

namespace RunOnce.Protocol.State

variable {α : Type}

/-- The token under which a call initializes, if it has one. -/
def tokenOf? (s : State α) (c : Nat) : Option Nat :=
  ((s.calls.get? c).bind (·.initiator)).bind Initiator.token?

/-- The token that a call takes over from the initializer around it. -/
def inherited? (s : State α) (call : Call α) : Option Nat := call.enclosing.bind s.tokenOf?

theorem inherited?_eq (s : State α) (call : Call α) :
    s.inherited? call = (s.around? call).bind Initiator.token? := by
  unfold inherited? around?
  cases call.enclosing <;> rfl

/-- Who a call is: it takes over a token, or it is known by its thread, or it draws a token. -/
theorem identify_cases (s : State α) (call : Call α) :
    (∃ token, s.inherited? call = some token ∧ s.identify call = (.scope token, s)) ∨
    (s.inherited? call = none ∧ call.flavour = .blocking ∧
      s.identify call = (.thread call.thread, s)) ∨
    (s.inherited? call = none ∧ call.flavour = .async ∧
      s.identify call = (.scope s.nextToken, { s with nextToken := s.nextToken + 1 })) := by
  rw [inherited?_eq]
  unfold identify
  cases s.around? call with
  | none =>
    cases hf : call.flavour with
    | blocking => exact Or.inr (Or.inl ⟨rfl, rfl, rfl⟩)
    | async => exact Or.inr (Or.inr ⟨rfl, rfl, rfl⟩)
  | some who =>
    cases who with
    | scope token => exact Or.inl ⟨token, rfl, rfl⟩
    | thread name =>
      cases hf : call.flavour with
      | blocking => exact Or.inr (Or.inl ⟨rfl, rfl, rfl⟩)
      | async => exact Or.inr (Or.inr ⟨rfl, rfl, rfl⟩)

theorem identify_eq (s : State α) (call : Call α) :
    ∃ n, s.nextToken ≤ n ∧ (s.identify call).2 = { s with nextToken := n } := by
  rcases s.identify_cases call with ⟨token, -, he⟩ | ⟨-, -, he⟩ | ⟨-, -, he⟩
  · exact ⟨_, Nat.le_refl _, by rw [he]⟩
  · exact ⟨_, Nat.le_refl _, by rw [he]⟩
  · exact ⟨_, Nat.le_succ _, by rw [he]⟩

/-- What a call knows and leaves behind after the locked section of a registry. -/
theorem enterRegistry_cases (s : State α) (c : Nat) (call : Call α) (r : Registry Nat) :
    ∃ r' phase, (s.enterRegistry c call r).1 =
      ((s.identify call).2.setExecutor call.target (.registry r')).setCall c
        { call with initiator := some (s.identify call).1, phase } ∧
      (((s.flagOf call).isDone = true ∧ phase = .concluding ∧ r'.held = r.held) ∨
        ((s.flagOf call).isDone = false ∧
          (∃ op, r.find? (s.flagOf call).id = some op ∧ op.initiator = (s.identify call).1) ∧
          phase = .ended (.failed (.reentrant (s.flagOf call).id)) ∧ r'.held = r.held) ∨
        ((s.flagOf call).isDone = false ∧
          (∃ op, r.find? (s.flagOf call).id = some op ∧ op.initiator ≠ (s.identify call).1) ∧
          phase = .queued (signalFor call.flavour) ∧ r'.held = r.held) ∨
        ((s.flagOf call).isDone = false ∧ r.find? (s.flagOf call).id = none ∧
          phase = .running ∧ r'.held = r.held ++ [((s.flagOf call).id, (s.identify call).1)])) := by
  rcases r.enter_cases (s.flagOf call) (s.identify call).1 c with
    ⟨hd, he⟩ | ⟨hd, hop, he⟩ | ⟨hd, hop, queued, r', he, hheld⟩ | ⟨hd, hop, r', he, hheld⟩
  · refine ⟨r, .concluding, ?_, Or.inl ⟨hd, rfl, rfl⟩⟩
    simp only [enterRegistry, he]
    rfl
  · refine ⟨r, _, ?_, Or.inr (Or.inl ⟨hd, hop, rfl, rfl⟩)⟩
    simp only [enterRegistry, he]
    rfl
  · refine ⟨r', _, ?_, Or.inr (Or.inr (Or.inl ⟨hd, hop, rfl, hheld⟩))⟩
    simp only [enterRegistry, he]
    rfl
  · refine ⟨r', _, ?_, Or.inr (Or.inr (Or.inr ⟨hd, hop, rfl, hheld⟩))⟩
    simp only [enterRegistry, he]
    rfl

/-- What a call finds, knows and leaves behind after the locked section of a slot table. -/
theorem enterTable_cases (s : State α) (c : Nat) (call : Call α) (t : SlotTable) :
    (t.state? s.image.directory (s.flagOf call).id = none ∧
      (s.enterTable c call t).1.violation.isSome = true ∧
      (s.enterTable c call t).1 = { s with violation := (s.enterTable c call t).1.violation }) ∨
    (t.isLocked = true ∧ (t.state? s.image.directory (s.flagOf call).id).isSome = true ∧
      (s.enterTable c call t).1 = s) ∨
    ∃ v, t.state? s.image.directory (s.flagOf call).id = some v ∧ t.guard? = none ∧
      ((((s.flagOf call).id, (s.identify call).1) ∈ t.claims ∧ (s.enterTable c call t).1 =
          ((s.identify call).2.setExecutor call.target (.table t)).setCall c
            { call with initiator := some (s.identify call).1
                        phase := .ended (.failed (.reentrant (s.flagOf call).id)) }) ∨
        (((s.flagOf call).id, (s.identify call).1) ∉ t.claims ∧ v ≠ slotIdle ∧
          (s.enterTable c call t).1 =
            ((s.identify call).2.setExecutor call.target (.table t)).setCall c
              { call with initiator := some (s.identify call).1, phase := .polling }) ∨
        (((s.flagOf call).id, (s.identify call).1) ∉ t.claims ∧ v = slotIdle ∧
          (s.enterTable c call t).1 =
            (((s.identify call).2.setExecutor call.target (.table { t with
              claims := t.claims ++ [((s.flagOf call).id, (s.identify call).1)] })).markSlot t
              (s.flagOf call).id slotRunning).setCall c
                { call with initiator := some (s.identify call).1, phase := .running })) := by
  cases hv : t.state? s.image.directory (s.flagOf call).id with
  | none =>
    refine Or.inl ⟨rfl, ?_, ?_⟩
    · simp only [enterTable, hv]
      rfl
    · simp only [enterTable, hv]
      rfl
  | some v =>
    by_cases locked : t.isLocked = true
    · refine Or.inr (Or.inl ⟨locked, rfl, ?_⟩)
      simp only [enterTable, hv, if_pos locked]
    refine Or.inr (Or.inr ⟨v, rfl, SlotTable.isLocked_eq_false.mp (Bool.eq_false_iff.mpr locked), ?_⟩)
    by_cases hmine : t.claims.contains ((s.flagOf call).id, (s.identify call).1) = true
    · refine Or.inl ⟨List.contains_iff_mem.mp hmine, ?_⟩
      simp only [enterTable, hv, if_neg locked, SlotTable.claim, if_pos hmine]
      rfl
    · have hmine' := mt List.contains_iff_mem.mpr hmine
      by_cases hidle : v = slotIdle
      · refine Or.inr (Or.inr ⟨hmine', hidle, ?_⟩)
        simp only [enterTable, hv, if_neg locked, SlotTable.claim, if_neg hmine, if_pos hidle]
        rfl
      · refine Or.inr (Or.inl ⟨hmine', hidle, ?_⟩)
        simp only [enterTable, hv, if_neg locked, SlotTable.claim, if_neg hmine, if_neg hidle]
        rfl

end RunOnce.Protocol.State
