import RunOnce.Proofs.Reentrancy.Refusal

/-!
# Identities along nested calls

**Detours** (`Detours`). A call is reached by way of an asynchronous one when it is asynchronous
itself, or a call between it and the one that encloses it is.

**Who has a token** (`Run.token_iff`) runs an asynchronous initializer or is inside of one. The
calls that enclose one call enclose each other (`Encloses.linear`), so the token that a call takes
over was drawn above the outer call, by it, or on a detour.

**Identities** (`Run.identity_iff`). A call comes under the identity of a call that encloses it
exactly when the outer one has a token, or when there is no detour and both are on one thread.
-/

namespace RunOnce.Protocol

open Relation State

variable {α : Type} {s : State α} {a : Action α} {c k r w : Nat} {token : Nat}
  {outer call call' : Call α}

/-- The inner call is reached from the outer one by way of an asynchronous call. -/
def Detours (s : State α) (w c : Nat) : Prop :=
  ∃ k call, s.calls.get? k = some call ∧ call.flavour = .async ∧ Encloses s w k ∧
    (k = c ∨ Encloses s k c)

/-- The call is asynchronous, or one that encloses it is. -/
def UnderTask (s : State α) (w : Nat) : Prop :=
  ∃ k call, s.calls.get? k = some call ∧ call.flavour = .async ∧ (k = w ∨ Encloses s k w)

/-- A call comes under the identity of the one that encloses it. -/
def Inherits (s : State α) (w c : Nat) (outer call : Call α) : Prop :=
  (s.tokenOf? w).isSome = true ∨ ¬Detours s w c ∧ call.thread = outer.thread

theorem Detours.encloses (detours : Detours s w c) : Encloses s w c := by
  obtain ⟨k, -, -, -, outside, rfl | inside⟩ := detours
  · exact outside
  · exact TransGen.trans outside inside

/-! ## Calls that enclose one call -/

/-- The calls that enclose one call enclose each other. -/
theorem Encloses.linear (hr : Encloses s r c) (hw : Encloses s w c) :
    r = w ∨ Encloses s r w ∨ Encloses s w r := by
  -- Along the links that lead to the call from one of the two.
  induction hr with
  | @single c link =>
    obtain ⟨call, hc, henclosing⟩ := link
    obtain ⟨mine, outer, hmine, hmineEnclosing, hcases⟩ := encloses_iff.mp hw
    obtain rfl : call = mine := Option.some.inj (hc.symm.trans hmine)
    obtain rfl : r = outer := Option.some.inj (henclosing.symm.trans hmineEnclosing)
    rcases hcases with rfl | hw
    · exact Or.inl rfl
    · exact Or.inr (Or.inr hw)
  | @tail b c hr link ih =>
    obtain ⟨call, hc, henclosing⟩ := link
    obtain ⟨mine, outer, hmine, hmineEnclosing, hcases⟩ := encloses_iff.mp hw
    obtain rfl : call = mine := Option.some.inj (hc.symm.trans hmine)
    obtain rfl : b = outer := Option.some.inj (henclosing.symm.trans hmineEnclosing)
    rcases hcases with rfl | hw
    · exact Or.inr (Or.inl hr)
    · exact ih hw

theorem encloses_of_under (under : ReflTransGen (Passes s) r c) : r = c ∨ Encloses s r c := by
  rcases reflTransGen_iff_eq_or_transGen.mp under with heq | hunder
  · exact Or.inl heq.symm
  · refine Or.inr (TransGen.mono ?_ r c hunder)
    rintro outer k ⟨call, hk, henclosing, -⟩
    exact ⟨call, hk, henclosing⟩

/-- A detour that there is now was there before. -/
theorem Lineage.detours_of_act (h : Lineage s) (fresh : s.calls.get? s.nextKey = none)
    (hc : s.calls.get? c = some call) (detours : Detours (s.act a) w c) : Detours s w c := by
  obtain ⟨k, after, hk, async, outside, inside⟩ := detours
  have hinside : k = c ∨ Encloses s k c := inside.imp_right (h.encloses_of_act fresh hc)
  obtain ⟨before, hbefore⟩ : ∃ before, s.calls.get? k = some before := by
    rcases hinside with rfl | hinside
    · exact ⟨call, hc⟩
    · obtain ⟨before, hbefore, -⟩ := h.named_of_encloses hinside
      exact ⟨before, hbefore⟩
  obtain ⟨after', hafter, becomes⟩ := call_act (a := a) fresh hbefore
  obtain rfl : after = after' := Option.some.inj (hk.symm.trans hafter)
  exact ⟨k, before, hbefore, becomes.alike.flavour.symm.trans async,
    h.encloses_of_act fresh hbefore outside, hinside⟩

theorem Detours.act (fresh : s.calls.get? s.nextKey = none) (detours : Detours s w c) :
    Detours (s.act a) w c := by
  obtain ⟨k, before, hk, async, outside, inside⟩ := detours
  obtain ⟨after, hafter, becomes⟩ := call_act (a := a) fresh hk
  exact ⟨k, after, hafter, becomes.alike.flavour.trans async, outside.act fresh,
    inside.imp_right (·.act fresh)⟩

/-- An action leaves it as it is under whose identity a call comes. -/
theorem Lineage.inherits_act_iff {outer' : Call α} (h : Lineage s)
    (fresh : s.calls.get? s.nextKey = none) (encloses : Encloses s w c)
    (hw : s.calls.get? w = some outer) (hc : s.calls.get? c = some call)
    (alike : outer.Alike outer') (alike' : call.Alike call') :
    Inherits (s.act a) w c outer' call' ↔ Inherits s w c outer call := by
  obtain ⟨o, ho, named⟩ := h.named_of_encloses encloses
  obtain rfl : outer = o := Option.some.inj (hw.symm.trans ho)
  have hdetours : Detours (s.act a) w c ↔ Detours s w c :=
    ⟨h.detours_of_act fresh hc, (·.act fresh)⟩
  rw [Inherits, Inherits, h.tokenOf?_act fresh hw named, hdetours, alike.thread, alike'.thread]

/-! ## Who draws a token -/

section

variable {rule : State α → Action α → Prop} {s₀ : State α} {past : List (Moment α)}

/-- A call that has drawn its token is asynchronous. -/
theorem Run.async_of_drawn (run : Run rule s₀ past s) (fresh : s₀.IsFresh)
    (hc : s.calls.get? c = some call) (ht : s.tokenOf? c = some token)
    (drawn : s.inherited? call = none) : call.flavour = .async := by
  induction run generalizing call token with
  | start =>
    rw [fresh.calls c] at hc
    cases hc
  | @step past s a run alive possible _ ih =>
    have lineage := run.lineage fresh
    have absent := run.fresh_keys fresh (Nat.le_refl _)
    obtain ⟨before, hbefore, hcases⟩ := lineage.of_tokenOf?_act possible ht
    obtain ⟨after, hafter, becomes⟩ := call_act (a := a) absent hbefore
    obtain rfl : call = after := Option.some.inj (hc.symm.trans hafter)
    have hdrawn : s.inherited? before = none := by
      rw [← lineage.inherited?_act absent hbefore becomes.initiator.1]
      exact drawn
    rw [becomes.alike.flavour]
    rcases hcases with hold | ⟨-, -, hnew, -⟩
    · exact ih hbefore hold hdrawn
    · rcases s.identify_cases before with ⟨t, hin, -⟩ | ⟨-, -, he⟩ | ⟨-, async, -⟩
      · rw [hdrawn] at hin
        cases hin
      · rw [he] at hnew
        cases hnew
      · exact async

/-- An asynchronous call that knows who it is has a token. -/
theorem Run.token_of_async (run : Run rule s₀ past s) (fresh : s₀.IsFresh)
    (hc : s.calls.get? c = some call) (named : call.initiator ≠ none)
    (async : call.flavour = .async) : ∃ token, s.tokenOf? c = some token := by
  obtain ⟨who, hwho⟩ := Option.ne_none_iff_exists'.mp named
  rcases run.initiator_cases fresh hc hwho with ⟨token, rfl⟩ | ⟨blocking, -⟩
  · refine ⟨token, ?_⟩
    rw [tokenOf?_of_get? hc, hwho]
    rfl
  · rw [async] at blocking
    cases blocking

/-- **Who has a token**: the calls inside of asynchronous initializers, and those who run them. -/
theorem Run.token_iff (run : Run rule s₀ past s) (fresh : s₀.IsFresh)
    (hc : s.calls.get? c = some call) (named : call.initiator ≠ none) :
    (s.tokenOf? c).isSome = true ↔ UnderTask s c := by
  have lineage := run.lineage fresh
  rw [Option.isSome_iff_exists]
  constructor
  · rintro ⟨token, htoken⟩
    obtain ⟨r, source, hr, hdrawn, hsource, under⟩ := lineage.exists_source htoken
    exact ⟨r, source, hr, run.async_of_drawn fresh hr hsource hdrawn, encloses_of_under under⟩
  · rintro ⟨k, inner, hk, async, rfl | encloses⟩
    · obtain rfl : call = inner := Option.some.inj (hc.symm.trans hk)
      exact run.token_of_async fresh hc named async
    · obtain ⟨mine, hmine, known⟩ := lineage.named_of_encloses encloses
      obtain rfl : inner = mine := Option.some.inj (hk.symm.trans hmine)
      obtain ⟨token, htoken⟩ := run.token_of_async fresh hk known async
      exact ⟨token, lineage.passed c call token hc named
        (lineage.inherited?_of_encloses htoken encloses hc)⟩

/-- A call under another one without a token takes none over, unless there is a detour. -/
theorem Run.inherited?_eq_none (run : Run rule s₀ past s) (fresh : s₀.IsFresh)
    (bare : s.tokenOf? w = none) (encloses : Encloses s w c) (hc : s.calls.get? c = some call)
    (direct : ¬Detours s w c) : s.inherited? call = none := by
  have lineage := run.lineage fresh
  cases hin : s.inherited? call with
  | none => rfl
  | some token =>
    exfalso
    obtain ⟨above, henclosing, habove⟩ := exists_of_inherited? hin
    obtain ⟨r, source, hr, hdrawn, htoken, under⟩ := lineage.exists_source habove
    have async := run.async_of_drawn fresh hr htoken hdrawn
    have inside : Encloses s r c := by
      refine encloses_iff.mpr ⟨call, above, hc, henclosing, ?_⟩
      exact encloses_of_under under
    rcases inside.linear encloses with rfl | hout | hin
    · rw [bare] at htoken
      cases htoken
    · -- The outer call would have taken the token over.
      obtain ⟨o, ho, named⟩ := lineage.named_of_encloses encloses
      have hpassed := lineage.passed w o token ho named
        (lineage.inherited?_of_encloses htoken hout ho)
      rw [bare] at hpassed
      cases hpassed
    · exact direct ⟨r, source, hr, async, hin, Or.inr inside⟩

/-- A call on a detour is not known by its thread. -/
theorem Run.identify_ne_thread (run : Run rule s₀ past s) (fresh : s₀.IsFresh)
    (hc : s.calls.get? c = some call) (detours : Detours s w c) (name : String) :
    (s.identify call).1 ≠ .thread name := by
  have lineage := run.lineage fresh
  obtain ⟨k, inner, hk, async, -, hcases⟩ := detours
  intro hthread
  rcases s.identify_cases call with ⟨t, -, he⟩ | ⟨hnone, blocking, -⟩ | ⟨-, -, he⟩
  · rw [he] at hthread
    cases hthread
  · rcases hcases with rfl | inside
    · obtain rfl : inner = call := Option.some.inj (hk.symm.trans hc)
      rw [async] at blocking
      cases blocking
    · obtain ⟨mine, hmine, named⟩ := lineage.named_of_encloses inside
      obtain rfl : inner = mine := Option.some.inj (hk.symm.trans hmine)
      obtain ⟨token, htoken⟩ := run.token_of_async fresh hk named async
      rw [lineage.inherited?_of_encloses htoken inside hc] at hnone
      cases hnone
  · rw [he] at hthread
    cases hthread

/-- **When a nested call comes under the identity of an outer one.** -/
theorem Run.identity_iff (run : Run rule s₀ past s) (fresh : s₀.IsFresh)
    (hw : s.calls.get? w = some outer) (encloses : Encloses s w c)
    (hc : s.calls.get? c = some call) :
    outer.initiator = some (s.identify call).1 ↔ Inherits s w c outer call := by
  have lineage := run.lineage fresh
  obtain ⟨o, ho, named⟩ := lineage.named_of_encloses encloses
  obtain rfl : outer = o := Option.some.inj (hw.symm.trans ho)
  obtain ⟨who, hwho⟩ := Option.ne_none_iff_exists'.mp named
  have htokenOf : s.tokenOf? w = who.token? := by
    rw [tokenOf?_of_get? hw, hwho]
    rfl
  rcases run.initiator_cases fresh hw hwho with ⟨token, rfl⟩ | ⟨-, rfl⟩
  · have htoken : s.tokenOf? w = some token := htokenOf
    have inherits := lineage.inherited?_of_encloses htoken encloses hc
    have hsome : Inherits s w c outer call := Or.inl (by rw [htoken]; rfl)
    refine ⟨fun _ => hsome, fun _ => ?_⟩
    rcases s.identify_cases call with ⟨t, hin, he⟩ | ⟨hnone, -⟩ | ⟨hnone, -⟩
    · rw [inherits] at hin
      cases hin
      rw [he, hwho]
    · rw [inherits] at hnone
      cases hnone
    · rw [inherits] at hnone
      cases hnone
  · have bare : s.tokenOf? w = none := htokenOf
    have hiff : Inherits s w c outer call ↔ ¬Detours s w c ∧ call.thread = outer.thread := by
      simp [Inherits, bare]
    rw [hiff, hwho, Option.some.injEq]
    constructor
    · intro hthread
      refine ⟨fun detours => run.identify_ne_thread fresh hc detours _ hthread.symm, ?_⟩
      rcases s.identify_cases call with ⟨t, -, he⟩ | ⟨-, -, he⟩ | ⟨-, -, he⟩
      · rw [he] at hthread
        cases hthread
      · rw [he] at hthread
        exact (Initiator.thread.inj hthread).symm
      · rw [he] at hthread
        cases hthread
    · rintro ⟨direct, hthread⟩
      have hnone := run.inherited?_eq_none fresh bare encloses hc direct
      rcases s.identify_cases call with ⟨t, hin, -⟩ | ⟨-, -, he⟩ | ⟨-, async, -⟩
      · rw [hnone] at hin
        cases hin
      · rw [he, hthread]
      · exact absurd ⟨c, call, hc, async, encloses, Or.inl rfl⟩ direct

end

end RunOnce.Protocol
