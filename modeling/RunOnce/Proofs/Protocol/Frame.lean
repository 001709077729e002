import RunOnce.Proofs.Protocol.Enter
import RunOnce.Proofs.Protocol.Run

/-!
# What an action does to calls

**One call** (`Becomes`). An action moves a call to another phase. A call learns who it is when it
enters, and never before or after; and only there it is answered that it is reentrant. Tokens that
are drawn are never drawn again.

**All calls** (`calls_act`). An action keeps every call, and nothing about it changes but its phase
and, when it enters, its identity. Issuing is the only action that adds a call.
-/

namespace RunOnce.Protocol

variable {α : Type}

/-- Whether a call in this phase has not entered yet. -/
def Phase.isEarly : Phase α → Bool
  | .probing | .binding | .arriving | .contending => true
  | _ => false

/-- Whether a call in this phase has an initialization in flight. -/
def Phase.isInFlight : Phase α → Bool
  | .running | .storing _ | .publishing _ | .completing _ => true
  | _ => false

/-- Whether a call in this phase was answered that it is reentrant. -/
def Phase.isReentrant : Phase α → Bool
  | .ended (.failed (.reentrant _)) => true
  | _ => false

/-- Whether a call may come to this phase from any other. -/
def Phase.isPlain : Phase α → Bool
  | .probing | .binding | .arriving | .contending => false
  | .running | .storing _ | .publishing _ | .completing _ => false
  | .ended (.failed (.reentrant _)) => false
  | _ => true

theorem Phase.isEarly_of_isInFlight {phase : Phase α} (inside : phase.isInFlight = true) :
    phase.isEarly = false := by
  cases phase with
  | running | storing _ | publishing _ | completing _ => rfl
  | _ => cases inside

theorem Phase.isEarly_of_isPlain {phase : Phase α} (plain : phase.isPlain = true) :
    phase.isEarly = false := by
  cases phase with
  | probing | binding | arriving | contending => cases plain
  | _ => rfl

theorem Phase.isInFlight_of_isPlain {phase : Phase α} (plain : phase.isPlain = true) :
    phase.isInFlight = false := by
  cases phase with
  | running | storing _ | publishing _ | completing _ => cases plain
  | _ => rfl

/-- What an action makes of a call. -/
inductive Becomes (s : State α) (a : Action α) (s' : State α) (k : Nat) (call : Call α) :
    Call α → Prop
  | stays : Becomes s a s' k call call
  | approaches (phase : Phase α) (before : call.phase.isEarly = true)
      (after : phase.isEarly = true) : Becomes s a s' k call { call with phase }
  | continues (phase : Phase α) (before : call.phase.isInFlight = true)
      (after : phase.isInFlight = true) : Becomes s a s' k call { call with phase }
  | moves (phase : Phase α) (plain : phase.isPlain = true) :
      Becomes s a s' k call { call with phase }
  | enters (phase : Phase α) (act : a = .advance k) (contending : call.phase = .contending)
      (late : phase.isEarly = false) (taken : (s.identify call).2.nextToken ≤ s'.nextToken) :
      Becomes s a s' k call { call with initiator := some (s.identify call).1, phase }

/-- What becomes of a call stays so when only a signal is raised afterwards. -/
theorem Becomes.raise {s s₁ s₂ : State α} {a : Action α} {c : Nat} {call call' : Call α}
    (signal : Signal) (h : Becomes s a s₁ c call call')
    (tokens : s₂.nextToken = s₁.nextToken) :
    Becomes s a s₂ c call { call' with phase := .queued signal.raise } := by
  cases h with
  | stays => exact .moves _ rfl
  | approaches => exact .moves _ rfl
  | continues => exact .moves _ rfl
  | moves => exact .moves _ rfl
  | enters phase act contending late taken =>
    rw [← tokens] at taken
    exact .enters _ act contending rfl taken

theorem Becomes.of_tokens {s s₁ s₂ : State α} {a : Action α} {c : Nat} {call call' : Call α}
    (h : Becomes s a s₁ c call call') (tokens : s₂.nextToken = s₁.nextToken) :
    Becomes s a s₂ c call call' := by
  cases h with
  | stays => exact .stays
  | approaches phase before after => exact .approaches phase before after
  | continues phase before after => exact .continues phase before after
  | moves phase plain => exact .moves phase plain
  | enters phase act contending late taken =>
    rw [← tokens] at taken
    exact .enters phase act contending late taken

/-- A call keeps what it is made of, and who it is unless it enters. -/
theorem Becomes.initiator {s s' : State α} {a : Action α} {c : Nat} {call call' : Call α}
    (h : Becomes s a s' c call call') :
    call'.enclosing = call.enclosing ∧ (call'.initiator = call.initiator ∨
      (a = .advance c ∧ call.phase = .contending ∧
        call'.initiator = some (s.identify call).1 ∧
        (s.identify call).2.nextToken ≤ s'.nextToken)) := by
  cases h with
  | stays => exact ⟨rfl, Or.inl rfl⟩
  | approaches => exact ⟨rfl, Or.inl rfl⟩
  | continues => exact ⟨rfl, Or.inl rfl⟩
  | moves => exact ⟨rfl, Or.inl rfl⟩
  | enters phase act contending late taken =>
    exact ⟨rfl, Or.inr ⟨act, contending, rfl, taken⟩⟩

/-- One call is what became of another one: it is made of the same. -/
structure Call.Alike (call call' : Call α) : Prop where
  flavour : call'.flavour = call.flavour
  thread : call'.thread = call.thread
  enclosing : call'.enclosing = call.enclosing
  target : call'.target = call.target
  flag : call'.flag = call.flag
  cell : call'.cell = call.cell

theorem Becomes.alike {s s' : State α} {a : Action α} {c : Nat} {call call' : Call α}
    (h : Becomes s a s' c call call') : call.Alike call' := by
  cases h <;> exact ⟨rfl, rfl, rfl, rfl, rfl, rfl⟩

/-- A call is told that it is reentrant when it enters. -/
theorem Becomes.of_isReentrant {s s' : State α} {a : Action α} {c : Nat} {call call' : Call α}
    (h : Becomes s a s' c call call') (untold : call.phase.isReentrant = false)
    (told : call'.phase.isReentrant = true) : a = .advance c ∧ call.phase = .contending := by
  have hlate {phase : Phase α} (hr : phase.isReentrant = true) :
      phase.isEarly = false ∧ phase.isInFlight = false ∧ phase.isPlain = false := by
    unfold Phase.isReentrant at hr
    split at hr
    · exact ⟨rfl, rfl, rfl⟩
    · cases hr
  obtain ⟨notEarly, notInside, notPlain⟩ := hlate told
  cases h with
  | stays =>
    rw [untold] at told
    cases told
  | approaches phase before after => cases notEarly.symm.trans after
  | continues phase before after => cases notInside.symm.trans after
  | moves phase plain => cases notPlain.symm.trans plain
  | enters phase act contending late taken => exact ⟨act, contending⟩

namespace State

variable {s s' : State α} {a : Action α} {c : Nat} {call call' : Call α}

/-- An action keeps all calls and adds none. -/
structure Keeps (s : State α) (a : Action α) (s' : State α) : Prop where
  kept : ∀ k call, s.calls.get? k = some call →
    ∃ call', s'.calls.get? k = some call' ∧ Becomes s a s' k call call'
  absent : ∀ k, s.calls.get? k = none → s'.calls.get? k = none
  tokens : s.nextToken ≤ s'.nextToken

theorem keeps_of_eq (h : s'.calls = s.calls) (tokens : s.nextToken ≤ s'.nextToken) :
    Keeps s a s' where
  kept k call hk := ⟨call, by rw [h]; exact hk, .stays⟩
  absent k hk := by rw [h]; exact hk
  tokens := tokens

/-- One call is replaced. -/
theorem keeps_set (hc : s.calls.get? c = some call) (h : s'.calls = s.calls.set c call')
    (tokens : s.nextToken ≤ s'.nextToken) (becomes : Becomes s a s' c call call') :
    Keeps s a s' where
  kept k callₖ hk := by
    by_cases hkc : c = k
    · subst hkc
      rw [hc] at hk
      cases hk
      exact ⟨call', by rw [h, Store.get?_set_self], becomes⟩
    · exact ⟨callₖ, by rw [h, Store.get?_set_of_ne _ hkc]; exact hk, .stays⟩
  absent k hk := by
    have hkc : c ≠ k := by
      rintro rfl
      rw [hc] at hk
      cases hk
    rw [h, Store.get?_set_of_ne _ hkc]
    exact hk
  tokens := tokens

/-- A call moves on. -/
theorem keeps_move {phase : Phase α} (hc : s.calls.get? c = some call)
    (h : s'.calls = s.calls.set c { call with phase }) (tokens : s.nextToken ≤ s'.nextToken)
    (plain : phase.isPlain = true) : Keeps s a s' :=
  keeps_set hc h tokens (.moves phase plain)

/-- A call comes closer to entering. -/
theorem keeps_approach {phase : Phase α} (hc : s.calls.get? c = some call)
    (h : s'.calls = s.calls.set c { call with phase }) (tokens : s.nextToken ≤ s'.nextToken)
    (before : call.phase.isEarly = true) (after : phase.isEarly = true) : Keeps s a s' :=
  keeps_set hc h tokens (.approaches phase before after)

/-- A call goes on with its initialization. -/
theorem keeps_continue {phase : Phase α} (hc : s.calls.get? c = some call)
    (h : s'.calls = s.calls.set c { call with phase }) (tokens : s.nextToken ≤ s'.nextToken)
    (before : call.phase.isInFlight = true) (after : phase.isInFlight = true) : Keeps s a s' :=
  keeps_set hc h tokens (.continues phase before after)

/-! ## The steps of a call -/

theorem keeps_probe (hc : s.calls.get? c = some call) (early : call.phase.isEarly = true) :
    Keeps s a (s.probe c call).1 := by
  unfold probe
  split
  · exact keeps_approach hc rfl (Nat.le_refl _) early rfl
  · split
    · exact keeps_move hc rfl (Nat.le_refl _) rfl
    · exact keeps_approach hc rfl (Nat.le_refl _) early rfl

theorem keeps_bind (hc : s.calls.get? c = some call) (early : call.phase.isEarly = true) :
    Keeps s a (s.bind c call).1 := by
  unfold bind
  split
  · exact keeps_approach hc rfl (Nat.le_refl _) early rfl
  · split
    · exact keeps_approach hc rfl (Nat.le_refl _) early rfl
    · split
      · exact keeps_approach hc rfl (Nat.le_refl _) early rfl
      · exact keeps_move hc rfl (Nat.le_refl _) rfl

theorem keeps_load (hc : s.calls.get? c = some call) (early : call.phase.isEarly = true) :
    Keeps s a (s.load c call).1 := by
  unfold load
  split
  · exact keeps_move hc rfl (Nat.le_refl _) rfl
  · exact keeps_approach hc rfl (Nat.le_refl _) early rfl

theorem keeps_enter (hc : s.calls.get? c = some call) (contending : call.phase = .contending) :
    Keeps s (.advance c) (s.enter c call).1 := by
  obtain ⟨n, hn, hidentify⟩ := identify_eq s call
  have hcalls : (s.identify call).2.calls = s.calls := by rw [hidentify]
  have htokens : s.nextToken ≤ (s.identify call).2.nextToken := by
    rw [hidentify]
    exact hn
  have hnamed {phase : Phase α} {next : State α} (late : phase.isEarly = false)
      (calls : next.calls = s.calls) (tokens : next.nextToken = (s.identify call).2.nextToken) :
      Keeps s (.advance c) (next.setCall c
        { call with initiator := some (s.identify call).1, phase }) := by
    refine keeps_set hc ?_ ?_ (.enters phase rfl contending late (Nat.le_of_eq tokens.symm))
    · rw [← calls]
      rfl
    · show s.nextToken ≤ next.nextToken
      rw [tokens]
      exact htokens
  cases he : s.executorOf call with
  | none => simp only [enter, he]; exact keeps_of_eq rfl (Nat.le_refl _)
  | some executor =>
    cases executor with
    | registry r =>
      simp only [enter, he]
      obtain ⟨r', phase, hs, hcases⟩ := s.enterRegistry_cases c call r
      rw [hs]
      rcases hcases with ⟨-, rfl, -⟩ | ⟨-, -, rfl, -⟩ | ⟨-, -, rfl, -⟩ | ⟨-, -, rfl, -⟩
      · exact hnamed rfl hcalls rfl
      · exact hnamed rfl hcalls rfl
      · exact hnamed rfl hcalls rfl
      · exact hnamed rfl hcalls rfl
    | table t =>
      simp only [enter, he]
      rcases s.enterTable_cases c call t with
        ⟨-, -, hs⟩ | ⟨-, -, hs⟩ | ⟨v, -, -, ⟨-, hs⟩ | ⟨-, -, hs⟩ | ⟨-, -, hs⟩⟩
      · rw [hs]
        exact keeps_of_eq rfl (Nat.le_refl _)
      · rw [hs]
        exact keeps_of_eq rfl (Nat.le_refl _)
      · rw [hs]
        exact hnamed rfl hcalls rfl
      · rw [hs]
        exact hnamed rfl hcalls rfl
      · rw [hs]
        exact hnamed rfl hcalls rfl

theorem keeps_await (hc : s.calls.get? c = some call) (signal : Signal) :
    Keeps s a (s.await c call signal).1 := by
  unfold await
  split
  · exact keeps_move hc rfl (Nat.le_refl _) rfl
  · split
    · exact keeps_move hc rfl (Nat.le_refl _) rfl
    · exact keeps_of_eq rfl (Nat.le_refl _)

theorem keeps_observe (hc : s.calls.get? c = some call) : Keeps s a (s.observe c call).1 := by
  unfold observe
  split
  · exact keeps_of_eq rfl (Nat.le_refl _)
  · split
    · exact keeps_of_eq rfl (Nat.le_refl _)
    · split
      · exact keeps_move hc rfl (Nat.le_refl _) rfl
      · exact keeps_of_eq rfl (Nat.le_refl _)

theorem keeps_store (hc : s.calls.get? c = some call) (inside : call.phase.isInFlight = true)
    (value : α) : Keeps s a (s.store c call value).1 := by
  unfold store
  split
  · exact keeps_continue hc rfl (Nat.le_refl _) inside rfl
  · split
    · exact keeps_continue hc rfl (Nat.le_refl _) inside rfl
    · exact keeps_continue hc rfl (Nat.le_refl _) inside rfl

theorem keeps_publish (hc : s.calls.get? c = some call) (inside : call.phase.isInFlight = true)
    (value : α) : Keeps s a (s.publish c call value).1 :=
  keeps_continue hc rfl (Nat.le_refl _) inside rfl

theorem keeps_complete (hc : s.calls.get? c = some call) (ending : Ending) :
    Keeps s a (s.complete c call ending).1 := by
  simp only [complete]
  split
  · exact keeps_of_eq rfl (Nat.le_refl _)
  · simp only [retire]
    split
    · exact keeps_of_eq rfl (Nat.le_refl _)
    · exact keeps_move hc rfl (Nat.le_refl _) rfl
  · simp only [settle]
    split
    · exact keeps_of_eq rfl (Nat.le_refl _)
    · exact keeps_move hc rfl (Nat.le_refl _) rfl

theorem keeps_conclude (hc : s.calls.get? c = some call) : Keeps s a (s.conclude c call).1 := by
  simp only [conclude]
  split
  · exact keeps_of_eq rfl (Nat.le_refl _)
  · split
    · exact keeps_move hc rfl (Nat.le_refl _) rfl
    · split
      · exact keeps_move hc rfl (Nat.le_refl _) rfl
      · exact keeps_move hc rfl (Nat.le_refl _) rfl

/-- Handing control to a waiter raises its signal and does nothing else. -/
theorem Keeps.handOver {s₁ : State α} (h : Keeps s a s₁) (waiter : Nat) :
    Keeps s a (s₁.handOver waiter).1 := by
  unfold State.handOver
  split
  · exact h
  · rename_i call hw
    split
    · rename_i signal _
      have hget (k : Nat) := Store.get?_set s₁.calls waiter k
        { call with phase := .queued signal.raise }
      refine { kept := ?_, absent := ?_, tokens := h.tokens }
      · intro k before hk
        obtain ⟨call', hk', becomes⟩ := h.kept k before hk
        by_cases hkw : waiter = k
        · subst hkw
          rw [hw] at hk'
          cases hk'
          exact ⟨_, (hget waiter).trans (if_pos rfl), becomes.raise signal rfl⟩
        · exact ⟨call', ((hget k).trans (if_neg hkw)).trans hk', becomes.of_tokens rfl⟩
      · intro k hk
        have hk' := h.absent k hk
        have hkw : waiter ≠ k := by
          rintro rfl
          rw [hw] at hk'
          cases hk'
        exact ((hget k).trans (if_neg hkw)).trans hk'
    · exact h

theorem keeps_resume (hc : s.calls.get? c = some call) (ending : Ending) (waiters : List Nat) :
    Keeps s a (s.resume c call ending waiters).1 := by
  cases waiters with
  | nil => cases ending <;> exact keeps_move hc rfl (Nat.le_refl _) rfl
  | cons waiter rest =>
    have hfirst : Keeps s a (s.setPhase c call (.resuming rest ending)) :=
      keeps_move hc rfl (Nat.le_refl _) rfl
    exact hfirst.handOver waiter

theorem keeps_advance (s : State α) (c : Nat) : Keeps s (.advance c) (s.advance c).1 := by
  unfold advance
  split
  · exact keeps_of_eq rfl (Nat.le_refl _)
  · exact keeps_of_eq rfl (Nat.le_refl _)
  · rename_i call _ hc
    cases hp : call.phase with
    | probing => exact keeps_probe hc (by rw [hp]; rfl)
    | binding => exact keeps_bind hc (by rw [hp]; rfl)
    | arriving => exact keeps_load hc (by rw [hp]; rfl)
    | contending => exact keeps_enter hc hp
    | running => exact keeps_of_eq rfl (Nat.le_refl _)
    | queued signal => exact keeps_await hc signal
    | polling => exact keeps_observe hc
    | storing value => exact keeps_store hc (by rw [hp]; rfl) value
    | publishing value => exact keeps_publish hc (by rw [hp]; rfl) value
    | completing ending => exact keeps_complete hc ending
    | marking ending | releasing ending => exact keeps_move hc rfl (Nat.le_refl _) rfl
    | resuming waiters ending => exact keeps_resume hc ending waiters
    | concluding => exact keeps_conclude hc
    | ended outcome => exact keeps_of_eq rfl (Nat.le_refl _)

/-! ## Actions from outside -/

theorem keeps_finish (s : State α) (c : Nat) (ending : Ending) (value : Option α) :
    Keeps s a (s.finish c ending value) := by
  unfold finish
  split
  · exact keeps_of_eq rfl (Nat.le_refl _)
  · rename_i call hc
    split
    · rename_i hp
      have inside : call.phase.isInFlight = true := by rw [hp]; rfl
      split
      · exact keeps_continue hc rfl (Nat.le_refl _) inside rfl
      · exact keeps_continue hc rfl (Nat.le_refl _) inside rfl
    · exact keeps_of_eq rfl (Nat.le_refl _)

theorem keeps_abandon (s : State α) (c : Nat) : Keeps s a (s.abandon c) := by
  unfold abandon
  split
  · exact keeps_of_eq rfl (Nat.le_refl _)
  · rename_i call hc
    split
    · exact keeps_finish s c .dropped none
    · exact keeps_of_eq rfl (Nat.le_refl _)
    · exact keeps_of_eq rfl (Nat.le_refl _)
    · exact keeps_of_eq rfl (Nat.le_refl _)
    · exact keeps_of_eq rfl (Nat.le_refl _)
    · exact keeps_of_eq rfl (Nat.le_refl _)
    · exact keeps_move hc rfl (Nat.le_refl _) rfl

theorem keeps_act (h : ∀ call, a ≠ .issue call) : Keeps s a (s.act a) := by
  cases a with
  | issue call => exact absurd rfl (h call)
  | advance c => exact keeps_advance s c
  | finish c ending value => exact keeps_finish s c ending value
  | abandon c => exact keeps_abandon s c

theorem tokens_act (s : State α) (a : Action α) : s.nextToken ≤ (s.act a).nextToken := by
  cases a with
  | issue call => exact Nat.le_refl _
  | advance c => exact (keeps_advance s c).tokens
  | finish c ending value => exact (keeps_finish (a := .advance c) s c ending value).tokens
  | abandon c => exact (keeps_abandon (a := .advance c) s c).tokens

/-- **What there is after an action**: a call that was there before, or the one that is issued. -/
theorem calls_act (hk : (s.act a).calls.get? c = some call') :
    (a = .issue call' ∧ c = s.nextKey) ∨
    ∃ call, s.calls.get? c = some call ∧ Becomes s a (s.act a) c call call' := by
  by_cases ha : ∃ call, a = .issue call
  · obtain ⟨call, rfl⟩ := ha
    have hget : (s.act (.issue call)).calls.get? c =
        if s.nextKey = c then some call else s.calls.get? c := Store.get?_set ..
    rw [hget] at hk
    split at hk
    · rename_i hkey
      cases hk
      exact Or.inl ⟨rfl, hkey.symm⟩
    · exact Or.inr ⟨call', hk, .stays⟩
  · have hkeeps : Keeps s a (s.act a) := keeps_act fun call he => ha ⟨call, he⟩
    cases hc : s.calls.get? c with
    | none =>
      rw [hkeeps.absent c hc] at hk
      cases hk
    | some call =>
      obtain ⟨call'', hc', becomes⟩ := hkeeps.kept c call hc
      rw [hk] at hc'
      cases hc'
      exact Or.inr ⟨call, rfl, becomes⟩

/-- **What becomes of a call**, if keys are fresh. -/
theorem call_act (fresh : s.calls.get? s.nextKey = none) (hc : s.calls.get? c = some call) :
    ∃ call', (s.act a).calls.get? c = some call' ∧ Becomes s a (s.act a) c call call' := by
  by_cases ha : ∃ new, a = .issue new
  · obtain ⟨new, rfl⟩ := ha
    have hne : s.nextKey ≠ c := by
      rintro rfl
      rw [fresh] at hc
      cases hc
    have hget : (s.act (.issue new)).calls.get? c = s.calls.get? c := Store.get?_set_of_ne _ hne _
    exact ⟨call, hget.trans hc, .stays⟩
  · exact (keeps_act fun new he => ha ⟨new, he⟩).kept c call hc

end State

end RunOnce.Protocol
