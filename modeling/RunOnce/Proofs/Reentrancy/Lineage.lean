import Mathlib.Logic.Relation
import RunOnce.Proofs.Protocol.Frame

/-!
# Where tokens come from

**Passing on** (`Passes`). A call that an initializer with a token makes takes this token over. A
call without such an initializer around it draws its own token, if it is asynchronous.

**The lineage** (`Lineage`) of all calls is kept by every action: a token was drawn by one call
only, and the others that have it took it over. So two calls have one token exactly when there is a
call from which both take it, over any number of steps (`Lineage.tokenOf?_eq_iff`).
-/

namespace RunOnce.Protocol

open Relation State

variable {α : Type}

/-- A call takes over the token of the initializer that made it. -/
def Passes (s : State α) (outer c : Nat) : Prop :=
  ∃ call, s.calls.get? c = some call ∧ call.enclosing = some outer ∧
    (s.tokenOf? outer).isSome = true

/-- What is known about who calls are. -/
structure Lineage (s : State α) : Prop where
  /-- A call that has not entered does not know who it is. -/
  early : ∀ c call, s.calls.get? c = some call → call.phase.isEarly = true → call.initiator = none
  inside : ∀ c call, s.calls.get? c = some call → call.phase.isInFlight = true →
    call.initiator ≠ none
  earlier : ∀ c call outer, s.calls.get? c = some call → call.enclosing = some outer →
    outer < c ∧ ∃ o, s.calls.get? outer = some o ∧ o.initiator ≠ none
  drawn : ∀ c token, s.tokenOf? c = some token → token < s.nextToken
  passed : ∀ c call token, s.calls.get? c = some call → call.initiator ≠ none →
    s.inherited? call = some token → s.tokenOf? c = some token
  /-- Of the calls that have a token, one at most has drawn it. -/
  source : ∀ c c' call call' token, s.calls.get? c = some call → s.calls.get? c' = some call' →
    s.inherited? call = none → s.inherited? call' = none →
    s.tokenOf? c = some token → s.tokenOf? c' = some token → c = c'

section

variable {s : State α} {c c' r : Nat} {call call' : Call α} {token : Nat}

theorem tokenOf?_of_get? (hc : s.calls.get? c = some call) :
    s.tokenOf? c = call.initiator.bind Initiator.token? := by
  rw [tokenOf?, hc]
  rfl

theorem exists_of_tokenOf? (ht : s.tokenOf? c = some token) :
    ∃ call, s.calls.get? c = some call ∧ call.initiator = some (.scope token) := by
  obtain ⟨who, hwho, htoken⟩ := Option.bind_eq_some_iff.mp ht
  obtain ⟨call, hc, hcall⟩ := Option.bind_eq_some_iff.mp hwho
  refine ⟨call, hc, ?_⟩
  cases who with
  | thread name => cases htoken
  | scope t =>
    cases htoken
    exact hcall

theorem exists_of_inherited? (ht : s.inherited? call = some token) :
    ∃ outer, call.enclosing = some outer ∧ s.tokenOf? outer = some token :=
  Option.bind_eq_some_iff.mp ht

theorem Passes.isSome (passes : Passes s c' c) : (s.tokenOf? c').isSome = true := by
  obtain ⟨-, -, -, hsome⟩ := passes
  exact hsome

theorem inherited?_of_passes (passes : Passes s c' c) (hc : s.calls.get? c = some call) :
    s.inherited? call = s.tokenOf? c' := by
  obtain ⟨mine, hmine, henclosing, -⟩ := passes
  rw [hc] at hmine
  cases hmine
  rw [inherited?, henclosing]
  rfl

namespace Lineage

/-! ## Following tokens back -/

/-- A call that knows who it is has the token of every call from which it takes one over. -/
theorem tokenOf?_of_under (h : Lineage s) (under : ReflTransGen (Passes s) r c)
    (hc : s.calls.get? c = some call) (named : call.initiator ≠ none) :
    s.tokenOf? c = s.tokenOf? r := by
  induction under generalizing call with
  | refl => rfl
  | @tail b c _ passes ih =>
    obtain ⟨token, htoken⟩ := Option.isSome_iff_exists.mp passes.isSome
    obtain ⟨outer, houter, hwho⟩ := exists_of_tokenOf? htoken
    rw [← ih houter (by rw [hwho]; simp), htoken]
    refine h.passed c call token hc named ?_
    rw [inherited?_of_passes passes hc, htoken]

/-- Every token was drawn by some call. -/
theorem exists_source (h : Lineage s) (ht : s.tokenOf? c = some token) :
    ∃ r call, s.calls.get? r = some call ∧ s.inherited? call = none ∧
      s.tokenOf? r = some token ∧ ReflTransGen (Passes s) r c := by
  induction c using Nat.strongRecOn generalizing token with
  | ind c ih =>
    obtain ⟨call, hc, hwho⟩ := exists_of_tokenOf? ht
    cases hin : s.inherited? call with
    | none => exact ⟨c, call, hc, hin, ht, .refl⟩
    | some inherited =>
      have hpassed := h.passed c call inherited hc (by rw [hwho]; simp) hin
      rw [ht] at hpassed
      cases hpassed
      obtain ⟨outer, henclosing, houter⟩ := exists_of_inherited? hin
      have hlt := (h.earlier c call outer hc henclosing).1
      obtain ⟨r, source, hr, hnone, htoken, hunder⟩ := ih outer hlt houter
      exact ⟨r, source, hr, hnone, htoken,
        hunder.tail ⟨call, hc, henclosing, by rw [houter]; rfl⟩⟩

/-- **Two calls have one token exactly when both take it over from one call.** -/
theorem tokenOf?_eq_iff (h : Lineage s) {token' : Nat} (ht : s.tokenOf? c = some token)
    (ht' : s.tokenOf? c' = some token') :
    token = token' ↔ ∃ r, ReflTransGen (Passes s) r c ∧ ReflTransGen (Passes s) r c' := by
  constructor
  · rintro rfl
    obtain ⟨r, call, hr, hnone, htoken, hunder⟩ := h.exists_source ht
    obtain ⟨r', call', hr', hnone', htoken', hunder'⟩ := h.exists_source ht'
    have hsame := h.source r r' call call' token hr hr' hnone hnone' htoken htoken'
    subst hsame
    exact ⟨r, hunder, hunder'⟩
  · rintro ⟨r, hunder, hunder'⟩
    obtain ⟨call, hc, hwho⟩ := exists_of_tokenOf? ht
    obtain ⟨call', hc', hwho'⟩ := exists_of_tokenOf? ht'
    have hr := h.tokenOf?_of_under hunder hc (by rw [hwho]; simp)
    have hr' := h.tokenOf?_of_under hunder' hc' (by rw [hwho']; simp)
    rw [← hr', ht, ht'] at hr
    exact Option.some.inj hr

/-- A call that has no token passes none on. -/
theorem eq_of_under_early (hc : s.calls.get? c = some call) (unnamed : call.initiator = none)
    (under : ReflTransGen (Passes s) c c') : c = c' := by
  rcases under.cases_head with heq | ⟨b, hpasses, -⟩
  · exact heq
  · have hsome := hpasses.isSome
    rw [tokenOf?_of_get? hc, unnamed] at hsome
    cases hsome

/-- **Who an asynchronous call will be.** It has the identity of another call exactly when both take
over one token. -/
theorem identify_eq_iff (h : Lineage s) {who : Initiator} (hc : s.calls.get? c = some call)
    (unnamed : call.initiator = none) (async : call.flavour = .async)
    (hc' : s.calls.get? c' = some call') (hwho : call'.initiator = some who) :
    (s.identify call).1 = who ↔
      ∃ r, ReflTransGen (Passes s) r c ∧ ReflTransGen (Passes s) r c' := by
  have hnamed : call'.initiator ≠ none := by rw [hwho]; simp
  -- The call itself is none of those from which the other one takes its token.
  have hstrict {r : Nat} (hrc : ReflTransGen (Passes s) r c)
      (hrc' : ReflTransGen (Passes s) r c') :
      ∃ outer, ReflTransGen (Passes s) r outer ∧ Passes s outer c := by
    rcases hrc.cases_tail with heq | hlast
    · subst heq
      have := eq_of_under_early hc unnamed hrc'
      subst this
      rw [hc] at hc'
      cases hc'
      exact absurd unnamed hnamed
    · exact hlast
  rcases s.identify_cases call with ⟨token, hin, he⟩ | ⟨-, hblocking, -⟩ | ⟨hin, -, he⟩
  · rw [he]
    obtain ⟨outer, henclosing, houter⟩ := exists_of_inherited? hin
    have hpasses : Passes s outer c := ⟨call, hc, henclosing, by rw [houter]; rfl⟩
    constructor
    · rintro rfl
      have ht' : s.tokenOf? c' = some token := by
        rw [tokenOf?_of_get? hc', hwho]
        rfl
      obtain ⟨r, hr, hr'⟩ := (h.tokenOf?_eq_iff houter ht').mp rfl
      exact ⟨r, hr.tail hpasses, hr'⟩
    · rintro ⟨r, hr, hr'⟩
      obtain ⟨outer', hunder, hpasses'⟩ := hstrict hr hr'
      have hsame : s.tokenOf? outer' = some token := by
        rw [← inherited?_of_passes hpasses' hc]
        exact hin
      obtain ⟨o, ho, howho⟩ := exists_of_tokenOf? hsame
      have htoken := h.tokenOf?_of_under hunder ho (by rw [howho]; simp)
      have htoken' := h.tokenOf?_of_under hr' hc' hnamed
      rw [← htoken, hsame] at htoken'
      obtain ⟨mine, hmine, hscope⟩ := exists_of_tokenOf? htoken'
      rw [hc'] at hmine
      cases hmine
      rw [hwho] at hscope
      exact (Option.some.inj hscope).symm
  · rw [async] at hblocking
    cases hblocking
  · rw [he]
    constructor
    · rintro rfl
      have ht' : s.tokenOf? c' = some s.nextToken := by
        rw [tokenOf?_of_get? hc', hwho]
        rfl
      exact absurd (h.drawn c' s.nextToken ht') (Nat.lt_irrefl _)
    · rintro ⟨r, hr, hr'⟩
      obtain ⟨outer, -, hpasses⟩ := hstrict hr hr'
      have hnone := inherited?_of_passes hpasses hc
      have hsome := hpasses.isSome
      rw [← hnone, hin] at hsome
      cases hsome

/-! ## Actions keep the lineage -/

variable {a : Action α}

/-- A call that knows who it is goes on to be the same. -/
theorem initiator_act (h : Lineage s) (fresh : s.calls.get? s.nextKey = none)
    (hc : s.calls.get? c = some call) (named : call.initiator ≠ none) :
    ∃ call', (s.act a).calls.get? c = some call' ∧ call'.initiator = call.initiator := by
  obtain ⟨call', hc', becomes⟩ := call_act (a := a) fresh hc
  refine ⟨call', hc', ?_⟩
  rcases becomes.initiator.2 with hsame | ⟨-, hcontending, -⟩
  · exact hsame
  · exact absurd (h.early c call hc (by rw [hcontending]; rfl)) named

theorem tokenOf?_act (h : Lineage s) (fresh : s.calls.get? s.nextKey = none)
    (hc : s.calls.get? c = some call) (named : call.initiator ≠ none) :
    (s.act a).tokenOf? c = s.tokenOf? c := by
  obtain ⟨call', hc', hsame⟩ := h.initiator_act (a := a) fresh hc named
  rw [tokenOf?_of_get? hc', tokenOf?_of_get? hc, hsame]

/-- What a call would take over does not change. -/
theorem inherited?_act (h : Lineage s) (fresh : s.calls.get? s.nextKey = none)
    (hc : s.calls.get? c = some call) (same : call'.enclosing = call.enclosing) :
    (s.act a).inherited? call' = s.inherited? call := by
  rw [inherited?, inherited?, same]
  cases henclosing : call.enclosing with
  | none => rfl
  | some outer =>
    obtain ⟨-, o, ho, hnamed⟩ := h.earlier c call outer hc henclosing
    exact h.tokenOf?_act fresh ho hnamed

/-- A call with a token had it before, or it enters and learns it now. -/
theorem of_tokenOf?_act (h : Lineage s) (possible : s.Possible a)
    (ht : (s.act a).tokenOf? c = some token) :
    ∃ call, s.calls.get? c = some call ∧ (s.tokenOf? c = some token ∨
      (a = .advance c ∧ call.initiator = none ∧ (s.identify call).1 = .scope token ∧
        (s.identify call).2.nextToken ≤ (s.act a).nextToken)) := by
  obtain ⟨call', hc', hwho⟩ := exists_of_tokenOf? ht
  rcases calls_act hc' with ⟨rfl, -⟩ | ⟨call, hc, becomes⟩
  · have hnone : call'.initiator = none := possible.initiator
    rw [hnone] at hwho
    cases hwho
  · refine ⟨call, hc, ?_⟩
    rcases becomes.initiator.2 with hsame | ⟨hact, hcontending, hnow, htaken⟩
    · left
      rw [tokenOf?_of_get? hc, ← hsame, hwho]
      rfl
    · right
      rw [hwho] at hnow
      have hnone := h.early c call hc (by rw [hcontending]; rfl)
      exact ⟨hact, hnone, (Option.some.inj hnow).symm, htaken⟩

theorem early_act (h : Lineage s) (possible : s.Possible a)
    (hc : (s.act a).calls.get? c = some call') (early : call'.phase.isEarly = true) :
    call'.initiator = none := by
  rcases calls_act hc with ⟨rfl, -⟩ | ⟨call, hcall, becomes⟩
  · exact possible.initiator
  · cases becomes with
    | stays => exact h.early c _ hcall early
    | approaches phase before after => exact h.early c call hcall before
    | continues phase before after =>
      have early' : phase.isEarly = true := early
      rw [Phase.isEarly_of_isInFlight after] at early'
      cases early'
    | moves phase plain =>
      have early' : phase.isEarly = true := early
      rw [Phase.isEarly_of_isPlain plain] at early'
      cases early'
    | enters phase act contending late taken =>
      have late' : phase.isEarly = true := early
      rw [late] at late'
      cases late'

theorem inside_act (h : Lineage s) (possible : s.Possible a)
    (hc : (s.act a).calls.get? c = some call') (inside : call'.phase.isInFlight = true) :
    call'.initiator ≠ none := by
  rcases calls_act hc with ⟨rfl, -⟩ | ⟨call, hcall, becomes⟩
  · rcases possible.phase with hp | hp
    · rw [hp] at inside
      cases inside
    · rw [hp] at inside
      cases inside
  · cases becomes with
    | stays => exact h.inside c _ hcall inside
    | approaches phase before after =>
      rw [Phase.isEarly_of_isInFlight inside] at after
      cases after
    | continues phase before after => exact h.inside c call hcall before
    | moves phase plain =>
      have inside' : phase.isInFlight = true := inside
      rw [Phase.isInFlight_of_isPlain plain] at inside'
      cases inside'
    | enters => exact Option.some_ne_none _

theorem earlier_act {outer : Nat} (h : Lineage s)
    (fresh : ∀ k, s.nextKey ≤ k → s.calls.get? k = none) (possible : s.Possible a)
    (hc : (s.act a).calls.get? c = some call') (henclosing : call'.enclosing = some outer) :
    outer < c ∧ ∃ o, (s.act a).calls.get? outer = some o ∧ o.initiator ≠ none := by
  have hkept {o : Call α} (ho : s.calls.get? outer = some o) (named : o.initiator ≠ none) :
      ∃ o, (s.act a).calls.get? outer = some o ∧ o.initiator ≠ none := by
    obtain ⟨o', ho', hsame⟩ := h.initiator_act (a := a) (fresh _ (Nat.le_refl _)) ho named
    exact ⟨o', ho', by rw [hsame]; exact named⟩
  rcases calls_act hc with ⟨rfl, rfl⟩ | ⟨call, hcall, becomes⟩
  · have hrunning := possible.enclosing outer henclosing
    cases ho : s.calls.get? outer with
    | none =>
      rw [phaseOf, ho] at hrunning
      cases hrunning
    | some o =>
      rw [phaseOf_of_get? ho] at hrunning
      refine ⟨?_, hkept ho (h.inside outer o ho (by rw [hrunning]; rfl))⟩
      by_contra hle
      rw [fresh outer (Nat.le_of_not_lt hle)] at ho
      cases ho
  · rw [becomes.initiator.1] at henclosing
    obtain ⟨hlt, o, ho, named⟩ := h.earlier c call outer hcall henclosing
    exact ⟨hlt, hkept ho named⟩

theorem drawn_act (h : Lineage s) (possible : s.Possible a)
    (ht : (s.act a).tokenOf? c = some token) : token < (s.act a).nextToken := by
  obtain ⟨call, hc, hold | ⟨-, -, hnew, htaken⟩⟩ := h.of_tokenOf?_act possible ht
  · exact Nat.lt_of_lt_of_le (h.drawn c token hold) (tokens_act s a)
  · rcases s.identify_cases call with ⟨t, hin, he⟩ | ⟨-, -, he⟩ | ⟨-, -, he⟩
    · rw [he] at hnew
      cases hnew
      obtain ⟨outer, -, houter⟩ := exists_of_inherited? hin
      exact Nat.lt_of_lt_of_le (h.drawn outer token houter) (tokens_act s a)
    · rw [he] at hnew
      cases hnew
    · rw [he] at hnew htaken
      cases hnew
      exact htaken

theorem passed_act (h : Lineage s) (fresh : s.calls.get? s.nextKey = none)
    (possible : s.Possible a) (hc : (s.act a).calls.get? c = some call')
    (named : call'.initiator ≠ none) (hin : (s.act a).inherited? call' = some token) :
    (s.act a).tokenOf? c = some token := by
  rcases calls_act hc with ⟨rfl, -⟩ | ⟨call, hcall, becomes⟩
  · exact absurd possible.initiator named
  · obtain ⟨henclosing, hinitiator⟩ := becomes.initiator
    rw [h.inherited?_act fresh hcall henclosing] at hin
    rcases hinitiator with hsame | ⟨-, -, hnow, -⟩
    · rw [hsame] at named
      rw [h.tokenOf?_act fresh hcall named]
      exact h.passed c call token hcall named hin
    · rcases s.identify_cases call with ⟨t, hin', he⟩ | ⟨hnone, -⟩ | ⟨hnone, -⟩
      · rw [hin] at hin'
        cases hin'
        rw [he] at hnow
        rw [tokenOf?_of_get? hc, hnow]
        rfl
      · rw [hin] at hnone
        cases hnone
      · rw [hin] at hnone
        cases hnone

/-- A call that draws a token has one that nobody had before. -/
theorem eq_nextToken (hnone : s.inherited? call = none)
    (he : (s.identify call).1 = .scope token) : token = s.nextToken := by
  rcases s.identify_cases call with ⟨t, hin, -⟩ | ⟨-, -, hid⟩ | ⟨-, -, hid⟩
  · rw [hnone] at hin
    cases hin
  · rw [hid] at he
    cases he
  · rw [hid] at he
    cases he
    rfl

theorem source_act {call₁ call₂ : Call α} (h : Lineage s) (fresh : s.calls.get? s.nextKey = none)
    (possible : s.Possible a) (hc : (s.act a).calls.get? c = some call₁)
    (hc' : (s.act a).calls.get? c' = some call₂)
    (hin : (s.act a).inherited? call₁ = none) (hin' : (s.act a).inherited? call₂ = none)
    (ht : (s.act a).tokenOf? c = some token) (ht' : (s.act a).tokenOf? c' = some token) :
    c = c' := by
  have hbefore {k : Nat} {before after : Call α} (hk : s.calls.get? k = some before)
      (hk' : (s.act a).calls.get? k = some after) (hafter : (s.act a).inherited? after = none) :
      s.inherited? before = none := by
    obtain ⟨after', hafter', becomes⟩ := call_act (a := a) fresh hk
    rw [hk'] at hafter'
    cases hafter'
    rw [← h.inherited?_act fresh hk becomes.initiator.1]
    exact hafter
  obtain ⟨call, hcall, hold⟩ := h.of_tokenOf?_act possible ht
  obtain ⟨call', hcall', hold'⟩ := h.of_tokenOf?_act possible ht'
  have hnone := hbefore hcall hc hin
  have hnone' := hbefore hcall' hc' hin'
  rcases hold with hold | ⟨hact, -, hnew, -⟩
  · rcases hold' with hold' | ⟨-, -, hnew', -⟩
    · exact h.source c c' call call' token hcall hcall' hnone hnone' hold hold'
    · have hlt := h.drawn c token hold
      rw [eq_nextToken hnone' hnew'] at hlt
      exact absurd hlt (Nat.lt_irrefl _)
  · rcases hold' with hold' | ⟨hact', -⟩
    · have hlt := h.drawn c' token hold'
      rw [eq_nextToken hnone hnew] at hlt
      exact absurd hlt (Nat.lt_irrefl _)
    · rw [hact] at hact'
      cases hact'
      rfl

/-- **Every action keeps the lineage.** -/
theorem act (h : Lineage s) (fresh : ∀ k, s.nextKey ≤ k → s.calls.get? k = none)
    (possible : s.Possible a) : Lineage (s.act a) := by
  have hkey := fresh _ (Nat.le_refl _)
  exact {
    early := fun _ _ hc early => h.early_act possible hc early
    inside := fun _ _ hc inside => h.inside_act possible hc inside
    earlier := fun _ _ _ hc henclosing => h.earlier_act fresh possible hc henclosing
    drawn := fun _ _ ht => h.drawn_act possible ht
    passed := fun _ _ _ hc named hin => h.passed_act hkey possible hc named hin
    source := fun _ _ _ _ _ hc hc' hin hin' ht ht' =>
      h.source_act hkey possible hc hc' hin hin' ht ht' }

end Lineage

end

end RunOnce.Protocol
