import RunOnce.Proofs.Exclusion.Global

/-!
# Where the value of a global is

**Cargo** (`Cargo`). A call whose initializer has returned a value has this value in hand, first
without and then with the right to write it.

**Deliveries** (`Delivery`). An action of a call of a global leaves content and cargo alone, or it
takes the value one place further (`delivery_act`). All other actions leave both alone.

**Custody** (`Custody`). The values that were produced so far are in one place: there is none, or
there is one, which one call has in hand or the global holds. Every delivery keeps this, as long as
no initializer returns a value while there is one (`Custody.deliver`).
-/

namespace RunOnce.Protocol

open State

variable {α : Type}

/-- What a call has to store. -/
inductive Cargo (α : Type)
  | nothing
  /-- It has a value. -/
  | ready (value : α)
  /-- It has a value and the right to write it. -/
  | writing (value : α)

/-- What a call in a phase has to store. -/
def Phase.cargo : Phase α → Cargo α
  | .storing value => .ready value
  | .publishing value => .writing value
  | _ => .nothing

/-- What a call of a global has to store. -/
def State.cargoOf (s : State α) (k c : Nat) : Cargo α :=
  match s.calls.get? c with
  | some call => if call.cell = some k then call.phase.cargo else .nothing
  | none => .nothing

/-- The value that the initializer of a call of a global returns. -/
def Moment.returns? (m : Moment α) (k : Nat) : Option α :=
  match m.action with
  | .finish c .returned (some value) =>
    match m.state.calls.get? c with
    | some call =>
      match call.phase with
      | .running => if call.cell = some k then some value else none
      | _ => none
    | none => none
  | _ => none

/-- The values that initializers of a global have returned, in order. -/
def produced (past : List (Moment α)) (k : Nat) : List α := past.filterMap (·.returns? k)

theorem produced_concat (past : List (Moment α)) (m : Moment α) (k : Nat) :
    produced (past ++ [m]) k = produced past k ++ (m.returns? k).toList := by
  cases h : m.returns? k <;> simp [produced, h]

/-- The moves of what a global holds. -/
inductive ContentMove : Content α → Content α → Prop
  | stays (content : Content α) : ContentMove content content
  | claimed : ContentMove .empty .writing
  | published (value : α) : ContentMove .writing (.stored value)

/-- What an action of a call does to the content of its global and to what it has in hand, given
the value that its initializer returns. -/
inductive Delivery : Content α → Cargo α → Option α → Content α → Cargo α → Prop
  | rests (content : Content α) (cargo : Cargo α) : Delivery content cargo none content cargo
  | gains (content : Content α) (value : α) :
      Delivery content .nothing (some value) content (.ready value)
  | reserves (value : α) : Delivery .empty (.ready value) none .writing (.writing value)
  | publishes (content : Content α) (value : α) :
      Delivery content (.writing value) none (.stored value) .nothing
  | discards {content : Content α} (value : α) (taken : content ≠ .empty) :
      Delivery content (.ready value) none content .nothing

/-- Where the values are that were produced. -/
inductive Custody (content : Content α) (cargo : Nat → Cargo α) : List α → Prop
  | nowhere (empty : content = .empty) (idle : ∀ c, cargo c = .nothing) : Custody content cargo []
  | ready {c : Nat} {value : α} (empty : content = .empty) (mine : cargo c = .ready value)
      (others : ∀ k, k ≠ c → cargo k = .nothing) : Custody content cargo [value]
  | writing {c : Nat} {value : α} (writing : content = .writing)
      (mine : cargo c = .writing value) (others : ∀ k, k ≠ c → cargo k = .nothing) :
      Custody content cargo [value]
  | stored {value : α} (stored : content = .stored value) (idle : ∀ c, cargo c = .nothing) :
      Custody content cargo [value]

namespace Custody

variable {content content' : Content α} {cargo cargo' : Nat → Cargo α} {values : List α}
  {returned : Option α} {c : Nat}

theorem ready_of (custody : Custody content cargo values) {value : α}
    (mine : cargo c = .ready value) : content = .empty ∧ values = [value] ∧
      ∀ k, k ≠ c → cargo k = .nothing := by
  cases custody with
  | nowhere _ idle | stored _ idle =>
    rw [idle] at mine
    cases mine
  | @ready k v empty there others =>
    by_cases hk : c = k
    · subst hk
      rw [mine] at there
      cases there
      exact ⟨empty, rfl, others⟩
    · rw [others c hk] at mine
      cases mine
  | @writing k v _ there others =>
    by_cases hk : c = k
    · subst hk
      rw [mine] at there
      cases there
    · rw [others c hk] at mine
      cases mine

theorem writing_of (custody : Custody content cargo values) {value : α}
    (mine : cargo c = .writing value) : content = .writing ∧ values = [value] ∧
      ∀ k, k ≠ c → cargo k = .nothing := by
  cases custody with
  | nowhere _ idle | stored _ idle =>
    rw [idle] at mine
    cases mine
  | @ready k v _ there others =>
    by_cases hk : c = k
    · subst hk
      rw [mine] at there
      cases there
    · rw [others c hk] at mine
      cases mine
  | @writing k v writing there others =>
    by_cases hk : c = k
    · subst hk
      rw [mine] at there
      cases there
      exact ⟨writing, rfl, others⟩
    · rw [others c hk] at mine
      cases mine

/-- **A delivery keeps custody**: no value gets lost, and none is there twice. -/
theorem deliver (custody : Custody content cargo values)
    (delivery : Delivery content (cargo c) returned content' (cargo' c))
    (same : ∀ k, k ≠ c → cargo' k = cargo k) (first : returned ≠ none → values = []) :
    Custody content' cargo' (values ++ returned.toList) := by
  have hothers (idle : ∀ k, k ≠ c → cargo k = .nothing) (k : Nat) (hk : k ≠ c) :
      cargo' k = .nothing := (same k hk).trans (idle k hk)
  have hidle (idle : ∀ k, k ≠ c → cargo k = .nothing) (mine : cargo' c = .nothing) (k : Nat) :
      cargo' k = .nothing := by
    by_cases hk : k = c
    · rw [hk, mine]
    · exact hothers idle k hk
  generalize hbefore : cargo c = before, hafter : cargo' c = after at delivery
  cases delivery with
  | rests =>
    have hsame : cargo' = cargo := by
      funext k
      by_cases hk : k = c
      · rw [hk, hafter, hbefore]
      · exact same k hk
    rw [hsame]
    simpa using custody
  | gains content value =>
    have hnone := first (Option.some_ne_none value)
    subst hnone
    cases custody with
    | nowhere empty idle => exact .ready empty hafter (hothers fun k _ => idle k)
  | reserves value =>
    obtain ⟨-, rfl, others⟩ := custody.ready_of hbefore
    exact .writing rfl hafter (hothers others)
  | publishes content value =>
    obtain ⟨-, rfl, others⟩ := custody.writing_of hbefore
    exact .stored rfl (hidle others hafter)
  | discards value taken => exact absurd (custody.ready_of hbefore).1 taken

theorem moves (custody : Custody content cargo values)
    (delivery : Delivery content (cargo c) returned content' (cargo' c)) :
    ContentMove content content' := by
  generalize hbefore : cargo c = before, cargo' c = after at delivery
  cases delivery with
  | rests | gains | discards => exact .stays _
  | reserves => exact .claimed
  | publishes content value =>
    rw [(custody.writing_of hbefore).1]
    exact .published value

end Custody

/-! ## Actions -/

namespace State

variable {s s' : State α} {a : Action α} {c k : Nat} {call : Call α} {cell : LazyCell α}
  {notices : List (Notice α)}

theorem delivery_of_same {phase' : Phase α} (hs : s'.phaseOf c = phase')
    (cells : s'.cells = s.cells) (known : s.cells.get? k = some cell)
    (same : phase'.cargo = call.phase.cargo) : ∃ cell', s'.cells.get? k = some cell' ∧
      Delivery cell.content call.phase.cargo none cell'.content (s'.phaseOf c).cargo := by
  refine ⟨cell, by rw [cells]; exact known, ?_⟩
  rw [hs, same]
  exact .rests ..

theorem delivery_effect (hc : s.calls.get? c = some call) (wanted : call.cell = some k)
    (known : s.cells.get? k = some cell) (effect : Effect s c call s' notices) :
    ∃ cell', s'.cells.get? k = some cell' ∧
      Delivery cell.content call.phase.cargo none cell'.content (s'.phaseOf c).cargo := by
  have hcells := cells_identify s call
  cases effect with
  | rests | lacks | breaks | misses | fails =>
    exact delivery_of_same (phaseOf_of_get? hc) rfl known rfl
  | returns _ unwanted =>
    rw [wanted] at unwanted
    cases unwanted
  | skips phase =>
    refine delivery_of_same (phaseOf_setCall ..) rfl known ?_
    rcases phase with phase | phase <;> rw [phase] <;> rfl
  | finds phase | asks phase | strays phase | sees phase | contends phase | resumes phase
    | parks phase | follows phase | settles phase | marks phase | releases phase | retires phase
    | goesOn phase | leaves phase | concludes phase =>
    exact delivery_of_same (phaseOf_setCall ..) rfl known (by rw [phase]; rfl)
  | late phase | meets phase | joins phase | wins phase | recurs phase | loses phase
    | claims phase =>
    exact delivery_of_same (phaseOf_setCall ..) hcells known (by rw [phase]; rfl)
  | @ties key found bound phase hwanted hfound tied =>
    rw [wanted] at hwanted
    cases hwanted
    rw [known] at hfound
    cases hfound
    refine ⟨bound, Store.get?_set_self .., ?_⟩
    rw [phaseOf_setPhase, phase, (LazyCell.bind_eq_some tied).2.1]
    exact .rests ..
  | @reserves value key found claimed phase hwanted hfound free =>
    rw [wanted] at hwanted
    cases hwanted
    rw [known] at hfound
    cases hfound
    refine ⟨claimed, Store.get?_set_self .., ?_⟩
    have hwriting : claimed.content = .writing := by
      unfold LazyCell.claim at free
      split at free <;> cases free
      rfl
    rw [phaseOf_setPhase, phase, (LazyCell.claim_eq_some free).1, hwriting]
    exact .reserves value
  | @discards value key phase hwanted taken =>
    rw [wanted] at hwanted
    cases hwanted
    rw [known, Option.bind_some, LazyCell.claim_eq_none] at taken
    refine ⟨cell, known, ?_⟩
    rw [phaseOf_setPhase, phase]
    exact .discards value taken
  | @publishes value key phase hwanted =>
    rw [wanted] at hwanted
    cases hwanted
    refine ⟨cell.publish value, (Store.get?_modify ..).trans (by rw [if_pos rfl, known]; rfl), ?_⟩
    rw [phaseOf_setPhase, phase]
    exact .publishes ..
  | @hands waiter rest ending phase =>
    have hkept := phaseOf_hands s c call waiter rest ending
    exact delivery_of_same hkept (cells_handOver ..) known (by rw [phase]; rfl)

/-- The end of an initializer. -/
theorem delivery_finish (hc : s.calls.get? c = some call) (wanted : call.cell = some k)
    (ending : Ending) (value : Option α) (content : Content α) :
    Delivery content call.phase.cargo (Moment.returns? ⟨s, .finish c ending value⟩ k) content
      ((s.finish c ending value).phaseOf c).cargo := by
  cases hp : call.phase with
  | running =>
    have hends (h : s.finish c ending value = s.setPhase c call (.completing ending)) :
        ((s.finish c ending value).phaseOf c).cargo = .nothing := by
      rw [h, phaseOf_setPhase]
      rfl
    cases ending with
    | returned =>
      cases value with
      | none =>
        rw [hends (by simp only [finish, hc, hp])]
        exact .rests ..
      | some v =>
        have hreturns : Moment.returns? ⟨s, .finish c .returned (some v)⟩ k = some v := by
          simp only [Moment.returns?, hc, hp, wanted, if_true]
        have hnow : s.finish c .returned (some v) = s.setPhase c call (.storing v) := by
          simp only [finish, hc, hp]
        rw [hreturns, hnow, phaseOf_setPhase]
        exact .gains ..
    | unwound | dropped =>
      rw [hends (by simp only [finish, hc, hp])]
      exact .rests ..
  | _ =>
    have hsame : s.finish c ending value = s := by simp only [finish, hc, hp]
    have hnone : Moment.returns? ⟨s, .finish c ending value⟩ k = none := by
      cases ending with
      | returned =>
        cases value with
        | none => rfl
        | some v => simp only [Moment.returns?, hc, hp]
      | unwound | dropped => rfl
    rw [hsame, hnone, phaseOf_of_get? hc, hp]
    exact .rests ..

/-- What becomes of a global and of what a call of it has in hand. -/
theorem delivery_subject (alive : s.violation = none) (possible : s.Possible a)
    (subject : a.subject? = some c) (hc : s.calls.get? c = some call)
    (wanted : call.cell = some k) (known : s.cells.get? k = some cell) :
    ∃ cell', (s.act a).cells.get? k = some cell' ∧
      Delivery cell.content call.phase.cargo (Moment.returns? ⟨s, a⟩ k) cell'.content
        ((s.act a).phaseOf c).cargo := by
  cases a with
  | issue => cases subject
  | advance k' =>
    cases subject
    exact delivery_effect hc wanted known (effect_advance alive hc)
  | finish k' ending value =>
    cases subject
    refine ⟨cell, ?_, delivery_finish hc wanted ending value cell.content⟩
    have hcells : (s.finish c ending value).cells = s.cells := by
      have impact := impact_finish (s := s) c ending value
      generalize s.finish c ending value = s' at impact
      cases impact <;> rfl
    show (s.finish c ending value).cells.get? k = some cell
    rw [hcells]
    exact known
  | abandon k' =>
    cases subject
    have impact := impact_abandon possible
    show ∃ cell', (s.abandon c).cells.get? k = some cell' ∧
      Delivery cell.content call.phase.cargo none cell'.content ((s.abandon c).phaseOf c).cargo
    generalize s.abandon c = s' at impact
    cases impact with
    | idles => exact delivery_of_same (phaseOf_of_get? hc) rfl known rfl
    | ends ending subject hknown running =>
      cases subject
      rw [hc] at hknown
      cases hknown
      exact delivery_of_same (phaseOf_setCall ..) rfl known (by rw [running]; rfl)
    | drops hknown resting =>
      rw [hc] at hknown
      cases hknown
      refine delivery_of_same (phaseOf_setCall ..) rfl known ?_
      cases hp : call.phase with
      | storing | publishing =>
        rw [hp] at resting
        cases resting
      | _ => rfl

theorem cargoOf_of_get? (hc : s.calls.get? c = some call) (wanted : call.cell = some k) :
    s.cargoOf k c = call.phase.cargo := by
  simp only [cargoOf, hc, wanted, if_true]

theorem cargoOf_of_other (other : ∀ call, s.calls.get? c = some call → call.cell ≠ some k) :
    s.cargoOf k c = .nothing := by
  cases hc : s.calls.get? c with
  | none => simp only [cargoOf, hc]
  | some call => simp only [cargoOf, hc, if_neg (other call hc)]

/-- An action leaves what the other calls have in hand. -/
theorem cargoOf_act_of_ne (alive : s.violation = none) (possible : s.Possible a)
    (fresh : s.calls.get? s.nextKey = none) (other : c ≠ a.call s) :
    (s.act a).cargoOf k c = s.cargoOf k c := by
  cases hc : s.calls.get? c with
  | none =>
    refine (cargoOf_of_other fun call' hc' => ?_).trans (cargoOf_of_other fun call hc' => ?_).symm
    · rcases calls_act hc' with ⟨rfl, hkey⟩ | ⟨call, hcall, -⟩
      · exact absurd hkey other
      · rw [hc] at hcall
        cases hcall
    · rw [hc] at hc'
      cases hc'
  | some call =>
    obtain ⟨call', hc', becomes⟩ := call_act (a := a) fresh hc
    have hcell : call'.cell = call.cell := becomes.alike.cell
    have hcargo : call'.phase.cargo = call.phase.cargo := by
      rw [← phaseOf_of_get? hc', ← phaseOf_of_get? hc]
      rcases phaseOf_act_of_ne alive possible other with hsame | ⟨signal, hbefore, hafter⟩
      · rw [hsame]
      · rw [hbefore, hafter]
        rfl
    simp only [cargoOf, hc, hc', hcell, hcargo]

theorem returns?_of_other (other : ∀ call, a.subject? = some c → s.calls.get? c = some call →
    call.cell ≠ some k) (subject : a.subject? = some c) : Moment.returns? ⟨s, a⟩ k = none := by
  cases a with
  | finish k' ending value =>
    cases subject
    cases ending with
    | returned =>
      cases value with
      | none => rfl
      | some v =>
        cases hc : s.calls.get? c with
        | none => simp only [Moment.returns?, hc]
        | some call =>
          have hne := other call rfl hc
          cases hp : call.phase <;> simp only [Moment.returns?, hc, hp, if_neg hne]
    | unwound | dropped => rfl
  | _ => rfl

/-- **An action is a delivery** of the call that it is about, for every global. -/
theorem delivery_act (alive : s.violation = none) (possible : s.Possible a)
    (fresh : s.calls.get? s.nextKey = none) (known : s.cells.get? k = some cell) :
    ∃ cell', (s.act a).cells.get? k = some cell' ∧
      Delivery cell.content (s.cargoOf k (a.call s)) (Moment.returns? ⟨s, a⟩ k) cell'.content
        ((s.act a).cargoOf k (a.call s)) := by
  have hstatic {c : Nat} {call' : Call α} (hc' : (s.act a).calls.get? c = some call') :
      a = .issue call' ∨ ∃ call, s.calls.get? c = some call ∧ call'.cell = call.cell := by
    rcases calls_act hc' with ⟨hissue, -⟩ | ⟨call, hc, becomes⟩
    · exact Or.inl hissue
    · exact Or.inr ⟨call, hc, becomes.alike.cell⟩
  by_cases hmine : ∃ c call, a.subject? = some c ∧ s.calls.get? c = some call ∧ call.cell = some k
  · obtain ⟨c, call, subject, hc, wanted⟩ := hmine
    obtain ⟨cell', hnow, delivery⟩ := delivery_subject alive possible subject hc wanted known
    have hcall : a.call s = c := by
      rw [Action.call, subject]
      rfl
    obtain ⟨call', hc', becomes⟩ := call_act (a := a) fresh hc
    have wanted' : call'.cell = some k := becomes.alike.cell.trans wanted
    refine ⟨cell', hnow, ?_⟩
    rw [hcall, cargoOf_of_get? hc wanted, cargoOf_of_get? hc' wanted', ← phaseOf_of_get? hc']
    exact delivery
  · have hcells : (s.act a).cells.get? k = s.cells.get? k :=
      cells_act alive possible fun c call hsub hc wanted => hmine ⟨c, call, hsub, hc, wanted⟩
    refine ⟨cell, hcells.trans known, ?_⟩
    cases hsub : a.subject? with
    | none =>
      cases a with
      | issue new =>
        have hcall : Action.call s (.issue new) = s.nextKey := rfl
        have hget : (s.act (.issue new)).calls.get? s.nextKey = some new := Store.get?_set_self ..
        have hnew : (s.act (.issue new)).cargoOf k s.nextKey = .nothing := by
          have hphase : new.phase.cargo = .nothing := by
            rcases possible.phase with hp | hp <;> rw [hp] <;> rfl
          simp only [cargoOf, hget, hphase, ite_self]
        have hold : s.cargoOf k s.nextKey = .nothing := by simp only [cargoOf, fresh]
        rw [hcall, hnew, hold]
        exact .rests ..
      | advance | finish | abandon => cases hsub
    | some c =>
      have hcall : a.call s = c := by
        rw [Action.call, hsub]
        rfl
      have hold : s.cargoOf k c = .nothing :=
        cargoOf_of_other fun call hc wanted => hmine ⟨c, call, hsub, hc, wanted⟩
      have hnew : (s.act a).cargoOf k c = .nothing := by
        refine cargoOf_of_other fun call' hc' wanted' => ?_
        rcases hstatic hc' with rfl | ⟨call, hc, hcell⟩
        · cases hsub
        · exact hmine ⟨c, call, hsub, hc, hcell.symm.trans wanted'⟩
      rw [hcall, hold, hnew, returns?_of_other
        (fun call hsub hc wanted => hmine ⟨c, call, hsub, hc, wanted⟩) hsub]
      exact .rests ..

end State

end RunOnce.Protocol
