import RunOnce.Proofs.Protocol.Effect
import RunOnce.Proofs.Protocol.Frame

/-!
# How a call of a global comes along

**Access** (`Access`). Of a call that wants the value of a global it matters only whether it has
looked for the value, has tied the global to its context, runs the initializer, or writes the value.

**Passages** (`Passage`). A step of such a call changes the cell and how far the call is in one of
eight ways (`passage_act`). Steps of other calls change neither (`access_act`, `cells_act`).
-/

namespace RunOnce.LazyCell

variable {α : Type} {cell cell' : LazyCell α} {context : Nat}

theorem bind_eq_some (h : cell.bind context = some cell') : cell'.bound = some context ∧
    cell'.content = cell.content ∧ ∀ other, cell.bound = some other → other = context := by
  unfold bind at h
  split at h
  next hnone =>
    cases h
    exact ⟨rfl, rfl, by simp [hnone]⟩
  next other hother =>
    split at h
    · rename_i hsame
      cases h
      subst hsame
      exact ⟨hother, rfl, by simp [hother]⟩
    · cases h

theorem claim_eq_some (h : cell.claim = some cell') :
    cell.content = .empty ∧ cell'.bound = cell.bound := by
  unfold claim at h
  split at h
  next hempty =>
    cases h
    exact ⟨hempty, rfl⟩
  · cases h
  · cases h

theorem claim_eq_none : cell.claim = none ↔ cell.content ≠ .empty := by
  unfold claim
  cases cell.content <;> simp

end RunOnce.LazyCell

namespace RunOnce.Protocol

variable {α : Type}

/-- How far a call of a global is. -/
inductive Access
  /-- It looks for the value. -/
  | looking
  /-- It found none and ties the global to its context. -/
  | tying
  /-- It goes through the context of the global. -/
  | tied
  /-- Its initializer runs, or has returned a value. -/
  | inside
  /-- It writes the value. -/
  | writing
  | over
deriving DecidableEq

/-- How far a call of a global in a phase is. -/
def Phase.access : Phase α → Access
  | .probing => .looking
  | .binding => .tying
  | .running | .storing _ => .inside
  | .publishing _ => .writing
  | .ended _ => .over
  | .arriving | .contending | .queued _ | .polling => .tied
  | .completing _ | .marking _ | .releasing _ | .resuming _ _ | .concluding => .tied

/-- Whether a call that is so far goes through the context of its global. -/
def Access.isThrough : Access → Bool
  | .tied | .inside | .writing => true
  | .looking | .tying | .over => false

/-- Whether a call that is so far has nothing to do with its global but to look for the value. -/
def Access.isIdle : Access → Bool
  | .looking | .over => true
  | .tying | .tied | .inside | .writing => false

/-- What a step of a call through a target does to its global and to the call. -/
inductive Passage (target : Nat) : LazyCell α → Access → LazyCell α → Access → Prop
  | rests (cell : LazyCell α) (x : Access) : Passage target cell x cell x
  | asks {cell : LazyCell α} (bare : cell.value? = none) : Passage target cell .looking cell .tying
  | ties {cell bound : LazyCell α} (tied : cell.bind target = some bound) :
      Passage target cell .tying bound .tied
  | starts (cell : LazyCell α) : Passage target cell .tied cell .inside
  | reserves {cell claimed : LazyCell α} (free : cell.claim = some claimed) :
      Passage target cell .inside claimed .writing
  | publishes (cell : LazyCell α) (value : α) :
      Passage target cell .writing (cell.publish value) .tied
  /-- The initializer ends without a value that is stored. -/
  | gives (cell : LazyCell α) : Passage target cell .inside cell .tied
  | ends (cell : LazyCell α) (x : Access) : Passage target cell x cell .over

namespace Passage

variable {target : Nat} {cell cell' : LazyCell α} {x x' : Access}

/-- A global stays tied. -/
theorem bound_eq (h : Passage target cell x cell' x') {t : Nat} (tied : cell.bound = some t) :
    cell'.bound = some t := by
  cases h with
  | ties hbind =>
    obtain ⟨hbound, -, hother⟩ := LazyCell.bind_eq_some hbind
    rw [hbound, hother t tied]
  | reserves free => rw [(LazyCell.claim_eq_some free).2, tied]
  | _ => exact tied

/-- A call that goes through a target has its global tied to it. -/
theorem bound_of_isThrough (h : Passage target cell x cell' x')
    (before : x.isThrough = true → cell.bound = some target) (after : x'.isThrough = true) :
    cell'.bound = some target := by
  have hsame (through : x.isThrough = true) := h.bound_eq (before through)
  cases h with
  | rests => exact before after
  | asks => cases after
  | ends => cases after
  | ties hbind => exact (LazyCell.bind_eq_some hbind).1
  | starts | reserves | publishes | gives => exact hsame rfl

/-- A call that finds a value leaves the global as it is. -/
theorem of_isIdle (h : Passage target cell x cell' x') (idle : x.isIdle = true)
    (stored : cell.value? ≠ none) : cell' = cell ∧ x'.isIdle = true := by
  cases h with
  | rests => exact ⟨rfl, idle⟩
  | asks bare => exact absurd bare stored
  | ends => exact ⟨rfl, rfl⟩
  | ties | starts | reserves | publishes | gives => cases idle

/-- Only a call whose initializer has started changes the content. -/
theorem content_eq (h : Passage target cell x cell' x') :
    cell'.content = cell.content ∨ x = .inside ∨ x = .writing := by
  cases h with
  | ties hbind => exact Or.inl (LazyCell.bind_eq_some hbind).2.1
  | reserves => exact Or.inr (Or.inl rfl)
  | publishes => exact Or.inr (Or.inr rfl)
  | _ => exact Or.inl rfl

/-- A call whose initializer runs has started it now or did so before. -/
theorem of_inside (h : Passage target cell x cell' .inside) :
    cell' = cell ∧ (x = .inside ∨ x = .tied) := by
  cases h with
  | rests => exact ⟨rfl, Or.inl rfl⟩
  | starts => exact ⟨rfl, Or.inr rfl⟩

theorem of_writing (h : Passage target cell x cell' .writing) : x = .inside ∨ x = .writing := by
  cases h with
  | rests => exact Or.inr rfl
  | reserves => exact Or.inl rfl

end Passage

namespace State

variable {s s' : State α} {a : Action α} {c k key : Nat} {call : Call α} {cell : LazyCell α}
  {notices : List (Notice α)}

/-! ## Steps of the calls of a global -/

theorem cells_identify (s : State α) (call : Call α) : (s.identify call).2.cells = s.cells := by
  obtain ⟨n, -, hn⟩ := identify_eq s call
  rw [hn]

theorem cells_handOver (s : State α) (k : Nat) : (s.handOver k).1.cells = s.cells := by
  obtain ⟨calls, hcalls⟩ := handOver_eq s k
  rw [hcalls]

/-- A step that moves a call and leaves its global alone. -/
theorem passage_of_phase {target : Nat} {phase phase' : Phase α} (hs : s'.phaseOf c = phase')
    (cells : s'.cells = s.cells) (known : s.cells.get? key = some cell)
    (passage : Passage target cell phase.access cell phase'.access) :
    ∃ cell', s'.cells.get? key = some cell' ∧
      Passage target cell phase.access cell' (s'.phaseOf c).access := by
  refine ⟨cell, by rw [cells]; exact known, ?_⟩
  rw [hs]
  exact passage

theorem passage_of_same {target : Nat} {phase phase' : Phase α} (hs : s'.phaseOf c = phase')
    (cells : s'.cells = s.cells) (known : s.cells.get? key = some cell)
    (same : phase'.access = phase.access) :
    ∃ cell', s'.cells.get? key = some cell' ∧
      Passage target cell phase.access cell' (s'.phaseOf c).access :=
  passage_of_phase hs cells known (by rw [same]; exact .rests ..)

/-- A step of a call of a global is a passage. -/
theorem passage_effect (hc : s.calls.get? c = some call) (wanted : call.cell = some key)
    (known : s.cells.get? key = some cell) (effect : Effect s c call s' notices) :
    ∃ cell', s'.cells.get? key = some cell' ∧
      Passage call.target cell call.phase.access cell' (s'.phaseOf c).access := by
  have hlooked : call.cell.bind s.cells.get? = some cell := by
    rw [wanted]
    exact known
  have hphase := phaseOf_of_get? hc
  have hcells := cells_identify s call
  cases effect with
  | rests | lacks | breaks | misses | fails => exact passage_of_same hphase rfl known rfl
  | skips phase absent =>
    rw [hlooked] at absent
    cases absent
  | returns phase unwanted =>
    rw [wanted] at unwanted
    cases unwanted
  | finds | strays | leaves | concludes =>
    exact passage_of_phase (phaseOf_setCall ..) rfl known (.ends ..)
  | asks phase hfound bare =>
    rw [hlooked] at hfound
    cases hfound
    exact passage_of_phase (phaseOf_setCall ..) rfl known (by rw [phase]; exact .asks bare)
  | @ties key' found bound phase hwanted hfound tied =>
    rw [wanted] at hwanted
    cases hwanted
    rw [known] at hfound
    cases hfound
    refine ⟨bound, Store.get?_set_self .., ?_⟩
    rw [phaseOf_setPhase, phase]
    exact .ties tied
  | sees phase | contends phase | resumes phase | parks phase | goesOn phase | follows phase
    | settles phase | marks phase | releases phase | retires phase =>
    exact passage_of_same (phaseOf_setCall ..) rfl known (by rw [phase]; rfl)
  | late phase | joins phase | loses phase =>
    exact passage_of_same (phaseOf_setCall ..) hcells known (by rw [phase]; rfl)
  | meets phase | recurs phase =>
    exact passage_of_phase (phaseOf_setCall ..) hcells known (.ends ..)
  | wins phase | claims phase =>
    exact passage_of_phase (phaseOf_setCall ..) hcells known (by rw [phase]; exact .starts ..)
  | @reserves value key' found claimed phase hwanted hfound free =>
    rw [wanted] at hwanted
    cases hwanted
    rw [known] at hfound
    cases hfound
    refine ⟨claimed, Store.get?_set_self .., ?_⟩
    rw [phaseOf_setPhase, phase]
    exact .reserves free
  | discards phase =>
    exact passage_of_phase (phaseOf_setCall ..) rfl known (by rw [phase]; exact .gives ..)
  | @publishes value key' phase hwanted =>
    rw [wanted] at hwanted
    cases hwanted
    refine ⟨cell.publish value, (Store.get?_modify ..).trans (by rw [if_pos rfl, known]; rfl), ?_⟩
    rw [phaseOf_setPhase, phase]
    exact .publishes ..
  | @hands waiter rest ending phase =>
    have hkept := phaseOf_hands s c call waiter rest ending
    exact passage_of_same hkept (cells_handOver ..) known (by rw [phase]; rfl)

/-- **What becomes of a call of a global** and of the global in one of its actions. -/
theorem passage_act (alive : s.violation = none) (possible : s.Possible a)
    (subject : a.subject? = some c) (hc : s.calls.get? c = some call)
    (wanted : call.cell = some key) (known : s.cells.get? key = some cell) :
    ∃ cell', (s.act a).cells.get? key = some cell' ∧
      Passage call.target cell call.phase.access cell' ((s.act a).phaseOf c).access := by
  have impact := impact_act alive possible
  generalize s.act a = s' at impact
  have hmine {c' : Nat} {mine : Call α} (hsub : a.subject? = some c')
      (h : s.calls.get? c' = some mine) : c' = c ∧ mine = call := by
    rw [subject] at hsub
    cases hsub
    rw [hc] at h
    cases h
    exact ⟨rfl, rfl⟩
  cases impact with
  | idles => exact passage_of_same (phaseOf_of_get? hc) rfl known rfl
  | issues => cases subject
  | steps hknown effect =>
    obtain ⟨rfl, rfl⟩ := hmine rfl hknown
    exact passage_effect hc wanted known effect
  | yields value hknown running =>
    obtain ⟨rfl, rfl⟩ := hmine rfl hknown
    exact passage_of_same (phaseOf_setCall ..) rfl known (by rw [running]; rfl)
  | ends ending hsub hknown running =>
    obtain ⟨rfl, rfl⟩ := hmine hsub hknown
    exact passage_of_phase (phaseOf_setCall ..) rfl known (by rw [running]; exact .gives ..)
  | drops hknown =>
    obtain ⟨rfl, rfl⟩ := hmine rfl hknown
    exact passage_of_phase (phaseOf_setCall ..) rfl known (.ends ..)

/-! ## Steps of other calls -/

/-- An action moves the call that it is about only. -/
theorem access_act_of_ne (alive : s.violation = none) (possible : s.Possible a)
    (other : k ≠ a.call s) : ((s.act a).phaseOf k).access = (s.phaseOf k).access := by
  rcases phaseOf_act_of_ne alive possible other with hsame | ⟨signal, hbefore, hafter⟩
  · rw [hsame]
  · rw [hbefore, hafter]
    rfl

theorem cells_effect (effect : Effect s c call s' notices) (other : call.cell ≠ some key) :
    s'.cells.get? key = s.cells.get? key := by
  have hne {key' : Nat} (wanted : call.cell = some key') : key' ≠ key := by
    rintro rfl
    exact other wanted
  have hcells := cells_identify s call
  cases effect with
  | ties phase wanted => exact Store.get?_set_of_ne _ (hne wanted) _
  | reserves phase wanted => exact Store.get?_set_of_ne _ (hne wanted) _
  | publishes phase wanted => exact (Store.get?_modify ..).trans (if_neg (hne wanted))
  | hands => rw [cells_handOver]; rfl
  | late | meets | joins | wins | recurs | loses | claims =>
    show (s.identify call).2.cells.get? key = _
    rw [hcells]
  | _ => rfl

/-- An action of a call of another global, or of none, leaves the global alone. -/
theorem cells_act (alive : s.violation = none) (possible : s.Possible a)
    (other : ∀ c call, a.subject? = some c → s.calls.get? c = some call → call.cell ≠ some key) :
    (s.act a).cells.get? key = s.cells.get? key := by
  have impact := impact_act alive possible
  generalize s.act a = s' at impact
  cases impact with
  | steps known effect => exact cells_effect effect (other _ _ rfl known)
  | _ => rfl

/-- What an action does to a global and to its calls. -/
structure Comes (s : State α) (a : Action α) (k : Nat) (cell cell' : LazyCell α) : Prop where
  known : (s.act a).cells.get? k = some cell'
  /-- Only a call of the global changes it. -/
  changed : cell' = cell ∨ ∃ c call, s.calls.get? c = some call ∧ call.cell = some k ∧
    Passage call.target cell call.phase.access cell' ((s.act a).phaseOf c).access
  /-- A call of the global is new, takes a step or stays as far as it is. -/
  calls : ∀ c call', (s.act a).calls.get? c = some call' → call'.cell = some k →
    a = .issue call' ∨ ∃ call, s.calls.get? c = some call ∧ call.cell = some k ∧
      call'.target = call.target ∧ call'.flag = call.flag ∧
      (Passage call.target cell call.phase.access cell' call'.phase.access ∨
        call'.phase.access = call.phase.access)

/-- **An action and the calls of a global.** -/
theorem comes_act (alive : s.violation = none) (possible : s.Possible a)
    (fresh : s.calls.get? s.nextKey = none) (known : s.cells.get? key = some cell) :
    ∃ cell', s.Comes a key cell cell' := by
  have hcalls {c : Nat} {call' : Call α} (hc' : (s.act a).calls.get? c = some call') :
      a = .issue call' ∨ ∃ call, s.calls.get? c = some call ∧ call'.cell = call.cell ∧
        call'.target = call.target ∧ call'.flag = call.flag ∧
        (a.subject? = some c ∨ call'.phase.access = call.phase.access) := by
    rcases calls_act hc' with ⟨hissue, -⟩ | ⟨call, hc, becomes⟩
    · exact Or.inl hissue
    · refine Or.inr ⟨call, hc, becomes.alike.cell, becomes.alike.target, becomes.alike.flag, ?_⟩
      by_cases hother : c = a.call s
      · left
        rw [Action.call] at hother
        cases hsub : a.subject? with
        | none =>
          rw [hsub] at hother
          rw [show c = s.nextKey from hother, fresh] at hc
          cases hc
        | some c' =>
          rw [hsub] at hother
          rw [show c = c' from hother]
      · right
        rw [← phaseOf_of_get? hc', ← phaseOf_of_get? hc]
        exact access_act_of_ne alive possible hother
  by_cases hmine : ∃ c call, a.subject? = some c ∧ s.calls.get? c = some call ∧
      call.cell = some key
  · obtain ⟨c, call, hsub, hc, wanted⟩ := hmine
    obtain ⟨cell', hnow, passage⟩ := passage_act alive possible hsub hc wanted known
    refine ⟨cell', hnow, Or.inr ⟨c, call, hc, wanted, passage⟩, fun c₁ call₁ hc₁ wanted₁ => ?_⟩
    rcases hcalls hc₁ with hissue | ⟨before, hbefore, hcell, htarget, hflag, hsub₁ | hsame⟩
    · exact Or.inl hissue
    · rw [hsub] at hsub₁
      cases hsub₁
      rw [hc] at hbefore
      cases hbefore
      rw [phaseOf_of_get? hc₁] at passage
      exact Or.inr ⟨call, hc, wanted, htarget, hflag, Or.inl passage⟩
    · exact Or.inr ⟨before, hbefore, hcell.symm.trans wanted₁, htarget, hflag, Or.inr hsame⟩
  · have hnow : (s.act a).cells.get? key = s.cells.get? key :=
      cells_act alive possible fun c call hsub hc wanted => hmine ⟨c, call, hsub, hc, wanted⟩
    refine ⟨cell, hnow.trans known, Or.inl rfl, fun c₁ call₁ hc₁ wanted₁ => ?_⟩
    rcases hcalls hc₁ with hissue | ⟨before, hbefore, hcell, htarget, hflag, hsub₁ | hsame⟩
    · exact Or.inl hissue
    · exact absurd ⟨c₁, before, hsub₁, hbefore, hcell.symm.trans wanted₁⟩ hmine
    · exact Or.inr ⟨before, hbefore, hcell.symm.trans wanted₁, htarget, hflag, Or.inr hsame⟩

/-- A value is discarded only by a call that finds its global taken. -/
theorem notices_effect (effect : Effect s c call s' notices)
    (second : (∃ id, .log (.secondValue id) ∈ notices) ∨ ∃ value, .discarded value ∈ notices) :
    call.phase.access = .inside ∧ ∃ key, call.cell = some key ∧
      (s.cells.get? key).bind LazyCell.claim = none := by
  have hhand (next : State α) (waiter : Nat) (n : Notice α) (hn : n ∈ (next.handOver waiter).2) :
      n = .resumed waiter := by
    unfold handOver at hn
    split at hn
    · cases hn
    · split at hn
      · exact List.mem_singleton.mp hn
      · cases hn
  cases effect with
  | discards phase wanted taken => exact ⟨by rw [phase]; rfl, _, wanted, taken⟩
  | hands =>
    rcases second with ⟨_, hn⟩ | ⟨_, hn⟩
    · cases hhand _ _ _ hn
    · cases hhand _ _ _ hn
  | retires =>
    split at second <;> simp at second
  | _ => simp at second

end State

end RunOnce.Protocol
