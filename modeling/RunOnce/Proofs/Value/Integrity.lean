import RunOnce.Proofs.Value.Custody

/-!
# The value of a global

**Theorem (`value_integrity`).** Let a global be accessed through any contexts, by any number of
threads and tasks, with initializers that unwind and futures that are dropped. Its content goes from
empty over writing to stored and no other way; a call returns only with a value, and it reads the
value while it is stored; what can be read once can be read from then on. This value was there from
the beginning, or the one initializer that has started has returned it. No value is discarded before
the global is, and then every value is that was there from the beginning or was returned.

**The idea.** A call whose initializer runs finds the global empty, and it is alone with that
(`Guarded`). So when an initializer returns a value, no other value is anywhere, and from then on
there is one, in one place (`Custody`).
-/

namespace RunOnce.Protocol

open State

variable {α : Type}

/-- What `get` finds in a global. -/
def State.valueOf? (s : State α) (k : Nat) : Option α := (s.cells.get? k).bind LazyCell.value?

/-- The value that is discarded. -/
def Notice.discarded? : Notice α → Option α
  | .discarded value => some value
  | .log _ | .resumed _ => none

/-- The values that a step of a call of a global discards. -/
def Moment.discards (m : Moment α) (k : Nat) : List α :=
  match m.action with
  | .advance c =>
    if (m.state.calls.get? c).any fun call => call.cell = some k then
      (m.state.advance c).2.filterMap Notice.discarded?
    else []
  | _ => []

/-- The values that calls of a global have discarded, in order. -/
def discarded (past : List (Moment α)) (k : Nat) : List α := past.flatMap (·.discards k)

/-- What holds of the value of a global after a run, given what it was in the beginning. -/
structure Integrity (k : Nat) (cell₀ : LazyCell α) (past : List (Moment α)) (s : State α) :
    Prop where
  /-- The content goes from empty over writing to stored. -/
  moves : ∀ m ∈ past, ∃ cell cell', m.state.cells.get? k = some cell ∧
    m.next.cells.get? k = some cell' ∧ ContentMove cell.content cell'.content
  /-- A call reads the value, and returns, only while the value is stored. -/
  reads : ∀ m ∈ past, ∀ c call result, m.state.calls.get? c = some call → call.cell = some k →
    call.phase.isOver = false → m.next.phaseOf c = .ended (.ok result) →
    ∃ value, result = some value ∧ m.state.valueOf? k = some value
  /-- What can be read once can be read from then on. -/
  lasts : ∀ m ∈ past, ∀ value, m.state.valueOf? k = some value → s.valueOf? k = some value
  /-- All calls that have returned have the value. -/
  returned : ∀ c call result, s.calls.get? c = some call → call.cell = some k →
    call.phase = .ended (.ok result) → ∃ value, result = some value ∧ s.valueOf? k = some value
  /-- The value was there from the start, or the one initializer that has started returned it. -/
  origin : ∀ value, s.valueOf? k = some value →
    (cell₀.value? = some value ∧ produced past k = []) ∨
    (cell₀.value? = none ∧ produced past k = [value] ∧
      ∃ w, s.startedBy (forFlag cell₀.flag) past = [w] ∧
        ∃ m ∈ past, m.action = .finish w .returned (some value))
  /-- No value is discarded while the global is there. -/
  kept : discarded past k = []
  /-- When the global is dropped, all values are discarded, once. -/
  dropped : (∀ c call, s.calls.get? c = some call → call.cell = some k →
      call.phase.isOver = true) →
    (s.dropCell k).2 = (cell₀.value?.toList ++ produced past k).map .discarded ∧
      ((s.dropCell k).1.dropCell k).2 = []

namespace State

variable {s s' : State α} {a : Action α} {c k : Nat} {call : Call α} {cell cell₀ : LazyCell α}
  {own : List Nat} {values : List α} {value : α} {notices : List (Notice α)}

/-! ## Values that initializers return -/

theorem of_returns? (h : Moment.returns? ⟨s, a⟩ k = some value) :
    ∃ c call, a = .finish c .returned (some value) ∧ s.calls.get? c = some call ∧
      call.cell = some k ∧ call.phase = .running := by
  unfold Moment.returns? at h
  split at h
  next c v hact =>
    split at h
    next call hc =>
      split at h
      next running =>
        split at h
        next wanted =>
          cases h
          exact ⟨c, call, hact, hc, wanted, running⟩
        · cases h
      · cases h
    · cases h
  · cases h

theorem of_cargoOf (h : s.cargoOf k c ≠ .nothing) :
    ∃ call, s.calls.get? c = some call ∧ call.cell = some k ∧
      call.phase.cargo = s.cargoOf k c := by
  cases hc : s.calls.get? c with
  | none => exact absurd (by simp only [cargoOf, hc]) h
  | some call =>
    by_cases wanted : call.cell = some k
    · exact ⟨call, rfl, wanted, (cargoOf_of_get? hc wanted).symm⟩
    · exact absurd (by simp only [cargoOf, hc, if_neg wanted]) h

/-- When an initializer returns a value, there is no value yet. -/
theorem Guarded.first (g : s.Guarded k cell₀ cell own) (inv : s.board.Inv)
    (custody : Custody cell.content (s.cargoOf k) values)
    (returns : Moment.returns? ⟨s, a⟩ k ≠ none) : values = [] := by
  obtain ⟨value, hvalue⟩ := Option.ne_none_iff_exists'.mp returns
  obtain ⟨c, call, -, hc, wanted, running⟩ := of_returns? hvalue
  have hinside : call.phase.access = .inside := by
    rw [running]
    rfl
  have empty := g.clear c call hc wanted hinside
  cases custody with
  | nowhere => rfl
  | @ready k' v _ mine =>
    obtain ⟨call', hc', wanted', hcargo⟩ := of_cargoOf (by rw [mine]; nofun)
    rw [mine] at hcargo
    have hstoring : call'.phase.access = .inside := by
      cases hp : call'.phase with
      | storing => rfl
      | _ =>
        rw [hp] at hcargo
        cases hcargo
    obtain rfl := g.alone inv hc wanted ((isInside_stage call).mpr (Or.inl hinside)) hc' wanted'
      ((isInside_stage call').mpr (Or.inl hstoring))
    rw [hc] at hc'
    cases hc'
    rw [running] at hcargo
    cases hcargo
  | writing writing =>
    rw [empty] at writing
    cases writing
  | stored stored =>
    rw [empty] at stored
    cases stored

/-! ## Reading -/

theorem valueOf?_eq_some (known : s.cells.get? k = some cell) :
    s.valueOf? k = some value ↔ cell.content = .stored value := by
  rw [valueOf?, known, Option.bind_some, LazyCell.value?]
  cases cell.content <;> simp

theorem read_effect (effect : Effect s c call s' notices) (hc : s.calls.get? c = some call)
    (wanted : call.cell = some k) (under : call.phase.isOver = false) {result : Option α}
    (after : s'.phaseOf c = .ended (.ok result)) :
    ∃ value, result = some value ∧ s.valueOf? k = some value := by
  have hset {next : State α} {mine : Call α}
      (h : (next.setCall c mine).phaseOf c = .ended (.ok result)) :
      mine.phase = .ended (.ok result) := by
    rwa [phaseOf_setCall] at h
  cases effect with
  | @finds cell value phase known stored =>
    cases hset after
    refine ⟨value, rfl, ?_⟩
    rw [wanted] at known
    rw [valueOf?, show s.cells.get? k = some cell from known, Option.bind_some, stored]
  | concludes =>
    have hresult : s.result call = .ok result := Phase.ended.inj (hset after)
    rw [State.result, wanted] at hresult
    cases hvalue : (s.cells.get? k).bind LazyCell.value? with
    | none =>
      simp only [hvalue] at hresult
      cases hresult
    | some value =>
      simp only [hvalue] at hresult
      cases hresult
      exact ⟨value, rfl, hvalue⟩
  | rests | lacks | breaks | misses | fails =>
    have hsame : s.phaseOf c = .ended (.ok result) := after
    rw [phaseOf_of_get? hc] at hsame
    rw [hsame] at under
    cases under
  | @hands waiter rest ending =>
    rw [phaseOf_hands] at after
    cases after
  | leaves phase cause =>
    rcases cause with ⟨-, rfl⟩ | ⟨-, rfl⟩ <;> cases hset after
  | _ => cases hset after

/-- **A call that returns reads a value that is stored.** -/
theorem read_act (alive : s.violation = none) (possible : s.Possible a)
    (fresh : s.calls.get? s.nextKey = none) (hc : s.calls.get? c = some call)
    (wanted : call.cell = some k) (under : call.phase.isOver = false) {result : Option α}
    (after : (s.act a).phaseOf c = .ended (.ok result)) :
    ∃ value, result = some value ∧ s.valueOf? k = some value := by
  have hphase := phaseOf_of_get? hc
  by_cases mine : c = a.call s
  · have impact := impact_act alive possible
    generalize s.act a = s' at impact after
    have hset {next : State α} {k : Nat} {mine : Call α} (hk : c = k)
        (h : (next.setCall k mine).phaseOf c = .ended (.ok result)) :
        mine.phase = .ended (.ok result) := by
      rwa [hk, phaseOf_setCall] at h
    cases impact with
    | idles =>
      rw [hphase] at after
      rw [after] at under
      cases under
    | issues =>
      rw [show c = s.nextKey from mine, fresh] at hc
      cases hc
    | steps known effect =>
      obtain rfl : c = _ := mine
      rw [hc] at known
      cases known
      exact read_effect effect hc wanted under after
    | yields => cases hset mine after
    | ends ending subject =>
      rw [Action.call, subject] at mine
      cases hset mine after
    | drops => cases hset mine after
  · rcases phaseOf_act_of_ne alive possible mine with hsame | ⟨signal, -, hqueued⟩
    · rw [hsame, hphase] at after
      rw [after] at under
      cases under
    · rw [after] at hqueued
      cases hqueued

/-- A value that is stored stays so. -/
theorem valueOf?_of_move {cell' : LazyCell α} (known : s.cells.get? k = some cell)
    (now : s'.cells.get? k = some cell') (move : ContentMove cell.content cell'.content)
    (stored : s.valueOf? k = some value) : s'.valueOf? k = some value := by
  rw [valueOf?_eq_some known] at stored
  rw [valueOf?_eq_some now]
  rw [stored] at move
  generalize cell'.content = content at move
  cases move
  rfl

/-- A call of a global whose initializer runs finds it empty, so it discards nothing. -/
theorem Guarded.discards_eq_nil (g : s.Guarded k cell₀ cell own) (alive : s.violation = none) :
    Moment.discards ⟨s, a⟩ k = [] := by
  cases a with
  | advance c =>
    show (if (s.calls.get? c).any (fun call => call.cell = some k) then
      (s.advance c).2.filterMap Notice.discarded? else []) = []
    cases hc : s.calls.get? c with
    | none => rfl
    | some call =>
      by_cases wanted : call.cell = some k
      · rw [if_pos (by simp [wanted]), List.filterMap_eq_nil_iff]
        intro notice hmem
        cases notice with
        | log | resumed => rfl
        | discarded value =>
          obtain ⟨inside, key, hkey, taken⟩ :=
            notices_effect (effect_advance alive hc) (Or.inr ⟨value, hmem⟩)
          rw [wanted] at hkey
          cases hkey
          rw [g.known, Option.bind_some, LazyCell.claim_eq_none] at taken
          exact absurd (g.clear c call hc wanted inside) taken
      · exact if_neg (by simp [wanted])
  | _ => rfl

end State

/-! ## Runs -/

section

variable {k : Nat} {cell₀ : LazyCell α} {s₀ s : State α} {past : List (Moment α)}
  {rule : State α → Action α → Prop}

/-- A call whose initializer runs has started it. -/
theorem Run.started_of_isInside (run : Run rule s₀ past s) (fresh : s₀.IsFresh) {c : Nat}
    (inside : s.isInside c = true) : c ∈ started past := by
  induction run with
  | start =>
    rw [isInside, phaseOf, fresh.calls c] at inside
    cases inside
  | @step past s a run alive possible _ ih =>
    rw [started_concat, List.mem_append, Option.mem_toList]
    cases before : s.isInside c with
    | true => exact Or.inl (ih before)
    | false =>
      right
      refine Option.mem_filter_iff.mpr ⟨?_, ?_⟩
      · by_contra other
        have hne : c ≠ a.call s := by
          rintro rfl
          cases hsub : a.subject? with
          | none =>
            cases a with
            | issue new =>
              have hnow : (s.act (.issue new)).isInside s.nextKey = false :=
                isInside_issue new possible
              rw [show Action.call s (.issue new) = s.nextKey from rfl, hnow] at inside
              cases inside
            | advance | finish | abandon => cases hsub
          | some k => exact other (by rw [Action.call, hsub]; rfl)
        rcases phaseOf_act_of_ne alive possible hne with hsame | ⟨signal, -, hqueued⟩
        · rw [isInside, hsame, ← isInside, before] at inside
          cases inside
        · rw [isInside, hqueued] at inside
          cases inside
      · show (!s.isInside c && (s.act a).isInside c) = true
        rw [before, inside]
        rfl

/-- **The values of a global are in one place** after every run. -/
theorem Run.custody (run : Run (AccessedAs k cell₀.flag) s₀ past s) (fresh : s₀.IsFresh)
    (known : s₀.cells.get? k = some cell₀) (settled : cell₀.content ≠ .writing) :
    ∃ cell, s.Guarded k cell₀ cell (s.startedBy (forFlag cell₀.flag) past) ∧
      Custody cell.content (s.cargoOf k) (cell₀.value?.toList ++ produced past k) := by
  induction run with
  | start =>
    have hidle (c : Nat) : s₀.cargoOf k c = .nothing := by simp only [cargoOf, fresh.calls c]
    refine ⟨cell₀, guarded_fresh fresh known settled, ?_⟩
    rw [LazyCell.value?]
    cases hcontent : cell₀.content with
    | empty => exact .nowhere rfl hidle
    | writing => exact absurd hcontent settled
    | stored value => exact .stored rfl hidle
  | @step past s a run alive possible admitted ih =>
    obtain ⟨cell, g, custody⟩ := ih
    have inv := run.board_inv fresh
    obtain ⟨cell', now, delivery⟩ :=
      delivery_act alive possible (absent_nextKey inv) g.known
    obtain ⟨after, g'⟩ := (run.step alive possible admitted).guarded fresh known settled
    obtain rfl : cell' = after := Option.some.inj (now.symm.trans g'.known)
    refine ⟨cell', g', ?_⟩
    rw [produced_concat, ← List.append_assoc]
    exact custody.deliver delivery
      (fun c hc => cargoOf_act_of_ne alive possible (absent_nextKey inv) hc)
      (g.first inv custody)

/-- What one more action does to the content of a global. -/
theorem Run.content_move {a : Action α} (run : Run (AccessedAs k cell₀.flag) s₀ past s)
    (fresh : s₀.IsFresh) (known : s₀.cells.get? k = some cell₀)
    (settled : cell₀.content ≠ .writing) (alive : s.violation = none) (possible : s.Possible a) :
    ∃ cell cell', s.cells.get? k = some cell ∧ (s.act a).cells.get? k = some cell' ∧
      ContentMove cell.content cell'.content := by
  obtain ⟨cell, g, custody⟩ := run.custody fresh known settled
  obtain ⟨cell', now, delivery⟩ :=
    delivery_act alive possible (absent_nextKey (run.board_inv fresh)) g.known
  exact ⟨cell, cell', g.known, now, custody.moves delivery⟩

theorem Run.valueOf?_act {a : Action α} (run : Run (AccessedAs k cell₀.flag) s₀ past s)
    (fresh : s₀.IsFresh) (known : s₀.cells.get? k = some cell₀)
    (settled : cell₀.content ≠ .writing) (alive : s.violation = none) (possible : s.Possible a)
    {value : α} (stored : s.valueOf? k = some value) : (s.act a).valueOf? k = some value := by
  obtain ⟨cell, cell', here, now, move⟩ := run.content_move fresh known settled alive possible
  exact valueOf?_of_move here now move stored

/-- What can be read once can be read from then on. -/
theorem Run.valueOf?_lasts (run : Run (AccessedAs k cell₀.flag) s₀ past s) (fresh : s₀.IsFresh)
    (known : s₀.cells.get? k = some cell₀) (settled : cell₀.content ≠ .writing) :
    ∀ m ∈ past, ∀ value, m.state.valueOf? k = some value → s.valueOf? k = some value := by
  induction run with
  | start =>
    intro m hm
    cases hm
  | step run alive possible _ ih =>
    intro m hm value stored
    refine run.valueOf?_act fresh known settled alive possible ?_
    rcases List.mem_append.mp hm with hm | hm
    · exact ih m hm value stored
    · obtain rfl := List.mem_singleton.mp hm
      exact stored

/-- A call that has returned has a value, which is stored. -/
theorem Run.value_of_returned (run : Run (AccessedAs k cell₀.flag) s₀ past s)
    (fresh : s₀.IsFresh) (known : s₀.cells.get? k = some cell₀)
    (settled : cell₀.content ≠ .writing) {c : Nat} {call : Call α} {result : Option α}
    (hc : s.calls.get? c = some call) (wanted : call.cell = some k)
    (hp : call.phase = .ended (.ok result)) :
    ∃ value, result = some value ∧ s.valueOf? k = some value := by
  induction run generalizing call with
  | start =>
    rw [fresh.calls c] at hc
    cases hc
  | @step past s a run alive possible _ ih =>
    have hkey := run.fresh_keys fresh (Nat.le_refl _)
    have hlasts {value : α} (stored : s.valueOf? k = some value) :=
      run.valueOf?_act fresh known settled alive possible stored
    rcases calls_act hc with ⟨rfl, -⟩ | ⟨before, hbefore, becomes⟩
    · rcases possible.phase with hnew | hnew <;> rw [hnew] at hp <;> cases hp
    · have wanted' : before.cell = some k := becomes.alike.cell.symm.trans wanted
      have hnow : (s.act a).phaseOf c = .ended (.ok result) := (phaseOf_of_get? hc).trans hp
      cases isOver : before.phase.isOver with
      | true =>
        rw [phaseOf_act_of_over alive possible hbefore isOver hkey, phaseOf_of_get? hbefore] at hnow
        obtain ⟨value, hresult, stored⟩ := ih hbefore wanted' hnow
        exact ⟨value, hresult, hlasts stored⟩
      | false =>
        obtain ⟨value, hresult, stored⟩ :=
          read_act alive possible hkey hbefore wanted' isOver hnow
        exact ⟨value, hresult, hlasts stored⟩

/-- Every value that was produced was returned by an initializer of the global that has started. -/
theorem Run.producer (run : Run rule s₀ past s) (fresh : s₀.IsFresh) {value : α}
    (returned : value ∈ produced past k) :
    ∃ w call, w ∈ started past ∧ s.calls.get? w = some call ∧ call.cell = some k ∧
      ∃ m ∈ past, m.action = .finish w .returned (some value) := by
  induction run with
  | start => cases returned
  | @step past s a run alive possible _ ih =>
    have hlasts {w : Nat} {call : Call α} (hstarted : w ∈ started past)
        (hcall : s.calls.get? w = some call) (wanted : call.cell = some k) :
        ∃ call', w ∈ started (past ++ [⟨s, a⟩]) ∧ (s.act a).calls.get? w = some call' ∧
          call'.cell = some k := by
      obtain ⟨call', hcall', becomes⟩ :=
        call_act (a := a) (run.fresh_keys fresh (Nat.le_refl _)) hcall
      rw [started_concat]
      exact ⟨call', List.mem_append_left _ hstarted, hcall',
        becomes.alike.cell.trans wanted⟩
    rw [produced_concat, List.mem_append, Option.mem_toList] at returned
    rcases returned with hold | hnew
    · obtain ⟨w, call, hstarted, hcall, wanted, m, hm, haction⟩ := ih hold
      obtain ⟨call', hstarted', hcall', wanted'⟩ := hlasts hstarted hcall wanted
      exact ⟨w, call', hstarted', hcall', wanted', m, List.mem_append_left _ hm, haction⟩
    · obtain ⟨w, call, haction, hcall, wanted, running⟩ := of_returns? hnew
      have hstarted := run.started_of_isInside fresh (c := w)
        (by rw [isInside, phaseOf_of_get? hcall, running]; rfl)
      obtain ⟨call', hstarted', hcall', wanted'⟩ := hlasts hstarted hcall wanted
      exact ⟨w, call', hstarted', hcall', wanted', _, List.mem_concat_self, haction⟩

/-- Who has returned the value of a global: the one initializer that has started. -/
theorem State.Guarded.producer {cell : LazyCell α}
    (g : s.Guarded k cell₀ cell (s.startedBy (forFlag cell₀.flag) past))
    (run : Run rule s₀ past s) (fresh : s₀.IsFresh) {value : α}
    (returned : value ∈ produced past k) :
    ∃ w, s.startedBy (forFlag cell₀.flag) past = [w] ∧
      ∃ m ∈ past, m.action = .finish w .returned (some value) := by
  obtain ⟨w, call, hstarted, hcall, wanted, hm⟩ := run.producer fresh returned
  have hown : w ∈ s.startedBy (forFlag cell₀.flag) past := by
    refine List.mem_filter.mpr ⟨hstarted, ?_⟩
    rw [picks_of_card (card?_board hcall)]
    exact decide_eq_true ((g.owns w call hcall).mp wanted)
  obtain ⟨w', hw'⟩ := List.length_eq_one_iff.mp
    (Nat.le_antisymm g.one (List.length_pos_of_mem hown))
  rw [hw'] at hown ⊢
  obtain rfl := List.mem_singleton.mp hown
  exact ⟨w, rfl, hm⟩

/-- When all calls of a global are over, its values are all in the global, and are discarded with
it. -/
theorem Custody.dropped {cell : LazyCell α} {values : List α}
    (custody : Custody cell.content (s.cargoOf k) values) (known : s.cells.get? k = some cell)
    (allOver : ∀ c call, s.calls.get? c = some call → call.cell = some k →
      call.phase.isOver = true) :
    (s.dropCell k).2 = values.map .discarded ∧ ((s.dropCell k).1.dropCell k).2 = [] := by
  have hidle (c : Nat) : s.cargoOf k c = .nothing := by
    by_contra hcargo
    obtain ⟨call, hc, wanted, hsame⟩ := of_cargoOf hcargo
    have hover := allOver c call hc wanted
    rw [← hsame] at hcargo
    cases hp : call.phase with
    | ended =>
      rw [hp] at hcargo
      exact hcargo rfl
    | _ =>
      rw [hp] at hover
      cases hover
  have hdrop : s.dropCell k = ({ s with
      cells := s.cells.erase k, flags := s.flags.erase cell.flag },
        cell.value?.toList.map .discarded) := by
    simp only [dropCell, known]
  have hgone : ((s.dropCell k).1.dropCell k).2 = [] := by
    rw [hdrop]
    simp only [dropCell, Store.get?_erase_self]
  refine ⟨?_, hgone⟩
  rw [hdrop, LazyCell.value?]
  cases custody with
  | nowhere empty =>
    rw [empty]
    rfl
  | stored stored =>
    rw [stored]
    rfl
  | @ready c _ _ mine | @writing c _ _ mine =>
    rw [hidle c] at mine
    cases mine

/-- **The value of a global keeps its integrity**, however the steps of threads and tasks that
access it are interleaved. -/
theorem value_integrity (run : Run (AccessedAs k cell₀.flag) s₀ past s) (fresh : s₀.IsFresh)
    (known : s₀.cells.get? k = some cell₀) (settled : cell₀.content ≠ .writing) :
    Integrity k cell₀ past s := by
  obtain ⟨cell, g, custody⟩ := run.custody fresh known settled
  refine { moves := ?_, reads := ?_, lasts := run.valueOf?_lasts fresh known settled
           returned := fun c call result => run.value_of_returned fresh known settled
           origin := ?_, kept := ?_, dropped := ?_ }
  · intro m hm
    obtain ⟨before, run', alive, possible, -⟩ := run.before_moment hm
    exact run'.content_move fresh known settled alive possible
  · intro m hm c call result hc wanted under after
    obtain ⟨before, run', alive, possible, -⟩ := run.before_moment hm
    exact read_act alive possible (run'.fresh_keys fresh (Nat.le_refl _)) hc wanted under after
  · intro value stored
    rw [valueOf?_eq_some g.known] at stored
    rw [stored] at custody
    generalize hvalues : cell₀.value?.toList ++ produced past k = values at custody
    cases custody with
    | nowhere empty => cases empty
    | ready empty => cases empty
    | writing writing => cases writing
    | stored same =>
      cases same
      cases hstart : cell₀.value? with
      | some value₀ =>
        left
        rw [hstart] at hvalues
        obtain ⟨rfl, hnone⟩ := List.cons.inj hvalues
        exact ⟨rfl, hnone⟩
      | none =>
        right
        rw [hstart] at hvalues
        have hone : produced past k = [value] := hvalues
        exact ⟨rfl, hone, g.producer run fresh (by rw [hone]; simp)⟩
  · refine List.flatMap_eq_nil_iff.mpr fun m hm => ?_
    obtain ⟨before, run', alive, -, -⟩ := run.before_moment hm
    obtain ⟨cell, g, -⟩ := run'.custody fresh known settled
    exact g.discards_eq_nil alive
  · intro allOver
    exact custody.dropped g.known allOver

end

/-- The thread that has returned a value for the global stores it and reads it. -/
def storeActions : List (Action Nat) := List.replicate 5 (.advance 4)

/-- The state after both calls of the global are over. -/
def storedState : State Nat := (globalStart.acts globalActions).acts storeActions

/-- All moments of both calls. -/
def storedPast : List (Moment Nat) :=
  globalStart.moments globalActions ++ (globalStart.acts globalActions).moments storeActions

theorem store_allowed :
    (globalStart.acts globalActions).Allows (AccessedAs 3 untied.flag) storeActions :=
  ⟨rfl, rfl, trivial, rfl, rfl, trivial, rfl, rfl, trivial, rfl, rfl, trivial,
    rfl, rfl, trivial, trivial⟩

/-- The thread reads the value that its initializer returned, and the value is discarded with the
global. -/
theorem value_integrity_two :
    storedState.phaseOf 4 = .ended (.ok (some 7)) ∧ storedState.valueOf? 3 = some 7 ∧
    produced storedPast 3 = [7] ∧ discarded storedPast 3 = [] ∧
    (storedState.dropCell 3).2.filterMap Notice.discarded? = [7] := by
  have integrity : Integrity 3 untied storedPast storedState :=
    value_integrity ((Run.of_allows global_allowed).append store_allowed) global_isFresh rfl nofun
  have hreads : ∃ value, some 7 = some value ∧ storedState.valueOf? 3 = some value :=
    integrity.returned 4 _ (some 7) rfl rfl rfl
  obtain ⟨value, hvalue, stored⟩ := hreads
  cases hvalue
  have hproduced : produced storedPast 3 = [7] := by
    rcases integrity.origin 7 stored with ⟨hstart, -⟩ | ⟨-, hone, -⟩
    · cases hstart
    · exact hone
  have hover : ∀ c call, storedState.calls.get? c = some call → call.cell = some 3 →
      call.phase.isOver = true := by
    intro c call hc _
    have hmem := storedState.calls.mem_entries_of_get? hc
    have hall : ∀ entry ∈ storedState.calls.entries, entry.2.phase.isOver = true := by decide
    exact hall _ hmem
  refine ⟨rfl, stored, hproduced, integrity.kept, ?_⟩
  rw [(integrity.dropped hover).1, hproduced]
  rfl

end RunOnce.Protocol
