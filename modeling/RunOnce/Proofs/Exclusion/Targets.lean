import RunOnce.Proofs.Exclusion.Shared
import RunOnce.Proofs.Protocol.Effect
import RunOnce.Proofs.Region.Join

/-!
# Targets come and go

**Mappings** (`State.mapping?`). A slot table keeps its mapping for as long as it lives: calls
change the claims on it and the words of its object, and nothing else that concerns a table
(`State.Houses`, `houses_act`).

**The board** (`Board.Inv.retarget`). A target without anything in flight can be exchanged for
another one, or taken away, and the invariant of the board still holds.
-/

namespace RunOnce

/-- The mapping of a slot table. -/
def Executor.mapping? : Executor → Option Region.Mapping
  | .registry _ => none
  | .table t => some t.mapping

theorem Executor.mapping?_unlock (executor : Executor) :
    executor.unlock.mapping? = executor.mapping? := by
  cases executor with
  | registry r => rfl
  | table t => exact congrArg some t.mapping_unlock

end RunOnce

namespace RunOnce.Protocol

open Function Region

variable {α : Type}

/-! ## The board without a target, or with a new one -/

namespace Board

variable {b b' : Board} {t : Nat}

/-- Another target under a key that nobody has anything in flight through. -/
theorem Inv.retarget (h : b.Inv) (idle : ∀ c id who, b.claim? c ≠ some (t, id, who))
    (unsettled : ∀ c card, b.card? c = some card → card.target = t → card.stage ≠ .settled)
    (next : b.next ≤ b'.next) (card : b'.card? = b.card?) (flag : b'.flag? = b.flag?)
    (held : b'.held = update b.held t []) (table : ∀ k, k ≠ t → b'.table? k = b.table? k)
    (slot : ∀ k o n, k ≠ t → b.table? k = some (o, n) → b'.slot? o = b.slot? o)
    (mapped : ∀ o n, b'.table? t = some (o, n) → ∀ id, ∃ v, b'.slot? o id = some v) : b'.Inv := by
  have hclaim : b'.claim? = b.claim? := by
    have hclaimOf : b'.claimOf = b.claimOf := by
      funext card
      simp only [claimOf, flag]
    funext c
    simp only [claim?, card, hclaimOf]
  have hother {c k : Nat} {id : FlagId} {who : Initiator} (hc : b.claim? c = some (k, id, who)) :
      k ≠ t := by
    rintro rfl
    exact idle c id who hc
  have hsite {k : Nat} (hk : k ≠ t) : b'.site k = b.site k := by
    simp only [site, table k hk]
  constructor
  · constructor
    · intro c hc
      rw [card]
      exact h.fresh c (Nat.le_trans next hc)
    · rw [card, flag]
      exact h.known
    · intro k o n hk id
      by_cases hkt : k = t
      · subst hkt
        exact mapped o n hk id
      · rw [table k hkt] at hk
        rw [slot k o n hkt hk]
        exact h.mapped k o n hk id
    · intro k
      rw [held]
      by_cases hkt : k = t
      · subst hkt
        simp
      · rw [update_of_ne hkt]
        exact h.distinct k
    · intro k id who
      rw [held, hclaim]
      by_cases hkt : k = t
      · subst hkt
        rw [update_self]
        refine iff_of_false List.not_mem_nil ?_
        rintro ⟨c, hc⟩
        exact idle c id who hc
      · rw [update_of_ne hkt]
        exact h.mem_held k id who
    · intro c c' k k' id w w' hc hc' hs
      rw [hclaim] at hc hc'
      rw [hsite (hother hc), hsite (hother hc')] at hs
      exact h.unique c c' k k' id w w' hc hc' hs
  · intro c k id w o n hc hk
    rw [hclaim] at hc
    rw [table k (hother hc)] at hk
    rw [slot k o n (hother hc) hk]
    exact h.running c k id w o n hc hk
  · intro c mine f hc hsettled hf
    rw [card] at hc
    rw [flag] at hf
    obtain ⟨o, n, htable, within, hdone⟩ := h.settled c mine f hc hsettled hf
    have hne : mine.target ≠ t := fun he => unsettled c mine hc he hsettled
    exact ⟨o, n, by rw [table _ hne, htable], within, by rw [slot _ o n hne htable, hdone]⟩

end Board

/-! ## What calls leave alone -/

namespace State

variable {s s' s'' : State α} {a : Action α} {c t : Nat} {call : Call α}

/-- The mapping of a target that is a slot table. -/
def mapping? (s : State α) (t : Nat) : Option Mapping :=
  (s.targets.get? t).bind fun target => target.executor.mapping?

theorem objectOf?_eq_mapping? (s : State α) (t : Nat) :
    s.objectOf? t = (s.mapping? t).map (·.object) := by
  show (s.targets.get? t).bind _ = ((s.targets.get? t).bind _).map _
  cases s.targets.get? t with
  | none => rfl
  | some target =>
    obtain ⟨executor, capabilities⟩ := target
    cases executor <;> rfl

/-- Between two states no table has come or gone, and of the image only words of objects have
changed, but no sizes. -/
structure Houses (s s' : State α) : Prop where
  mapping : ∀ t, s'.mapping? t = s.mapping? t
  known : ∀ t target, s'.targets.get? t = some target → ∃ target', s.targets.get? t = some target'
  next : s.nextKey ≤ s'.nextKey
  image : ∃ objects : Store Nat Object,
    s'.image = { s.image with directory := { s.image.directory with objects } } ∧
      ∀ o, (objects.get? o).map (·.size) = (s.image.directory.objects.get? o).map (·.size)

theorem Houses.trans (h : s.Houses s') (h' : s'.Houses s'') : s.Houses s'' where
  mapping t := (h'.mapping t).trans (h.mapping t)
  known t target ht := by
    obtain ⟨target', ht'⟩ := h'.known t target ht
    exact h.known t target' ht'
  next := Nat.le_trans h.next h'.next
  image := by
    obtain ⟨objects, himage, hsizes⟩ := h.image
    obtain ⟨objects', himage', hsizes'⟩ := h'.image
    refine ⟨objects', by rw [himage', himage], fun o => ?_⟩
    rw [hsizes' o, himage]
    exact hsizes o

/-- Neither targets nor the image change. -/
theorem houses_of_eq (targets : s'.targets = s.targets) (image : s'.image = s.image)
    (next : s.nextKey ≤ s'.nextKey) : s.Houses s' where
  mapping t := by rw [mapping?, mapping?, targets]
  known t target ht := ⟨target, by rw [← targets, ht]⟩
  next := next
  image := ⟨s.image.directory.objects, image, fun _ => rfl⟩

/-- An executor may change while its mapping stays. -/
theorem houses_setExecutor {executor executor' : Executor}
    (through : s.executorOf call = some executor)
    (same : executor'.mapping? = executor.mapping?) :
    s.Houses (s.setExecutor call.target executor') where
  mapping t := by
    show ((s.targets.modify call.target _).get? t).bind _ = (s.targets.get? t).bind _
    rw [Store.get?_modify]
    split
    next ht =>
      subst ht
      obtain ⟨target, hget, rfl⟩ := target_of_executorOf through
      rw [hget]
      exact same
    next => rfl
  known t target ht := by
    have hmodify : (s.targets.modify call.target ({ · with executor := executor' })).get? t =
        some target := ht
    rw [Store.get?_modify] at hmodify
    split at hmodify
    · obtain ⟨old, hold, -⟩ := Option.map_eq_some_iff.mp hmodify
      exact ⟨old, hold⟩
    · exact ⟨target, hmodify⟩
  next := Nat.le_refl _
  image := ⟨s.image.directory.objects, rfl, fun _ => rfl⟩

/-- The end of a drop leaves the mapping of its table. -/
theorem houses_unlock (s : State α) (t : Nat) : s.Houses (s.unlock t) where
  mapping k := by
    show ((s.targets.modify t _).get? k).bind _ = (s.targets.get? k).bind _
    rw [Store.get?_modify]
    split
    · rw [Option.bind_map]
      congr 1
      funext target
      exact target.executor.mapping?_unlock
    · rfl
  known k target hk := by
    have hmodify : (s.targets.modify t fun target =>
        { target with executor := target.executor.unlock }).get? k = some target := hk
    rw [Store.get?_modify] at hmodify
    split at hmodify
    · obtain ⟨old, hold, -⟩ := Option.map_eq_some_iff.mp hmodify
      exact ⟨old, hold⟩
    · exact ⟨target, hmodify⟩
  next := Nat.le_refl _
  image := ⟨s.image.directory.objects, rfl, fun _ => rfl⟩

theorem houses_markSlot (s : State α) (table : SlotTable) (id : FlagId) (v : UInt32) :
    s.Houses (s.markSlot table id v) where
  mapping _ := rfl
  known _ target ht := ⟨target, ht⟩
  next := Nat.le_refl _
  image := by
    unfold markSlot SlotTable.mark
    split
    next word _ =>
      refine ⟨_, rfl, fun o => ?_⟩
      rw [Store.get?_modify]
      split
      · exact Option.map_map ..
      · rfl
    next => exact ⟨s.image.directory.objects, rfl, fun _ => rfl⟩

theorem houses_afterLock {executor executor' : Executor} (phase : Phase α)
    (through : s.executorOf call = some executor)
    (same : executor'.mapping? = executor.mapping?) :
    s.Houses (s.afterLock c call executor' phase) := by
  obtain ⟨n, -, hn⟩ := identify_eq s call
  rw [afterLock, hn]
  exact (houses_setExecutor through same).trans (houses_of_eq rfl rfl (Nat.le_refl _))

/-- A step of a call leaves the tables where they are. -/
theorem houses_effect {notices : List (Notice α)} (effect : Effect s c call s' notices) :
    s.Houses s' := by
  cases effect with
  | late phase through => exact houses_afterLock _ through rfl
  | meets phase through => exact houses_afterLock _ through rfl
  | joins phase through => exact houses_afterLock _ through rfl
  | wins phase through => exact houses_afterLock _ through rfl
  | recurs phase through => exact houses_afterLock _ through rfl
  | loses phase through => exact houses_afterLock _ through rfl
  | @claims t phase through =>
    have hlock : s.Houses (s.afterLock c call (.table { t with
        claims := t.claims ++ [((s.flagOf call).id, (s.identify call).1)] }) .running) :=
      houses_afterLock .running through rfl
    exact hlock.trans (houses_markSlot ..)
  | @retires ending r r' waiters phase through =>
    have hset : s.Houses (s.setExecutor call.target (.registry r')) :=
      houses_setExecutor through rfl
    exact hset.trans (houses_of_eq rfl rfl (Nat.le_refl _))
  | @settles ending t phase through =>
    have hset : s.Houses (s.setExecutor call.target (.table (t.lock (s.flagOf call).id))) :=
      houses_setExecutor through rfl
    refine hset.trans ((houses_markSlot _ t (s.flagOf call).id slotDone).trans ?_)
    exact houses_of_eq rfl rfl (Nat.le_refl _)
  | releases =>
    exact (houses_unlock s call.target).trans (houses_of_eq rfl rfl (Nat.le_refl _))
  | hands =>
    obtain ⟨calls, hcalls⟩ := handOver_eq ..
    rw [hcalls]
    exact houses_of_eq rfl rfl (Nat.le_refl _)
  | _ => exact houses_of_eq rfl rfl (Nat.le_refl _)

/-- **Calls leave tables where they are.** -/
theorem houses_act (alive : s.violation = none) (possible : s.Possible a) :
    s.Houses (s.act a) := by
  have impact := impact_act alive possible
  generalize s.act a = s' at impact ⊢
  cases impact with
  | issues => exact houses_of_eq rfl rfl (Nat.le_succ _)
  | steps known effect => exact houses_effect effect
  | _ => exact houses_of_eq rfl rfl (Nat.le_refl _)

end State

end RunOnce.Protocol
