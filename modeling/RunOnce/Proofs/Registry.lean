import Mathlib.Data.List.Nodup
import Mathlib.Data.List.Perm.Basic
import RunOnce.Registry

/-!
# What entering and retiring do

**Operations in flight** (`Registry.held`). Waiters come and go; what counts is which handles have
an operation, and who started it.

**Entering** (`Registry.enter_cases`). A call finds the flag set, or meets an operation for its
handle, its own or another one, or starts one because there is none.

**Retiring** (`Registry.retire_eq_some`). One operation for the handle goes and the others stay, in
another order.

**By handle** (`Registry.find?_enter_of_ne`, `Registry.find?_retire`). Either leaves the operations
for other handles alone. Registries with the same operation under each handle have the same
operations (`Registry.operations_perm`), perhaps in another order.

**Waiters** (`Registry.waitersOf`). Joining an operation puts the new waiter at the end of its queue
(`waitersOf_enqueue`), and retiring it takes its whole queue (`waitersOf_retire`). The queues of
other operations stay as they are, wherever the operations are moved to.
-/

namespace RunOnce.Registry

variable {ω : Type} {r : Registry ω} {id : FlagId}

/-- Which handles have an operation, and who started it. -/
def held (r : Registry ω) : List (FlagId × Initiator) :=
  r.operations.map fun op => (op.flag, op.initiator)

theorem mem_held {p : FlagId × Initiator} :
    p ∈ r.held ↔ ∃ op ∈ r.operations, (op.flag, op.initiator) = p := List.mem_map

/-! ## Entering -/

theorem find?_eq_none : r.find? id = none ↔ ∀ who, (id, who) ∉ r.held := by
  unfold find?
  rw [List.find?_eq_none]
  constructor
  · intro h who hmem
    obtain ⟨op, hop, he⟩ := mem_held.mp hmem
    cases he
    exact h op hop (decide_eq_true rfl)
  · intro h op hop he
    have hid : op.flag = id := of_decide_eq_true he
    exact h op.initiator (mem_held.mpr ⟨op, hop, by rw [hid]⟩)

theorem mem_held_of_find? {op : Operation ω} (h : r.find? id = some op) :
    (id, op.initiator) ∈ r.held := by
  unfold find? at h
  have hid : op.flag = id := by simpa using List.find?_some h
  exact mem_held.mpr ⟨op, List.mem_of_find?_eq_some h, by rw [hid]⟩

/-- A new waiter changes nothing about the operations. -/
theorem map_enqueue (id : FlagId) (w : ω) (l : List (Operation ω)) :
    (enqueue id w l).map (fun op => (op.flag, op.initiator)) =
      l.map fun op => (op.flag, op.initiator) := by
  induction l with
  | nil => rfl
  | cons op rest ih =>
    by_cases h : op.flag = id
    · simp [enqueue, h]
    · simp [enqueue, h, ih]

/-- What the locked part of a call finds, and what it leaves. -/
theorem enter_cases (r : Registry ω) (flag : Flag) (who : Initiator) (w : ω) :
    (flag.isDone = true ∧ r.enter flag who w = (.done, r)) ∨
    (flag.isDone = false ∧ (∃ op, r.find? flag.id = some op ∧ op.initiator = who) ∧
      r.enter flag who w = (.reentrant, r)) ∨
    (flag.isDone = false ∧ (∃ op, r.find? flag.id = some op ∧ op.initiator ≠ who) ∧
      ∃ queued r', r.enter flag who w = (.waiting queued, r') ∧ r'.held = r.held) ∨
    (flag.isDone = false ∧ r.find? flag.id = none ∧
      ∃ r', r.enter flag who w = (.won, r') ∧ r'.held = r.held ++ [(flag.id, who)]) := by
  unfold enter
  by_cases hd : flag.isDone = true
  · exact Or.inl ⟨hd, if_pos hd⟩
  · rw [if_neg hd]
    have hd : flag.isDone = false := Bool.eq_false_iff.mpr hd
    cases hf : r.find? flag.id with
    | none =>
      refine Or.inr (Or.inr (Or.inr ⟨hd, rfl, _, rfl, ?_⟩))
      simp [held]
    | some op =>
      by_cases hw : op.initiator = who
      · exact Or.inr (Or.inl ⟨hd, ⟨op, rfl, hw⟩, if_pos hw⟩)
      · refine Or.inr (Or.inr (Or.inl ⟨hd, ⟨op, rfl, hw⟩, _, _, if_neg hw, ?_⟩))
        exact map_enqueue flag.id w r.operations

/-! ## Retiring -/

/-- The last element takes the place of the one that goes. -/
theorem moveLastTo_perm {α : Type} {l : List α} {i : Nat} {x : α} (h : l[i]? = some x) :
    l.Perm (x :: moveLastTo l i) := by
  obtain ⟨hi, hx⟩ := List.getElem?_eq_some_iff.mp h
  subst hx
  have hne : l ≠ [] := by
    rintro rfl
    exact Nat.not_lt_zero i hi
  have hmove : moveLastTo l i = (l.set i (l.getLast hne)).dropLast := by
    unfold moveLastTo
    rw [List.getLast?_eq_some_getLast hne]
  have hne' : l.set i (l.getLast hne) ≠ [] := by simpa using hne
  have hlast : (l.set i (l.getLast hne)).getLast hne' = l.getLast hne := by
    rw [List.getLast_eq_getElem, List.getElem_set]
    split
    · rfl
    · simp [List.getLast_eq_getElem]
  -- The list with the element overwritten has the last element twice; one of the two goes.
  have hset : moveLastTo l i ++ [l.getLast hne] = l.set i (l.getLast hne) := by
    rw [hmove]
    conv_rhs => rw [← List.dropLast_append_getLast hne', hlast]
  have htwice : (l.getLast hne :: moveLastTo l i).Perm (l.getLast hne :: l.eraseIdx i) := by
    refine (List.perm_append_singleton _ _).symm.trans ?_
    rw [hset]
    exact List.set_perm_cons_eraseIdx hi _
  exact (List.getElem_cons_eraseIdx_perm hi).symm.trans (htwice.cons_inv.symm.cons _)

theorem retire_eq_none (h : r.retire id = none) : ∀ who, (id, who) ∉ r.held := by
  rw [← find?_eq_none]
  unfold retire at h
  split at h
  · rename_i hi
    unfold find?
    rw [List.find?_eq_none]
    intro op hop he
    have := List.findIdx?_eq_none_iff.mp hi op hop
    simp_all
  · rename_i i hi
    obtain ⟨hlt, -⟩ := List.findIdx?_eq_some_iff_getElem.mp hi
    rw [List.getElem?_eq_getElem hlt] at h
    cases h

theorem retire_eq_some {waiters : List ω} {r' : Registry ω} (h : r.retire id = some (waiters, r')) :
    ∃ op, op.flag = id ∧ waiters = op.waiters ∧ r.operations.Perm (op :: r'.operations) := by
  unfold retire at h
  split at h
  · cases h
  · rename_i i hi
    obtain ⟨hlt, hid, -⟩ := List.findIdx?_eq_some_iff_getElem.mp hi
    rw [List.getElem?_eq_getElem hlt] at h
    cases h
    exact ⟨r.operations[i], of_decide_eq_true hid, rfl,
      moveLastTo_perm (List.getElem?_eq_getElem hlt)⟩

/-- Who had the operation that went, and what is left. -/
theorem held_retire {waiters : List ω} {r' : Registry ω} (h : r.retire id = some (waiters, r')) :
    ∃ who, r.held.Perm ((id, who) :: r'.held) := by
  obtain ⟨op, hid, -, hperm⟩ := retire_eq_some h
  have hmap := hperm.map fun op => (op.flag, op.initiator)
  rw [List.map_cons, hid] at hmap
  exact ⟨op.initiator, hmap⟩

/-! ## Operations by handle -/

variable {r' : Registry ω} {flag : Flag} {who : Initiator} {w : ω}

theorem map_flag_operations (r : Registry ω) :
    r.operations.map (·.flag) = r.held.map (·.1) := by
  simp [held]

/-- Of operations for distinct handles, the one that is found is the one that is there. -/
theorem find?_eq_some_iff (distinct : (r.held.map (·.1)).Nodup) {op : Operation ω} :
    r.find? id = some op ↔ op ∈ r.operations ∧ op.flag = id := by
  rw [← map_flag_operations] at distinct
  constructor
  · intro h
    exact ⟨List.mem_of_find?_eq_some h, by simpa using List.find?_some h⟩
  · rintro ⟨hmem, rfl⟩
    cases hfind : r.find? op.flag with
    | none => exact absurd (mem_held.mpr ⟨op, hmem, rfl⟩) (find?_eq_none.mp hfind op.initiator)
    | some other =>
      have hother := List.mem_of_find?_eq_some hfind
      have hflag : other.flag = op.flag := by simpa using List.find?_some hfind
      rw [List.inj_on_of_nodup_map distinct hother hmem hflag]

theorem find?_enqueue (id id' : FlagId) (w : ω) (l : List (Operation ω)) :
    (enqueue id w l).find? (fun op => op.flag = id') =
      (l.find? fun op => op.flag = id').map fun op =>
        if id = id' then { op with waiters := op.waiters ++ [w] } else op := by
  induction l with
  | nil => rfl
  | cons op rest ih =>
    by_cases hid : op.flag = id
    · subst hid
      by_cases hid' : op.flag = id' <;> simp [enqueue, hid']
    · by_cases hid' : op.flag = id'
      · subst hid'
        simp [enqueue, hid, Ne.symm hid]
      · simp [enqueue, hid, hid', ih]

/-- Entering leaves the operations for other handles alone. -/
theorem find?_enter_of_ne (other : flag.id ≠ id) :
    (r.enter flag who w).2.find? id = r.find? id := by
  unfold enter
  split
  · rfl
  · split
    · split
      · rfl
      · exact (find?_enqueue flag.id id w r.operations).trans (by simp [other, find?])
    · simp [find?, List.find?_append, other]

/-- What entering answers, and the operation that it leaves, depends on the one operation that it
meets. -/
theorem enter_congr (same : r.find? flag.id = r'.find? flag.id) :
    (r.enter flag who w).1 = (r'.enter flag who w).1 ∧
      (r.enter flag who w).2.find? flag.id = (r'.enter flag who w).2.find? flag.id := by
  unfold enter
  by_cases done : flag.isDone = true
  · rw [if_pos done, if_pos done]
    exact ⟨rfl, same⟩
  rw [if_neg done, if_neg done, same]
  cases found : r'.find? flag.id with
  | none =>
    rw [found] at same
    unfold find? at found same
    simp [find?, List.find?_append, found, same]
  | some op =>
    by_cases mine : op.initiator = who
    · simp [mine, same]
    · rw [found] at same
      unfold find? at found same
      simp [mine, find?, find?_enqueue, found, same]

theorem distinct_enter (distinct : (r.held.map (·.1)).Nodup) :
    ((r.enter flag who w).2.held.map (·.1)).Nodup := by
  rcases r.enter_cases flag who w with
    ⟨-, he⟩ | ⟨-, -, he⟩ | ⟨-, -, _, _, he, hheld⟩ | ⟨-, hnone, _, he, hheld⟩
  · rw [he]
    exact distinct
  · rw [he]
    exact distinct
  · rw [he, hheld]
    exact distinct
  · rw [he, hheld, List.map_append, List.nodup_append_comm]
    refine List.nodup_cons.mpr ⟨fun hmem => ?_, distinct⟩
    obtain ⟨⟨_, who'⟩, hmem, rfl⟩ := List.mem_map.mp hmem
    exact find?_eq_none.mp hnone who' hmem

theorem distinct_retire {waiters : List ω} (distinct : (r.held.map (·.1)).Nodup)
    (h : r.retire id = some (waiters, r')) :
    id ∉ r'.held.map (·.1) ∧ (r'.held.map (·.1)).Nodup := by
  obtain ⟨who, hperm⟩ := held_retire h
  have hmap := hperm.map Prod.fst
  exact List.nodup_cons.mp (hmap.nodup_iff.mp distinct)

/-- A completion takes its operation and leaves those for other handles alone. -/
theorem find?_retire {waiters : List ω} (distinct : (r.held.map (·.1)).Nodup)
    (h : r.retire id = some (waiters, r')) (id' : FlagId) :
    r'.find? id' = if id = id' then none else r.find? id' := by
  obtain ⟨hgone, hdistinct⟩ := distinct_retire distinct h
  obtain ⟨op, rfl, -, hperm⟩ := retire_eq_some h
  by_cases hid : op.flag = id'
  · subst hid
    rw [if_pos rfl, find?_eq_none]
    exact fun who hmem => hgone (List.mem_map.mpr ⟨(op.flag, who), hmem, rfl⟩)
  · rw [if_neg hid]
    ext other
    rw [find?_eq_some_iff hdistinct, find?_eq_some_iff distinct, hperm.mem_iff, List.mem_cons]
    constructor
    · rintro ⟨hmem, hflag⟩
      exact ⟨Or.inr hmem, hflag⟩
    · rintro ⟨rfl | hmem, hflag⟩
      · exact absurd hflag hid
      · exact ⟨hmem, hflag⟩

/-- A completion hands over the waiters of the operation that is found. -/
theorem fst_retire (distinct : (r.held.map (·.1)).Nodup) (id : FlagId) :
    (r.retire id).map Prod.fst = (r.find? id).map (·.waiters) := by
  cases h : r.retire id with
  | none => rw [find?_eq_none.mpr (retire_eq_none h)]; rfl
  | some taken =>
    obtain ⟨op, hop, hwaiters, hperm⟩ := retire_eq_some h
    have hfound : r.find? id = some op :=
      (find?_eq_some_iff distinct).mpr ⟨hperm.mem_iff.mpr List.mem_cons_self, hop⟩
    rw [hfound, Option.map_some, Option.map_some, hwaiters]

/-- Registries with the same operation under each handle have the same operations. -/
theorem operations_perm (distinct : (r.held.map (·.1)).Nodup)
    (distinct' : (r'.held.map (·.1)).Nodup) (same : ∀ id, r.find? id = r'.find? id) :
    r.operations.Perm r'.operations := by
  have hnodup {r : Registry ω} (distinct : (r.held.map (·.1)).Nodup) : r.operations.Nodup := by
    rw [← map_flag_operations] at distinct
    exact distinct.of_map
  refine (List.perm_ext_iff_of_nodup (hnodup distinct) (hnodup distinct')).mpr fun op => ?_
  have hfind := same op.flag
  constructor
  · intro hmem
    rw [(find?_eq_some_iff distinct).mpr ⟨hmem, rfl⟩] at hfind
    exact ((find?_eq_some_iff distinct').mp hfind.symm).1
  · intro hmem
    rw [(find?_eq_some_iff distinct').mpr ⟨hmem, rfl⟩] at hfind
    exact ((find?_eq_some_iff distinct).mp hfind).1

/-! ## Waiters -/

/-- Those who wait for a handle, in order of arrival. -/
def waitersOf (r : Registry ω) (id : FlagId) : List ω := ((r.find? id).map (·.waiters)).getD []

theorem waitersOf_of_find? {op : Operation ω} (h : r.find? id = some op) :
    r.waitersOf id = op.waiters := by
  simp [waitersOf, h]

theorem waitersOf_of_none (h : r.find? id = none) : r.waitersOf id = [] := by
  simp [waitersOf, h]

/-- A waiter joins the end of one queue. -/
theorem waitersOf_enqueue {op : Operation ω} (found : r.find? id = some op) (w : ω)
    (id' : FlagId) : waitersOf ⟨enqueue id w r.operations⟩ id' =
      if id = id' then r.waitersOf id ++ [w] else r.waitersOf id' := by
  have hfind : find? ⟨enqueue id w r.operations⟩ id' = _ := find?_enqueue id id' w r.operations
  by_cases hid : id = id'
  · subst hid
    have hop : r.operations.find? (fun op => op.flag = id) = some op := found
    rw [waitersOf, hfind, hop, waitersOf_of_find? found]
    simp
  · rw [waitersOf, hfind, if_neg hid]
    simp only [hid, if_false, Option.map_id']
    rfl

/-- An operation starts with an empty queue. -/
theorem waitersOf_push (r : Registry ω) (op : Operation ω) (fresh : op.waiters = [])
    (id : FlagId) : waitersOf ⟨r.operations ++ [op]⟩ id = r.waitersOf id := by
  unfold waitersOf find?
  rw [List.find?_append]
  cases hfind : r.operations.find? (fun op => op.flag = id) with
  | some other => rfl
  | none => by_cases hid : op.flag = id <;> simp [hid, fresh]

/-- A completion takes the whole queue of its operation and leaves the other queues alone. -/
theorem waitersOf_retire {waiters : List ω} (distinct : (r.held.map (·.1)).Nodup)
    (h : r.retire id = some (waiters, r')) : waiters = r.waitersOf id ∧
      ∀ id', r'.waitersOf id' = if id = id' then [] else r.waitersOf id' := by
  have hwaiters := fst_retire distinct id
  rw [h, Option.map_some] at hwaiters
  refine ⟨by rw [waitersOf, ← hwaiters, Option.getD_some], fun id' => ?_⟩
  rw [waitersOf, find?_retire distinct h]
  split <;> rfl

end RunOnce.Registry
