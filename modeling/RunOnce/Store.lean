/-!
# Finite maps in order of insertion

**The map** (`Store`). A list of entries with one entry per key; a key keeps the place at which
it first came. `get?` is the view: every operation is described by what it does to `get?`.

Main statements: `get?_set_self`, `get?_set_of_ne`, `get?_erase_self`, `get?_erase_of_ne`,
`get?_modify`.
-/

namespace RunOnce

/-- A finite map that remembers the order in which its keys first came. -/
structure Store (κ α : Type) where
  entries : List (κ × α) := []

namespace Store

variable {κ α : Type}

/-- The keys, in order. -/
def keys (s : Store κ α) : List κ := s.entries.map (·.1)

/-- The values, in order of their keys. -/
def values (s : Store κ α) : List α := s.entries.map (·.2)

variable [DecidableEq κ]

/-- The value under a key in a list of entries. -/
def lookup : List (κ × α) → κ → Option α
  | [], _ => none
  | (key, value) :: rest, k => if key = k then some value else lookup rest k

/-- Entries with the value under a key replaced, or with a new entry at the end. -/
def put : List (κ × α) → κ → α → List (κ × α)
  | [], k, v => [(k, v)]
  | (key, value) :: rest, k, v =>
    if key = k then (key, v) :: rest else (key, value) :: put rest k v

/-- The value under a key. -/
def get? (s : Store κ α) (k : κ) : Option α := lookup s.entries k

/-- The map with a value under a key. -/
def set (s : Store κ α) (k : κ) (v : α) : Store κ α := ⟨put s.entries k v⟩

/-- The map without a key. -/
def erase (s : Store κ α) (k : κ) : Store κ α := ⟨s.entries.filter fun e => !decide (e.1 = k)⟩

/-- The map with the value under a key changed, if there is one. -/
def modify (s : Store κ α) (k : κ) (f : α → α) : Store κ α :=
  match s.get? k with
  | some v => s.set k (f v)
  | none => s

/-- Whether the key is there. -/
def contains (s : Store κ α) (k : κ) : Bool := (s.get? k).isSome

theorem lookup_put_self (l : List (κ × α)) (k : κ) (v : α) : lookup (put l k v) k = some v := by
  induction l with
  | nil => simp [put, lookup]
  | cons e r ih => by_cases h : e.1 = k <;> simp [put, lookup, h, ih]

theorem lookup_put_of_ne (l : List (κ × α)) {j k : κ} (h : j ≠ k) (v : α) :
    lookup (put l j v) k = lookup l k := by
  induction l with
  | nil => simp [put, lookup, h]
  | cons e r ih =>
    obtain ⟨key, value⟩ := e
    by_cases hj : key = j
    · subst hj; simp [put, lookup, h]
    · by_cases hk : key = k
      · subst hk; simp [put, lookup, hj]
      · simp [put, lookup, hj, hk, ih]

theorem lookup_filter_self (l : List (κ × α)) (k : κ) :
    lookup (l.filter fun e => !decide (e.1 = k)) k = none := by
  induction l with
  | nil => rfl
  | cons e r ih => by_cases h : e.1 = k <;> simp [lookup, h, ih]

theorem lookup_filter_of_ne (l : List (κ × α)) {j k : κ} (h : j ≠ k) :
    lookup (l.filter fun e => !decide (e.1 = j)) k = lookup l k := by
  induction l with
  | nil => rfl
  | cons e r ih =>
    obtain ⟨key, value⟩ := e
    by_cases hj : key = j
    · subst hj; simp [lookup, ih, h]
    · by_cases hk : key = k
      · subst hk; simp [lookup, hj]
      · simp [lookup, hj, hk, ih]

theorem mem_of_lookup (l : List (κ × α)) {k : κ} {v : α} (h : lookup l k = some v) :
    (k, v) ∈ l := by
  induction l with
  | nil => simp [lookup] at h
  | cons e r ih =>
    obtain ⟨key, value⟩ := e
    by_cases hk : key = k
    · simp [lookup, hk] at h
      simp [hk, h]
    · simp [lookup, hk] at h
      exact List.mem_cons_of_mem _ (ih h)

@[simp] theorem get?_empty (k : κ) : (⟨[]⟩ : Store κ α).get? k = none := rfl

@[simp] theorem get?_set_self (s : Store κ α) (k : κ) (v : α) : (s.set k v).get? k = some v :=
  lookup_put_self _ _ _

@[simp] theorem get?_set_of_ne (s : Store κ α) {j k : κ} (h : j ≠ k) (v : α) :
    (s.set j v).get? k = s.get? k :=
  lookup_put_of_ne _ h _

@[simp] theorem get?_erase_self (s : Store κ α) (k : κ) : (s.erase k).get? k = none :=
  lookup_filter_self _ _

@[simp] theorem get?_erase_of_ne (s : Store κ α) {j k : κ} (h : j ≠ k) :
    (s.erase j).get? k = s.get? k :=
  lookup_filter_of_ne _ h

theorem mem_entries_of_get? (s : Store κ α) {k : κ} {v : α} (h : s.get? k = some v) :
    (k, v) ∈ s.entries := mem_of_lookup s.entries h

/-- What is under a key after a change to any key. -/
theorem get?_modify (s : Store κ α) (j k : κ) (f : α → α) :
    (s.modify j f).get? k = if j = k then (s.get? k).map f else s.get? k := by
  unfold modify
  by_cases h : j = k
  · subst h; cases hj : s.get? j <;> simp [hj]
  · cases hj : s.get? j <;> simp [h]

theorem put_of_lookup (l : List (κ × α)) {k : κ} {v : α} (h : lookup l k = some v) :
    put l k v = l := by
  induction l with
  | nil => simp [lookup] at h
  | cons e r ih =>
    obtain ⟨key, value⟩ := e
    by_cases hk : key = k
    · simp [lookup, hk] at h
      simp [put, hk, h]
    · simp [lookup, hk] at h
      simp [put, hk, ih h]

/-- Writing what is there changes nothing, nor does the order. -/
theorem set_of_get? (s : Store κ α) {k : κ} {v : α} (h : s.get? k = some v) : s.set k v = s := by
  rw [set, put_of_lookup s.entries h]

theorem modify_of_get? (s : Store κ α) {k : κ} {f : α → α} {v : α} (h : s.get? k = some v)
    (same : f v = v) : s.modify k f = s := by
  simp only [modify, h, same]
  exact s.set_of_get? h

/-- What is under a key after a write to any key. -/
theorem get?_set (s : Store κ α) (j k : κ) (v : α) :
    (s.set j v).get? k = if j = k then some v else s.get? k := by
  by_cases h : j = k
  · subst h; simp
  · simp [h]

end Store

end RunOnce
