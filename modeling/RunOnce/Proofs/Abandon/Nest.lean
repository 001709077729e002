import RunOnce.Proofs.Reentrancy.Refusal

/-!
# Nests of calls, and the order in which they are dropped

**Nests** (`Nest`). An initializer holds the calls that it makes, one beside the other: a call on
the stack above it, or futures that it has joined. A panic unwinds out of a nest of calls, and the
drop of a future drops the nest that it holds.

**Drop order** (`Nest.guards`). The guard of a call is a local variable of the call, and what the
initializer holds is a temporary value inside. So everything that an initializer holds is dropped,
one call after the other, before the guard of its own call is.

**From the inside out** (`State.CallTree.precedes`). In a call tree every call is held by the one
that has made it. So of two calls in it, the one that the other encloses is dropped first. A future
can be polled in an initializer and held outside of it, and then it is dropped later.
-/

namespace RunOnce.Protocol

open Relation State

variable {α : Type}

/-- Calls that hold each other. -/
inductive Nest
  | nil
  /-- A call, what its initializer holds, and what is held beside it and dropped later. -/
  | call (c : Nat) (inner beside : Nest)

namespace Nest

/-- The calls of a nest, in the order in which their guards are dropped. -/
def guards : Nest → List Nat
  | .nil => []
  | .call c inner beside => inner.guards ++ c :: beside.guards

/-- The outermost calls of a nest. -/
def roots : Nest → List Nat
  | .nil => []
  | .call c _ beside => c :: beside.roots

end Nest

/-- One element of a list comes before another one. -/
def Precedes (l : List Nat) (k c : Nat) : Prop := [k, c].Sublist l

/-- The initializer of one call makes another one. -/
def State.Makes (s : State α) (outer c : Nat) : Prop :=
  ∃ call, s.calls.get? c = some call ∧ call.enclosing = some outer

/-- Calls are held by those that have made them. -/
def Nest.Made (s : State α) : Nest → Prop
  | .nil => True
  | .call c inner beside => (∀ k ∈ inner.roots, s.Makes c k) ∧ inner.Made s ∧ beside.Made s

/-- A call can be abandoned where it is. A panic passes through a blocking call only while its
initializer runs; the future of an asynchronous call can be dropped wherever it rests. -/
def State.CanLeave (s : State α) (c : Nat) : Prop :=
  ∃ call, s.calls.get? c = some call ∧ call.phase.isResting = true ∧
    (call.flavour = .blocking → call.phase = .running)

/-- A nest of calls that can be abandoned. -/
structure State.Nests (s : State α) (nest : Nest) : Prop where
  canLeave : ∀ c ∈ nest.guards, s.CanLeave c
  once : nest.guards.Nodup

/-- Every call of a nest is held by the one that has made it, and the outermost ones were made
outside of the nest. -/
structure State.CallTree (s : State α) (nest : Nest) : Prop where
  made : nest.Made s
  outermost : ∀ c ∈ nest.roots, ∀ k ∈ nest.guards, ¬Encloses s k c

section

variable {s : State α} {nest : Nest} {l done rest : List Nat} {k p c : Nat}

/-! ## Before and after in a list -/

namespace Precedes

theorem mem_left (h : Precedes l k c) : k ∈ l := h.subset List.mem_cons_self

theorem mem_right (h : Precedes l k c) : c ∈ l :=
  h.subset (List.mem_cons_of_mem _ List.mem_cons_self)

theorem append_left (h : Precedes l k c) (more : List Nat) : Precedes (more ++ l) k c :=
  h.trans (List.sublist_append_right more l)

theorem append_right (h : Precedes l k c) (more : List Nat) : Precedes (l ++ more) k c :=
  h.trans (List.sublist_append_left l more)

theorem of_mem (hk : k ∈ done) (rest : List Nat) : Precedes (done ++ c :: rest) k c :=
  (List.singleton_sublist.mpr hk).append (List.singleton_sublist.mpr List.mem_cons_self)

theorem cons_iff {x : Nat} : Precedes (x :: l) k c ↔ Precedes l k c ∨ k = x ∧ c ∈ l := by
  rw [Precedes, List.cons_sublist_cons', List.singleton_sublist]
  rfl

/-- In a list without repetition there is one place to look. -/
theorem mem_done (h : Precedes (done ++ c :: rest) k c) (once : (done ++ c :: rest).Nodup) :
    k ∈ done := by
  induction done with
  | nil =>
    have fresh := (List.nodup_cons.mp once).1
    rcases cons_iff.mp h with later | ⟨-, later⟩
    · exact absurd later.mem_right fresh
    · exact absurd later fresh
  | cons x done ih =>
    obtain ⟨-, once⟩ := List.nodup_cons.mp once
    rcases cons_iff.mp h with later | ⟨rfl, -⟩
    · exact List.mem_cons_of_mem _ (ih later once)
    · exact List.mem_cons_self

theorem trans (h : Precedes l k p) (h' : Precedes l p c) (once : l.Nodup) : Precedes l k c := by
  induction l with
  | nil => exact absurd h.mem_left List.not_mem_nil
  | cons x l ih =>
    obtain ⟨fresh, once⟩ := List.nodup_cons.mp once
    rcases cons_iff.mp h' with later' | ⟨rfl, -⟩
    · rcases cons_iff.mp h with later | ⟨rfl, -⟩
      · exact (ih later later' once).append_left [x]
      · exact cons_iff.mpr (.inr ⟨rfl, later'.mem_right⟩)
    · rcases cons_iff.mp h with later | ⟨-, later⟩
      · exact absurd later.mem_right fresh
      · exact absurd later fresh

end Precedes

/-! ## The order of a nest -/

/-- A call of a nest is one of the outermost, or the one that has made it is dropped after it. -/
theorem Nest.Made.maker (made : nest.Made s) (hk : k ∈ nest.guards) :
    k ∈ nest.roots ∨ ∃ p, s.Makes p k ∧ Precedes nest.guards k p := by
  induction nest with
  | nil => cases hk
  | call c inner beside inside besides =>
    obtain ⟨mine, hinner, hbeside⟩ := made
    rcases List.mem_append.mp hk with hk | hk
    · right
      rcases inside hinner hk with root | ⟨p, makes, precedes⟩
      · exact ⟨c, mine k root, .of_mem hk beside.guards⟩
      · exact ⟨p, makes, precedes.append_right _⟩
    · rcases List.mem_cons.mp hk with rfl | hk
      · exact Or.inl (List.mem_cons_self ..)
      · rcases besides hbeside hk with root | ⟨p, makes, precedes⟩
        · exact Or.inl (List.mem_cons_of_mem _ root)
        · refine Or.inr ⟨p, makes, ?_⟩
          have hlater := precedes.append_left (inner.guards ++ [c])
          rwa [List.append_assoc] at hlater

/-- A call was made by one other call at most. -/
theorem State.Makes.unique {q : Nat} (makes : s.Makes p k) (makes' : s.Makes q k) : p = q := by
  obtain ⟨call, hcall, hp⟩ := makes
  obtain ⟨mine, hmine, hq⟩ := makes'
  obtain rfl : call = mine := Option.some.inj (hcall.symm.trans hmine)
  exact Option.some.inj (hp.symm.trans hq)

/-- **What a call encloses is dropped before it.** -/
theorem State.CallTree.precedes (h : s.CallTree nest) (once : nest.guards.Nodup)
    (hc : c ∈ nest.guards) (hk : k ∈ nest.guards) (encloses : Encloses s c k) :
    Precedes nest.guards k c := by
  induction encloses with
  | @single k makes =>
    rcases h.made.maker hk with root | ⟨p, makes', precedes⟩
    · exact absurd (.single makes) (h.outermost k root c hc)
    · obtain rfl : p = c := makes'.unique makes
      exact precedes
  | @tail b k encloses makes ih =>
    rcases h.made.maker hk with root | ⟨p, makes', precedes⟩
    · exact absurd (encloses.tail makes) (h.outermost k root c hc)
    · obtain rfl : p = b := makes'.unique makes
      exact precedes.trans (ih precedes.mem_right) once

end

end RunOnce.Protocol
