import Mathlib.Data.List.Nodup
import Mathlib.Data.List.Perm.Basic
import Mathlib.Logic.Function.Basic
import RunOnce.Protocol.State

/-!
# What exclusion depends on

**The board** (`Board`). Of all that calls share, exclusion depends on a few things only: how far
each call is (`Stage`), what each target holds as in flight, the flags, and the slots. The entries
of a registry and the claims on a slot table look the same here.

**Turns** (`Turn`). Every atomic step changes the board in one of ten ways, or not at all. A call
wins through a registry when its flag is clear and nothing is in flight for its handle; through a
slot table it wins when the slot is idle. A call that leaves a registry sets its flag at once; one
that settles its slot does so only afterwards.

**The invariant** (`Board.Inv`). What a target holds is exactly what the calls hold that run an
initializer through it; at one site, which is a registry or the object of a slot table, no two calls
hold the same handle; a held slot is running, and a settled one is done. `Board.Inv.turn` keeps it.
-/

namespace RunOnce.Protocol

open Function

variable {α : Type}

/-- How far a call is. -/
inductive Stage
  /-- It has nothing in flight. -/
  | outside
  /-- Its initializer runs. -/
  | inside (who : Initiator)
  /-- Its initializer has ended, and its operation is not retired yet. -/
  | leaving (who : Initiator)
  /-- Its slot is done, and its flag comes next. -/
  | settled
  /-- It has returned, and its flag was set. -/
  | passed
deriving DecidableEq

/-- The identity under which a call has something in flight. -/
def Stage.holder? : Stage → Option Initiator
  | .inside who | .leaving who => some who
  | .outside | .settled | .passed => none

/-- What exclusion depends on in a call. -/
structure Card where
  target : Nat
  flag : Nat
  stage : Stage

/-- What exclusion depends on in a state. -/
@[ext]
structure Board where
  next : Nat
  card? : Nat → Option Card
  /-- What each target has in flight. -/
  held : Nat → List (FlagId × Initiator)
  flag? : Nat → Option Flag
  /-- The object and the number of slots of a target that is a slot table. -/
  table? : Nat → Option (Nat × UInt32)
  /-- The state of the slot for a handle in an object that exists. -/
  slot? : Nat → FlagId → Option UInt32

namespace Board

/-- The board with the next key. -/
def setNext (b : Board) (n : Nat) : Board := { b with next := n }

/-- The board with the card of a call. -/
def setCard (b : Board) (c : Nat) (card : Card) : Board :=
  { b with card? := update b.card? c (some card) }

/-- The board with what a target has in flight. -/
def setHeld (b : Board) (t : Nat) (l : List (FlagId × Initiator)) : Board :=
  { b with held := update b.held t l }

/-- The board with a flag. -/
def setFlag (b : Board) (f : Nat) (flag : Flag) : Board :=
  { b with flag? := update b.flag? f (some flag) }

/-- The board with the state of a slot. -/
def setSlot (b : Board) (o : Nat) (id : FlagId) (v : UInt32) : Board :=
  { b with slot? := update b.slot? o (update (b.slot? o) id (some v)) }

/-- Where targets exclude each other: in a registry of their own, or in the object that they map. -/
def site (b : Board) (t : Nat) : Nat ⊕ Nat :=
  match b.table? t with
  | none => .inl t
  | some (o, _) => .inr o

/-- What a call with this card has in flight: through which target, for which handle, as whom. -/
def claimOf (b : Board) (card : Card) : Option (Nat × FlagId × Initiator) :=
  card.stage.holder?.bind fun who => (b.flag? card.flag).map fun f => (card.target, f.id, who)

/-- What a call has in flight. -/
def claim? (b : Board) (c : Nat) : Option (Nat × FlagId × Initiator) := (b.card? c).bind b.claimOf

end Board

/-- One change of the board by a call. -/
inductive Turn (b : Board) (c : Nat) : Board → Prop
  /-- Nothing changes that exclusion depends on. -/
  | still : Turn b c b
  | arrives {target flag : Nat} {f : Flag} (fresh : c = b.next) (known : b.flag? flag = some f) :
      Turn b c ((b.setCard c ⟨target, flag, .outside⟩).setNext (b.next + 1))
  /-- The call returns: its flag is set. -/
  | passes {card : Card} {f : Flag} (here : b.card? c = some card)
      (outside : card.stage = .outside) (known : b.flag? card.flag = some f)
      (set : f.isDone = true) : Turn b c (b.setCard c { card with stage := .passed })
  | wins {card : Card} {f : Flag} {who : Initiator} (here : b.card? c = some card)
      (outside : card.stage = .outside) (known : b.flag? card.flag = some f)
      (bare : b.table? card.target = none) (unset : f.isDone = false)
      (free : ∀ w, (f.id, w) ∉ b.held card.target) :
      Turn b c ((b.setCard c { card with stage := .inside who }).setHeld card.target
        (b.held card.target ++ [(f.id, who)]))
  | claims {card : Card} {f : Flag} {who : Initiator} {o : Nat} {n : UInt32}
      (here : b.card? c = some card) (outside : card.stage = .outside)
      (known : b.flag? card.flag = some f) (table : b.table? card.target = some (o, n))
      (within : f.id.index < n) (idle : b.slot? o f.id = some slotIdle) :
      Turn b c (((b.setCard c { card with stage := .inside who }).setHeld card.target
        (b.held card.target ++ [(f.id, who)])).setSlot o f.id slotRunning)
  /-- The initializer ends. -/
  | ends {card : Card} {who : Initiator} (here : b.card? c = some card)
      (inside : card.stage = .inside who) :
      Turn b c (b.setCard c { card with stage := .leaving who })
  /-- The operation leaves its registry. -/
  | retires {card : Card} {f : Flag} {who w : Initiator} {rest : List (FlagId × Initiator)}
      (here : b.card? c = some card) (leaving : card.stage = .leaving who)
      (known : b.flag? card.flag = some f) (bare : b.table? card.target = none)
      (taken : (b.held card.target).Perm ((f.id, w) :: rest)) :
      Turn b c (((b.setCard c { card with stage := .outside }).setHeld card.target rest).setFlag
        card.flag f.complete)
  /-- The slot is done, and the claim on it counts no longer. -/
  | settles {card : Card} {f : Flag} {who : Initiator} {o : Nat} {n : UInt32}
      (here : b.card? c = some card) (leaving : card.stage = .leaving who)
      (known : b.flag? card.flag = some f) (table : b.table? card.target = some (o, n)) :
      Turn b c (((b.setCard c { card with stage := .settled }).setHeld card.target
        ((b.held card.target).filter fun p => !decide (p.1 = f.id))).setSlot o f.id slotDone)
  /-- The flag follows a slot that the call has settled. -/
  | marks {card : Card} {f : Flag} {o : Nat} {n : UInt32} (here : b.card? c = some card)
      (settled : card.stage = .settled) (known : b.flag? card.flag = some f)
      (table : b.table? card.target = some (o, n)) (done : b.slot? o f.id = some slotDone) :
      Turn b c ((b.setCard c { card with stage := .outside }).setFlag card.flag f.complete)
  /-- The flag follows a slot that is done. -/
  | observes {card : Card} {f : Flag} {o : Nat} {n : UInt32} (here : b.card? c = some card)
      (outside : card.stage = .outside) (known : b.flag? card.flag = some f)
      (table : b.table? card.target = some (o, n)) (done : b.slot? o f.id = some slotDone) :
      Turn b c (b.setFlag card.flag f.complete)

namespace Board

variable {b b' : Board} {c : Nat}

/-- What targets hold is what calls hold, and no two calls hold the same at one site. -/
structure Exclusive (b : Board) : Prop where
  fresh : ∀ c, b.next ≤ c → b.card? c = none
  known : ∀ c card, b.card? c = some card → ∃ f, b.flag? card.flag = some f
  mapped : ∀ t o n, b.table? t = some (o, n) → ∀ id, ∃ v, b.slot? o id = some v
  distinct : ∀ t, ((b.held t).map (·.1)).Nodup
  mem_held : ∀ t id who, (id, who) ∈ b.held t ↔ ∃ c, b.claim? c = some (t, id, who)
  unique : ∀ c c' t t' id w w', b.claim? c = some (t, id, w) → b.claim? c' = some (t', id, w') →
    b.site t = b.site t' → c = c'

/-- The invariant of the board: exclusion, what is held in a slot table is running, and what is
settled is done. -/
structure Inv (b : Board) : Prop extends Exclusive b where
  running : ∀ c t id w o n, b.claim? c = some (t, id, w) → b.table? t = some (o, n) →
    id.index < n ∧ b.slot? o id = some slotRunning
  settled : ∀ c card f, b.card? c = some card → card.stage = .settled →
    b.flag? card.flag = some f →
    ∃ o n, b.table? card.target = some (o, n) ∧ f.id.index < n ∧ b.slot? o f.id = some slotDone

/-! ## What calls have in flight -/

theorem claim?_of_card {card : Card} (here : b.card? c = some card) :
    b.claim? c = b.claimOf card := by
  simp [claim?, here]

theorem claimOf_eq_none {card : Card} (h : card.stage.holder? = none) : b.claimOf card = none := by
  simp [claimOf, h]

theorem claimOf_eq_some {card : Card} {f : Flag} {who : Initiator}
    (h : card.stage.holder? = some who) (known : b.flag? card.flag = some f) :
    b.claimOf card = some (card.target, f.id, who) := by
  simp [claimOf, h, known]

theorem claim?_setCard (b : Board) (c : Nat) (card : Card) :
    (b.setCard c card).claim? = update b.claim? c (b.claimOf card) := by
  funext k
  show (update b.card? c (some card) k).bind b.claimOf = _
  by_cases hk : k = c
  · subst hk; simp
  · simp [claim?, hk]

/-- A flag that completes keeps its handle, so nothing in flight changes. -/
theorem claim?_setFlag {f : Nat} {flag : Flag} (known : b.flag? f = some flag) :
    (b.setFlag f flag.complete).claim? = b.claim? := by
  have hclaim : (b.setFlag f flag.complete).claimOf = b.claimOf := by
    funext card
    by_cases hf : card.flag = f
    · simp [claimOf, setFlag, hf, known]
    · simp [claimOf, setFlag, hf]
  funext k
  simp only [claim?, hclaim]
  rfl

@[simp] theorem claim?_setHeld (b : Board) (t : Nat) (l : List (FlagId × Initiator)) :
    (b.setHeld t l).claim? = b.claim? := rfl

@[simp] theorem claim?_setSlot (b : Board) (o : Nat) (id : FlagId) (v : UInt32) :
    (b.setSlot o id v).claim? = b.claim? := rfl

@[simp] theorem claim?_setNext (b : Board) (n : Nat) : (b.setNext n).claim? = b.claim? := rfl

@[simp] theorem site_setCard (b : Board) (c : Nat) (card : Card) :
    (b.setCard c card).site = b.site := rfl

@[simp] theorem site_setHeld (b : Board) (t : Nat) (l : List (FlagId × Initiator)) :
    (b.setHeld t l).site = b.site := rfl

theorem site_of_bare {t : Nat} (h : b.table? t = none) : b.site t = .inl t := by
  simp [site, h]

theorem site_of_table {t o : Nat} {n : UInt32} (h : b.table? t = some (o, n)) :
    b.site t = .inr o := by
  simp [site, h]

/-- The targets at the site of a registry are that registry alone. -/
theorem eq_of_site_bare {t t' : Nat} (h : b.table? t = none) (hs : b.site t = b.site t') :
    t = t' := by
  rw [site_of_bare h, site] at hs
  split at hs
  · exact Sum.inl.inj hs
  · cases hs

/-- The targets at the site of a slot table map its object. -/
theorem table_of_site {t t' o : Nat} {n : UInt32} (h : b.table? t = some (o, n))
    (hs : b.site t = b.site t') : ∃ n', b.table? t' = some (o, n') := by
  rw [site_of_table h, site] at hs
  split at hs
  · cases hs
  · rename_i o' n' h'
    exact ⟨n', by rw [h', Sum.inr.inj hs]⟩

/-! ## Changes that keep the invariant -/

/-- A stage with the same holder changes nothing in flight. -/
theorem claim?_restage {card : Card} {stage : Stage} (here : b.card? c = some card)
    (same : stage.holder? = card.stage.holder?) :
    (b.setCard c { card with stage }).claim? = b.claim? := by
  have hclaim : b.claimOf { card with stage } = b.claim? c := by
    rw [claim?_of_card here]
    simp only [claimOf, same]
  rw [claim?_setCard, hclaim, update_eq_self]

theorem fresh_setCard (h : b.Exclusive) {card card' : Card} (here : b.card? c = some card) :
    ∀ k, b.next ≤ k → (b.setCard c card').card? k = none := by
  intro k hk
  have hne : k ≠ c := by
    rintro rfl
    rw [h.fresh k hk] at here
    cases here
  show update b.card? c (some card') k = none
  rw [update_of_ne hne]
  exact h.fresh k hk

theorem known_setCard (h : b.Exclusive) {card' : Card} {f : Flag}
    (known : b.flag? card'.flag = some f) :
    ∀ k card, (b.setCard c card').card? k = some card → ∃ f, b.flag? card.flag = some f := by
  intro k card hk
  change update b.card? c (some card') k = some card at hk
  by_cases hkc : k = c
  · subst hkc
    rw [update_self, Option.some.injEq] at hk
    exact ⟨f, hk ▸ known⟩
  · rw [update_of_ne hkc] at hk
    exact h.known k card hk

theorem Exclusive.restage (h : b.Exclusive) {card : Card} {stage : Stage}
    (here : b.card? c = some card) (same : stage.holder? = card.stage.holder?) :
    (b.setCard c { card with stage }).Exclusive := by
  have hclaim := claim?_restage here same
  obtain ⟨f, hf⟩ := h.known c card here
  refine { fresh := fresh_setCard h here, known := known_setCard h hf
           mapped := h.mapped, distinct := h.distinct, mem_held := ?_, unique := ?_ }
  · rw [hclaim]
    exact h.mem_held
  · rw [hclaim]
    exact h.unique

/-- A call that arrives has nothing in flight. -/
theorem claim?_arrive (h : b.Exclusive) (target flag : Nat) :
    (b.setCard b.next ⟨target, flag, .outside⟩).claim? = b.claim? := by
  have hnone : b.claim? b.next = none := by simp [claim?, h.fresh b.next (Nat.le_refl _)]
  rw [claim?_setCard, claimOf_eq_none rfl, ← hnone, update_eq_self]

theorem Exclusive.arrive (h : b.Exclusive) {target flag : Nat} {f : Flag} (fresh : c = b.next)
    (known : b.flag? flag = some f) :
    ((b.setCard c ⟨target, flag, .outside⟩).setNext (b.next + 1)).Exclusive := by
  subst fresh
  have hclaim := claim?_arrive h target flag
  refine { fresh := ?_, known := known_setCard h known, mapped := h.mapped
           distinct := h.distinct, mem_held := ?_, unique := ?_ }
  · intro k hk
    have hk' : b.next < k := hk
    show update b.card? b.next _ k = none
    rw [update_of_ne (Nat.ne_of_gt hk')]
    exact h.fresh k (Nat.le_of_lt hk')
  · rw [claim?_setNext, hclaim]
    exact h.mem_held
  · rw [claim?_setNext, hclaim]
    exact h.unique

theorem Exclusive.setFlag (h : b.Exclusive) {f : Nat} {flag : Flag}
    (known : b.flag? f = some flag) : (b.setFlag f flag.complete).Exclusive := by
  have hclaim := claim?_setFlag known
  refine { fresh := h.fresh, known := ?_, mapped := h.mapped, distinct := h.distinct
           mem_held := ?_, unique := ?_ }
  · intro k card hk
    obtain ⟨g, hg⟩ := h.known k card hk
    by_cases hf : card.flag = f
    · exact ⟨flag.complete, by simp [Board.setFlag, hf]⟩
    · exact ⟨g, by simpa [Board.setFlag, hf] using hg⟩
  · rw [hclaim]
    exact h.mem_held
  · rw [hclaim]
    exact h.unique

theorem Exclusive.setSlot (h : b.Exclusive) (o : Nat) (id : FlagId) (v : UInt32) :
    (b.setSlot o id v).Exclusive := by
  refine { fresh := h.fresh, known := h.known, mapped := ?_, distinct := h.distinct
           mem_held := h.mem_held, unique := h.unique }
  intro t o' n ht id'
  obtain ⟨w, hw⟩ := h.mapped t o' n ht id'
  by_cases ho : o' = o
  · subst ho
    by_cases hid : id' = id
    · exact ⟨v, by simp [Board.setSlot, hid]⟩
    · exact ⟨w, by simpa [Board.setSlot, hid] using hw⟩
  · exact ⟨w, by simpa [Board.setSlot, ho] using hw⟩

/-- A call gets something that nobody has in flight at its site. -/
theorem Exclusive.take (h : b.Exclusive) {card : Card} {f : Flag} {who : Initiator}
    (here : b.card? c = some card) (outside : card.stage = .outside)
    (known : b.flag? card.flag = some f)
    (free : ∀ k t w, b.claim? k = some (t, f.id, w) → b.site card.target ≠ b.site t) :
    ((b.setCard c { card with stage := .inside who }).setHeld card.target
      (b.held card.target ++ [(f.id, who)])).Exclusive := by
  have hnone : b.claim? c = none := by
    rw [claim?_of_card here, claimOf_eq_none (by rw [outside]; rfl)]
  have hclaim : (b.setCard c { card with stage := .inside who }).claim? =
      update b.claim? c (some (card.target, f.id, who)) := by
    rw [claim?_setCard]
    simp [claimOf, Stage.holder?, known]
  have hfree : ∀ w, (f.id, w) ∉ b.held card.target := by
    intro w hw
    obtain ⟨k, hk⟩ := (h.mem_held _ _ _).mp hw
    exact free k _ _ hk rfl
  refine { fresh := fresh_setCard h here, known := known_setCard h known
           mapped := h.mapped, distinct := ?_, mem_held := ?_, unique := ?_ }
  · intro t
    by_cases ht : t = card.target
    · subst ht
      have hmem : f.id ∉ (b.held card.target).map (·.1) := by
        rintro hm
        obtain ⟨⟨id, w⟩, hw, rfl⟩ := List.mem_map.mp hm
        exact hfree w hw
      simp only [Board.setHeld, update_self, List.map_append]
      exact (h.distinct _).append (List.nodup_singleton _) (List.disjoint_singleton.mpr hmem)
    · simpa [Board.setHeld, Board.setCard, ht] using h.distinct t
  · intro t id w
    rw [claim?_setHeld, hclaim]
    constructor
    · intro hw
      by_cases ht : t = card.target
      · subst ht
        simp only [Board.setHeld, update_self, List.mem_append, List.mem_singleton,
          Prod.mk.injEq] at hw
        rcases hw with hw | ⟨rfl, rfl⟩
        · obtain ⟨k, hk⟩ := (h.mem_held _ _ _).mp hw
          have hne : k ≠ c := by rintro rfl; rw [hnone] at hk; cases hk
          exact ⟨k, by rw [update_of_ne hne]; exact hk⟩
        · exact ⟨c, update_self ..⟩
      · simp only [Board.setHeld, update_of_ne ht] at hw
        obtain ⟨k, hk⟩ := (h.mem_held _ _ _).mp hw
        have hne : k ≠ c := by rintro rfl; rw [hnone] at hk; cases hk
        exact ⟨k, by rw [update_of_ne hne]; exact hk⟩
    · rintro ⟨k, hk⟩
      by_cases hkc : k = c
      · subst hkc
        simp only [update_self, Option.some.injEq, Prod.mk.injEq] at hk
        obtain ⟨rfl, rfl, rfl⟩ := hk
        simp [Board.setHeld]
      · rw [update_of_ne hkc] at hk
        have hw := (h.mem_held _ _ _).mpr ⟨k, hk⟩
        by_cases ht : t = card.target
        · subst ht
          simp [Board.setHeld, hw]
        · simpa [Board.setHeld, Board.setCard, ht] using hw
  · intro k k' t t' id w w' hk hk' hs
    rw [claim?_setHeld, hclaim] at hk hk'
    simp only [site_setHeld, site_setCard] at hs
    by_cases hkc : k = c <;> by_cases hkc' : k' = c
    · rw [hkc, hkc']
    · subst hkc
      simp only [update_self, Option.some.injEq, Prod.mk.injEq] at hk
      obtain ⟨rfl, rfl, rfl⟩ := hk
      rw [update_of_ne hkc'] at hk'
      exact absurd hs (free k' t' w' hk')
    · subst hkc'
      simp only [update_self, Option.some.injEq, Prod.mk.injEq] at hk'
      obtain ⟨rfl, rfl, rfl⟩ := hk'
      rw [update_of_ne hkc] at hk
      exact absurd hs.symm (free k t w hk)
    · rw [update_of_ne hkc] at hk
      rw [update_of_ne hkc'] at hk'
      exact h.unique k k' t t' id w w' hk hk' hs

/-- A call gives up what it has in flight. -/
theorem Exclusive.release (h : b.Exclusive) {card : Card} {f : Flag} {who : Initiator}
    {rest : List (FlagId × Initiator)} {stage : Stage} (here : b.card? c = some card)
    (leaving : card.stage = .leaving who) (known : b.flag? card.flag = some f)
    (empty : stage.holder? = none) (distinct : (rest.map (·.1)).Nodup)
    (mem_rest : ∀ p, p ∈ rest ↔ p ∈ b.held card.target ∧ p.1 ≠ f.id) :
    ((b.setCard c { card with stage }).setHeld card.target rest).Exclusive := by
  have hc : b.claim? c = some (card.target, f.id, who) := by
    rw [claim?_of_card here, claimOf_eq_some (by rw [leaving]; rfl) known]
  have hclaim : (b.setCard c { card with stage }).claim? = update b.claim? c none := by
    rw [claim?_setCard, claimOf_eq_none empty]
  refine { fresh := fresh_setCard h here, known := known_setCard h known
           mapped := h.mapped, distinct := ?_, mem_held := ?_, unique := ?_ }
  · intro t
    by_cases ht : t = card.target
    · subst ht
      simpa [Board.setHeld] using distinct
    · simpa [Board.setHeld, Board.setCard, ht] using h.distinct t
  · intro t id w
    rw [claim?_setHeld, hclaim]
    -- Other calls hold for this handle elsewhere only, or for other handles.
    have hother : ∀ k, b.claim? k = some (t, id, w) → (k ≠ c ↔ t ≠ card.target ∨ id ≠ f.id) := by
      intro k hk
      constructor
      · intro hne
        by_contra hcon
        push Not at hcon
        obtain ⟨rfl, rfl⟩ := hcon
        exact hne (h.unique k c _ _ _ _ _ hk hc rfl)
      · rintro hne rfl
        rw [hc, Option.some.injEq, Prod.mk.injEq, Prod.mk.injEq] at hk
        obtain ⟨rfl, rfl, -⟩ := hk
        simp at hne
    have hheld : (id, w) ∈ ((b.setCard c { card with stage }).setHeld card.target rest).held t ↔
        (id, w) ∈ b.held t ∧ (t ≠ card.target ∨ id ≠ f.id) := by
      by_cases ht : t = card.target
      · subst ht
        simpa [Board.setHeld] using mem_rest (id, w)
      · simp [Board.setHeld, Board.setCard, ht]
    rw [hheld, h.mem_held]
    constructor
    · rintro ⟨⟨k, hk⟩, hne⟩
      exact ⟨k, by rw [update_of_ne ((hother k hk).mpr hne)]; exact hk⟩
    · rintro ⟨k, hk⟩
      have hne : k ≠ c := by rintro rfl; simp at hk
      rw [update_of_ne hne] at hk
      exact ⟨⟨k, hk⟩, (hother k hk).mp hne⟩
  · intro k k' t t' id w w' hk hk' hs
    rw [claim?_setHeld, hclaim] at hk hk'
    have hne : k ≠ c := by rintro rfl; simp at hk
    have hne' : k' ≠ c := by rintro rfl; simp at hk'
    rw [update_of_ne hne] at hk
    rw [update_of_ne hne'] at hk'
    exact h.unique k k' t t' id w w' hk hk' hs

/-! ## Turns keep the invariant -/

/-- What is left of a list without the one entry for a handle. -/
theorem mem_of_perm_cons {l rest : List (FlagId × Initiator)} {id : FlagId} {w : Initiator}
    (hl : (l.map (·.1)).Nodup) (h : l.Perm ((id, w) :: rest)) :
    (rest.map (·.1)).Nodup ∧ ∀ p, p ∈ rest ↔ p ∈ l ∧ p.1 ≠ id := by
  have hnodup : (((id, w) :: rest).map (·.1)).Nodup := (h.map _).nodup_iff.mp hl
  obtain ⟨hnot, hrest⟩ := List.nodup_cons.mp hnodup
  refine ⟨hrest, fun p => ?_⟩
  rw [h.mem_iff, List.mem_cons]
  constructor
  · intro hp
    exact ⟨Or.inr hp, fun he => hnot (he ▸ List.mem_map_of_mem (f := (·.1)) hp)⟩
  · rintro ⟨rfl | hp, hne⟩
    · exact absurd rfl hne
    · exact hp

theorem Exclusive.turn (h : b.Inv) (turn : Turn b c b') : b'.Exclusive := by
  cases turn with
  | still => exact h.toExclusive
  | @arrives target flag f fresh known => exact h.arrive fresh known
  | @passes card f here outside known set => exact h.restage here (by rw [outside]; rfl)
  | @wins card f who here outside known bare unset free =>
    refine h.take here outside known fun k t w hk hs => ?_
    have ht := eq_of_site_bare bare hs
    subst ht
    exact free w ((h.mem_held _ _ _).mpr ⟨k, hk⟩)
  | @claims card f who o n here outside known table within idle =>
    refine Exclusive.setSlot (h.take here outside known fun k t w hk hs => ?_) o f.id _
    obtain ⟨n', ht⟩ := table_of_site table hs
    have hrun := (h.running k t f.id w o n' hk ht).2
    rw [idle] at hrun
    simp [slotIdle, slotRunning] at hrun
  | @ends card who here inside => exact h.restage here (by rw [inside]; rfl)
  | @retires card f who w rest here leaving known bare taken =>
    obtain ⟨hnodup, hmem⟩ := mem_of_perm_cons (h.distinct card.target) taken
    exact Exclusive.setFlag (h.release here leaving known rfl hnodup hmem) known
  | @settles card f who o n here leaving known table =>
    refine Exclusive.setSlot (h.release here leaving known rfl ?_ ?_) o f.id _
    · exact (h.distinct card.target).sublist (List.filter_sublist.map _)
    · intro p
      simp
  | @marks card f o n here settled known table done =>
    exact (h.restage here (by rw [settled]; rfl)).setFlag known
  | @observes card f o n here outside known table done => exact h.setFlag known

theorem slot?_setSlot_of_ne {o o' : Nat} {id id' : FlagId} (v : UInt32)
    (h : ¬(o' = o ∧ id' = id)) : (b.setSlot o id v).slot? o' id' = b.slot? o' id' := by
  by_cases ho : o' = o
  · subst ho
    have hid : id' ≠ id := fun he => h ⟨rfl, he⟩
    simp [setSlot, hid]
  · simp [setSlot, ho]

@[simp] theorem slot?_setSlot_self (b : Board) (o : Nat) (id : FlagId) (v : UInt32) :
    (b.setSlot o id v).slot? o id = some v := by
  simp [setSlot]

/-- A slot that somebody else holds is not the one that a call settles. -/
theorem Inv.slot_ne (h : b.Inv) {k : Nat} {t t' o o' : Nat} {id id' : FlagId} {w w' : Initiator}
    {n n' : UInt32} (hc : b.claim? c = some (t, id, w)) (ht : b.table? t = some (o, n))
    (hk : b.claim? k = some (t', id', w')) (ht' : b.table? t' = some (o', n')) (hne : k ≠ c) :
    ¬(o' = o ∧ id' = id) := by
  rintro ⟨rfl, rfl⟩
  exact hne (h.unique k c t' t id' w' w hk hc (by rw [site_of_table ht, site_of_table ht']))

/-- What is held in a slot table stays running. -/
theorem Inv.running_turn (h : b.Inv) (turn : Turn b c b') :
    ∀ k t id w o n, b'.claim? k = some (t, id, w) → b'.table? t = some (o, n) →
      id.index < n ∧ b'.slot? o id = some slotRunning := by
  cases turn with
  | still => exact h.running
  | @arrives target flag f fresh known =>
    subst fresh
    rw [claim?_setNext, claim?_arrive h.toExclusive]
    exact h.running
  | @passes card f here outside known set =>
    rw [claim?_restage here (by rw [outside]; rfl)]
    exact h.running
  | @wins card f who here outside known bare unset free =>
    intro k t id w o n hk ht
    rw [claim?_setHeld, claim?_setCard] at hk
    by_cases hkc : k = c
    · subst hkc
      simp only [update_self, claimOf, Stage.holder?, known, Option.bind_some, Option.map_some,
        Option.some.injEq, Prod.mk.injEq] at hk
      rw [← hk.1] at ht
      change b.table? card.target = some (o, n) at ht
      rw [bare] at ht
      cases ht
    · rw [update_of_ne hkc] at hk
      exact h.running k t id w o n hk ht
  | @claims card f who o n here outside known table within idle =>
    intro k t id w o' n' hk ht
    change b.table? t = some (o', n') at ht
    rw [claim?_setSlot, claim?_setHeld, claim?_setCard] at hk
    by_cases hkc : k = c
    · subst hkc
      simp only [update_self, claimOf, Stage.holder?, known, Option.bind_some, Option.map_some,
        Option.some.injEq, Prod.mk.injEq] at hk
      obtain ⟨rfl, rfl, rfl⟩ := hk
      rw [table, Option.some.injEq, Prod.mk.injEq] at ht
      obtain ⟨rfl, rfl⟩ := ht
      exact ⟨within, slot?_setSlot_self ..⟩
    · rw [update_of_ne hkc] at hk
      obtain ⟨hn, hrun⟩ := h.running k t id w o' n' hk ht
      by_cases hs : o' = o ∧ id = f.id
      · obtain ⟨rfl, rfl⟩ := hs
        exact ⟨hn, slot?_setSlot_self ..⟩
      · exact ⟨hn, by rw [slot?_setSlot_of_ne _ hs]; exact hrun⟩
  | @ends card who here inside =>
    rw [claim?_restage here (by rw [inside]; rfl)]
    exact h.running
  | @retires card f who w rest here leaving known bare taken =>
    intro k t id w' o n hk ht
    have hcard : ((b.setCard c { card with stage := .outside }).setHeld card.target rest).flag?
        card.flag = some f := known
    rw [claim?_setFlag hcard, claim?_setHeld, claim?_setCard, claimOf_eq_none rfl] at hk
    have hne : k ≠ c := by rintro rfl; simp at hk
    rw [update_of_ne hne] at hk
    exact h.running k t id w' o n hk ht
  | @settles card f who o n here leaving known table =>
    intro k t id w o' n' hk ht
    rw [claim?_setSlot, claim?_setHeld, claim?_setCard, claimOf_eq_none rfl] at hk
    have hne : k ≠ c := by rintro rfl; simp at hk
    rw [update_of_ne hne] at hk
    obtain ⟨hn, hrun⟩ := h.running k t id w o' n' hk ht
    have hc : b.claim? c = some (card.target, f.id, who) := by
      rw [claim?_of_card here, claimOf_eq_some (by rw [leaving]; rfl) known]
    refine ⟨hn, ?_⟩
    rw [slot?_setSlot_of_ne _ (h.slot_ne hc table hk ht hne)]
    exact hrun
  | @marks card f o n here settled known table done =>
    have hcard : (b.setCard c { card with stage := .outside }).flag? card.flag = some f := known
    rw [claim?_setFlag hcard, claim?_restage here (by rw [settled]; rfl)]
    exact h.running
  | @observes card f o n here outside known table done =>
    rw [claim?_setFlag known]
    exact h.running

end Board

/-! ## What a turn leaves alone -/

section

variable {b b' : Board} {c : Nat}

theorem Turn.card?_of_ne (turn : Turn b c b') {k : Nat} (hk : k ≠ c) : b'.card? k = b.card? k := by
  cases turn with
  | still => rfl
  | observes => rfl
  | _ => exact update_of_ne hk _ _

theorem Turn.table?_eq (turn : Turn b c b') : b'.table? = b.table? := by
  cases turn <;> rfl

/-- A flag keeps its handle. -/
theorem Turn.flag_id (turn : Turn b c b') (f : Nat) :
    (b'.flag? f).map Flag.id = (b.flag? f).map Flag.id := by
  have hset {g : Nat} {flag : Flag} (known : b.flag? g = some flag) :
      (update b.flag? g (some flag.complete) f).map Flag.id = (b.flag? f).map Flag.id := by
    by_cases hg : f = g
    · subst hg
      rw [update_self, known]
      rfl
    · rw [update_of_ne hg]
  cases turn with
  | retires here leaving known => exact hset known
  | marks here settled known => exact hset known
  | observes here outside known => exact hset known
  | _ => rfl

/-- What others have in flight stays theirs. -/
theorem Turn.claim?_of_ne (turn : Turn b c b') {k : Nat} (hk : k ≠ c) :
    b'.claim? k = b.claim? k := by
  have hclaim (card : Card) : b'.claimOf card = b.claimOf card := by
    have hmap (b : Board) : b.claimOf card = card.stage.holder?.bind fun who =>
        ((b.flag? card.flag).map Flag.id).map fun id => (card.target, id, who) := by
      simp [Board.claimOf, Function.comp_def]
    rw [hmap, hmap, turn.flag_id card.flag]
  rw [Board.claim?, Board.claim?, turn.card?_of_ne hk]
  exact congrArg _ (funext hclaim)

/-- A slot that changes is idle and claimed, or settled by a call that leaves. -/
theorem Turn.slot?_cases (turn : Turn b c b') (o : Nat) (id : FlagId) :
    b'.slot? o id = b.slot? o id ∨
    (b.slot? o id = some slotIdle ∧ b'.slot? o id = some slotRunning) ∨
    ∃ card flag n who, b.card? c = some card ∧ b.flag? card.flag = some flag ∧ flag.id = id ∧
      b.table? card.target = some (o, n) ∧ card.stage = .leaving who ∧
      b'.card? c = some { card with stage := .settled } ∧ b'.slot? o id = some slotDone := by
  cases turn with
  | @claims card f who o' n here outside known table within idle =>
    by_cases hs : o = o' ∧ id = f.id
    · obtain ⟨rfl, rfl⟩ := hs
      exact Or.inr (Or.inl ⟨idle, Board.slot?_setSlot_self ..⟩)
    · exact Or.inl (Board.slot?_setSlot_of_ne _ hs)
  | @settles card f who o' n here leaving known table =>
    by_cases hs : o = o' ∧ id = f.id
    · obtain ⟨rfl, rfl⟩ := hs
      exact Or.inr (Or.inr ⟨card, f, n, who, here, known, rfl, table, leaving, update_self ..,
        Board.slot?_setSlot_self ..⟩)
    · exact Or.inl (Board.slot?_setSlot_of_ne _ hs)
  | _ => exact Or.inl rfl

/-- A slot stays done. -/
theorem Turn.slot?_done (turn : Turn b c b') {o : Nat} {id : FlagId}
    (done : b.slot? o id = some slotDone) : b'.slot? o id = some slotDone := by
  rcases turn.slot?_cases o id with hsame | ⟨hidle, -⟩ | ⟨_, _, _, _, _, _, _, _, _, _, h⟩
  · rw [hsame]
    exact done
  · rw [done] at hidle
    cases hidle
  · exact h

/-- What is settled is done. -/
theorem Board.Inv.settled_turn (h : b.Inv) (turn : Turn b c b') :
    ∀ k card f, b'.card? k = some card → card.stage = .settled → b'.flag? card.flag = some f →
      ∃ o n, b'.table? card.target = some (o, n) ∧ f.id.index < n ∧
        b'.slot? o f.id = some slotDone := by
  intro k card f hk hsettled hf
  -- Unless the call settles its slot now, it was settled before.
  have hbefore (here : b.card? k = some card) : ∃ o n, b'.table? card.target = some (o, n) ∧
      f.id.index < n ∧ b'.slot? o f.id = some slotDone := by
    obtain ⟨g, hg⟩ := h.known k card here
    have hid := turn.flag_id card.flag
    rw [hf, hg, Option.map_some, Option.map_some, Option.some.injEq] at hid
    obtain ⟨o, n, table, within, done⟩ := h.settled k card g here hsettled hg
    exact ⟨o, n, by rw [turn.table?_eq, table], hid ▸ within, hid ▸ turn.slot?_done done⟩
  by_cases hkc : k = c
  · subst hkc
    have hnow {new : Card} (hnew : b'.card? k = some new) (hstage : new.stage ≠ .settled) :
        ∃ o n, b'.table? card.target = some (o, n) ∧ f.id.index < n ∧
          b'.slot? o f.id = some slotDone := by
      rw [hk] at hnew
      cases hnew
      exact absurd hsettled hstage
    cases turn with
    | still => exact hbefore hk
    | observes => exact hbefore hk
    | @settles mine g who o n here leaving known table =>
      have hcard : some card = some { mine with stage := .settled } :=
        hk.symm.trans (update_self ..)
      cases hcard
      have hflag : some f = some g := hf.symm.trans known
      cases hflag
      have hclaim : b.claim? k = some (mine.target, f.id, who) := by
        rw [claim?_of_card here, claimOf_eq_some (by rw [leaving]; rfl) known]
      exact ⟨o, n, table, (h.running k _ _ _ o n hclaim table).1, slot?_setSlot_self ..⟩
    | arrives => exact hnow (update_self ..) (by simp)
    | passes => exact hnow (update_self ..) (by simp)
    | wins => exact hnow (update_self ..) (by simp)
    | claims => exact hnow (update_self ..) (by simp)
    | ends => exact hnow (update_self ..) (by simp)
    | retires => exact hnow (update_self ..) (by simp)
    | marks => exact hnow (update_self ..) (by simp)
  · exact hbefore (turn.card?_of_ne hkc ▸ hk)

/-- **Every turn keeps the invariant.** -/
theorem Board.Inv.turn (h : b.Inv) (turn : Turn b c b') : b'.Inv :=
  ⟨Exclusive.turn h turn, h.running_turn turn, h.settled_turn turn⟩

end

end RunOnce.Protocol
