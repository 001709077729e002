import Mathlib.Data.List.Basic
import Mathlib.Logic.Function.Basic
import RunOnce.Flag

/-!
# What waiting depends on

**The hall** (`Hall`). Of all that calls share, waiting depends on a few things only: what each call
goes for, how far it is (`Seat`), who queues for each handle of each target, and which flags are
set.

**Shifts** (`Shift`). Every atomic step changes the hall in one of nine ways, or not at all. A call
queues only behind the one that has an initialization for its handle in flight; that one takes the
whole queue when it sets its flag, and then hands control to one waiter after another. One behind
which nobody queues may settle first, and set its flag afterwards.

**Those ahead** (`Hall.ahead`) are the waiters that a call has still to hand control to. A waiter
that queues comes last among them, and the one that is handed control was the first
(`Shift.ahead`).

**The invariant** (`Hall.Inv`). A queue belongs to a call in flight, a waiter whose signal is not
raised is among those ahead of some call, and a call goes on only when a flag for its handle is set.
`Hall.Inv.shift` keeps it.
-/

namespace RunOnce.Protocol

open Function

/-- How far a call is. -/
inductive Seat
  /-- It has not entered yet. -/
  | early
  /-- It looks at a slot. -/
  | polling
  /-- It has an initialization in flight. -/
  | holding
  /-- It waits, and its signal is raised or not. -/
  | waiting (raised : Bool)
  /-- It has nothing in flight any more, and its flag comes next. -/
  | settled
  /-- It has nothing in flight any more, and these are left to be handed control. -/
  | handing (left : List Nat)
  /-- It is about to make sure that its flag is set. -/
  | finishing
  | ended
deriving DecidableEq

namespace Seat

/-- Those who are left to be handed control. -/
def left : Seat → List Nat
  | .handing left => left
  | _ => []

/-- Whether nobody depends on a call that is here. -/
def isFree : Seat → Bool
  | .holding | .handing (_ :: _) => false
  | _ => true

def isWaiting : Seat → Bool
  | .waiting _ => true
  | _ => false

/-- Whether a call that is here waits for nobody, and nobody depends on it. -/
def isPlain : Seat → Bool
  | .polling | .finishing | .ended => true
  | _ => false

/-- Whether a call that is here will never have anything in flight. -/
def isLate : Seat → Bool
  | .early | .holding => false
  | _ => true

/-- Where a call is that is handed control; it matters only if it waits. -/
def raise : Seat → Seat
  | .waiting _ => .waiting true
  | seat => seat

variable {seat : Seat}

theorem left_of_isFree (free : seat.isFree = true) : seat.left = [] := by
  cases seat with
  | handing left =>
    cases left with
    | nil => rfl
    | cons => cases free
  | _ => rfl

theorem isFree_of_isPlain (plain : seat.isPlain = true) : seat.isFree = true := by
  cases seat with
  | polling | finishing | ended => rfl
  | _ => cases plain

theorem isLate_of_isPlain (plain : seat.isPlain = true) : seat.isLate = true := by
  cases seat with
  | polling | finishing | ended => rfl
  | _ => cases plain

theorem isWaiting_of_isPlain (plain : seat.isPlain = true) : seat.isWaiting = false := by
  cases seat with
  | polling | finishing | ended => rfl
  | _ => cases plain

theorem isLate_of_isWaiting (waiting : seat.isWaiting = true) : seat.isLate = true := by
  cases seat with
  | waiting => rfl
  | _ => cases waiting

@[simp] theorem left_raise : seat.raise.left = seat.left := by
  cases seat <;> rfl

@[simp] theorem isLate_raise : seat.raise.isLate = seat.isLate := by
  cases seat <;> rfl

/-- Only who waits is somewhere else when control is handed. -/
theorem eq_of_raise {seat' : Seat} (raised : seat.raise = seat') (other : seat' ≠ .waiting true) :
    seat = seat' := by
  cases seat with
  | waiting => exact absurd raised.symm other
  | _ => exact raised

end Seat

/-- What waiting depends on in a state. -/
@[ext]
structure Hall where
  /-- The target that a call goes through, and the handle that it goes for. -/
  place? : Nat → Option (Nat × FlagId)
  /-- The flag that a call wants set. -/
  flag : Nat → Nat
  seat : Nat → Seat
  /-- Who queues for a handle of a target, in order of arrival. -/
  queue : Nat × FlagId → List Nat
  isSet : Nat → Bool

namespace Hall

/-- The hall with a call somewhere else. -/
def setSeat (h : Hall) (c : Nat) (seat : Seat) : Hall := { h with seat := update h.seat c seat }

/-- The hall with another queue. -/
def setQueue (h : Hall) (p : Nat × FlagId) (l : List Nat) : Hall :=
  { h with queue := update h.queue p l }

/-- The hall with a flag set. -/
def setFlag (h : Hall) (f : Nat) : Hall := { h with isSet := update h.isSet f true }

/-- The hall with a call that has just been issued. -/
def arrive (h : Hall) (c : Nat) (p : Nat × FlagId) (f : Nat) : Hall :=
  { h with place? := update h.place? c (some p), flag := update h.flag c f,
           seat := update h.seat c .early }

/-- The hall with a call handed control. -/
def raise (h : Hall) (k : Nat) : Hall := h.setSeat k (h.seat k).raise

/-- The call has an initialization in flight. -/
def Holds (h : Hall) (w : Nat) (p : Nat × FlagId) : Prop :=
  h.seat w = .holding ∧ h.place? w = some p

/-- The waiters that a call has still to hand control to, in order. -/
def ahead (h : Hall) (w : Nat) : List Nat :=
  match h.seat w with
  | .holding => ((h.place? w).map h.queue).getD []
  | .handing left => left
  | _ => []

/-- A flag for the handle of the call is set, of a call through the same target. -/
def Released (h : Hall) (k : Nat) : Prop :=
  ∃ w p, h.place? w = some p ∧ h.place? k = some p ∧ h.isSet (h.flag w) = true

end Hall

/-- One change of the hall by a call. -/
inductive Shift (h : Hall) (c : Nat) : Hall → Prop
  /-- Nothing changes that waiting depends on. -/
  | still : Shift h c h
  | arrives (p : Nat × FlagId) (f : Nat) (new : h.place? c = none) (idle : h.seat c = .ended) :
      Shift h c (h.arrive c p f)
  /-- The call goes on, to the end only if a flag is set, it was told so, or it has set it. -/
  | goes {p : Nat × FlagId} {seat : Seat} (here : h.place? c = some p)
      (free : (h.seat c).isFree = true) (plain : seat.isPlain = true)
      (cause : seat = .finishing →
        h.isSet (h.flag c) = true ∨ h.seat c = .waiting true ∨ h.seat c = .handing []) :
      Shift h c (h.setSeat c seat)
  | joins {p : Nat × FlagId} {w : Nat} (here : h.place? c = some p) (early : h.seat c = .early)
      (holder : h.Holds w p) :
      Shift h c ((h.setSeat c (.waiting false)).setQueue p (h.queue p ++ [c]))
  | wins {p : Nat × FlagId} (here : h.place? c = some p) (early : h.seat c = .early)
      (free : ∀ w, ¬h.Holds w p) : Shift h c (h.setSeat c .holding)
  /-- The call sees that its slot is done. -/
  | observes {p : Nat × FlagId} (here : h.place? c = some p) (polling : h.seat c = .polling) :
      Shift h c ((h.setSeat c .finishing).setFlag (h.flag c))
  /-- The flag is set, and the call takes its queue. -/
  | retires {p : Nat × FlagId} (holds : h.Holds c p) (alone : ∀ w, h.Holds w p → w = c) :
      Shift h c (((h.setSeat c (.handing (h.queue p))).setQueue p []).setFlag (h.flag c))
  /-- The call has nothing in flight any more, and nobody queues behind it. -/
  | settles {p : Nat × FlagId} (holds : h.Holds c p) (nobody : h.queue p = []) :
      Shift h c (h.setSeat c .settled)
  /-- The flag is set by a call that has settled. -/
  | marks {p : Nat × FlagId} (here : h.place? c = some p) (settled : h.seat c = .settled) :
      Shift h c ((h.setSeat c (.handing [])).setFlag (h.flag c))
  | hands {k : Nat} {rest : List Nat} (handing : h.seat c = .handing (k :: rest)) :
      Shift h c ((h.setSeat c (.handing rest)).raise k)

namespace Hall

/-- What holds of the hall at any time. -/
structure Inv (h : Hall) : Prop where
  /-- Who queues somewhere goes for that handle. -/
  member : ∀ p, ∀ k ∈ h.queue p, h.place? k = some p
  /-- Nobody queues where nothing is in flight. -/
  held : ∀ p, ∀ k ∈ h.queue p, ∃ w, h.Holds w p
  /-- Who is handing control has set its flag, for the handle that the waiters go for. -/
  handing : ∀ w left, h.seat w = .handing left → h.isSet (h.flag w) = true ∧
    ∃ p, h.place? w = some p ∧ ∀ k ∈ left, h.place? k = some p
  /-- No waiter is lost. -/
  found : ∀ k, h.seat k = .waiting false → ∃ w, k ∈ h.ahead w
  released : ∀ k, h.seat k = .waiting true ∨ h.seat k = .finishing → h.Released k

variable {h h' : Hall} {c k w : Nat} {p q : Nat × FlagId} {seat : Seat}

/-! ## The hall after updates -/

@[simp] theorem seat_setSeat_self (h : Hall) (c : Nat) (seat : Seat) :
    (h.setSeat c seat).seat c = seat := update_self ..

theorem seat_setSeat_of_ne (hk : k ≠ c) (seat : Seat) : (h.setSeat c seat).seat k = h.seat k :=
  update_of_ne hk ..

@[simp] theorem queue_setQueue_self (h : Hall) (p : Nat × FlagId) (l : List Nat) :
    (h.setQueue p l).queue p = l := update_self ..

theorem queue_setQueue_of_ne (hq : q ≠ p) (l : List Nat) : (h.setQueue p l).queue q = h.queue q :=
  update_of_ne hq ..

theorem isSet_setFlag {f g : Nat} : (h.setFlag f).isSet g = true ↔ g = f ∨ h.isSet g = true := by
  by_cases hg : g = f
  · simp [setFlag, hg]
  · simp [setFlag, hg]

/-- Handing control to a waiter leaves the call itself where it is. -/
theorem seat_hands (h : Hall) (c k : Nat) (rest : List Nat) :
    ((h.setSeat c (.handing rest)).raise k).seat c = .handing rest := by
  by_cases hk : c = k
  · subst hk
    simp [raise, Seat.raise]
  · rw [raise, seat_setSeat_of_ne hk, seat_setSeat_self]

theorem setSeat_eq_self (same : h.seat c = seat) : h.setSeat c seat = h := by
  rw [← same, setSeat, update_eq_self]

/-! ## Those ahead of a call -/

theorem ahead_of_holds (holds : h.Holds w p) : h.ahead w = h.queue p := by
  simp [ahead, holds.1, holds.2]

theorem ahead_of_seat (hs : h.seat w ≠ .holding) : h.ahead w = (h.seat w).left := by
  unfold ahead
  cases hseat : h.seat w with
  | holding => exact absurd hseat hs
  | _ => rfl

theorem ahead_of_isFree (free : (h.seat w).isFree = true) : h.ahead w = [] := by
  have hne : h.seat w ≠ .holding := by
    intro he
    rw [he] at free
    cases free
  rw [ahead_of_seat hne, Seat.left_of_isFree free]

/-- Whether a call has in flight what another one goes for. -/
def guards (h : Hall) (w k : Nat) : Bool :=
  decide (h.seat w = .holding) && decide (h.place? w = h.place? k)

/-- The call `c`, if it starts to wait for `w`. -/
def joins? (h h' : Hall) (c w : Nat) : Option Nat :=
  if !(h.seat c).isWaiting && (h'.seat c).isWaiting && h.guards w c then some c else none

/-- The waiter that `w` hands control to: the next one, once only the others are left. -/
def hands? (h h' : Hall) (w : Nat) : Option Nat :=
  match (h.seat w).left with
  | [] => none
  | k :: rest => if (h'.seat w).left = rest then some k else none

theorem joins?_of_not (hc : (h'.seat c).isWaiting = true → (h.seat c).isWaiting = true) :
    h.joins? h' c w = none := by
  cases hbefore : (h.seat c).isWaiting <;> cases hafter : (h'.seat c).isWaiting <;>
    simp_all [joins?]

theorem hands?_of_left (hw : (h'.seat w).left = (h.seat w).left) : h.hands? h' w = none := by
  unfold hands?
  rw [hw]
  cases (h.seat w).left <;> simp

theorem hands?_of_nil (hw : (h.seat w).left = []) : h.hands? h' w = none := by
  rw [hands?, hw]

end Hall

section

variable {h h' : Hall} {c k w : Nat} {p : Nat × FlagId}

open Hall

/-! ## What a shift changes -/

/-- What a shift does to the seat of the call that makes it. -/
inductive Hall.Step (h : Hall) (c : Nat) (h' : Hall) : Seat → Seat → Prop
  | same (seat : Seat) : Step h c h' seat seat
  | arrives (new : h.place? c = none) : Step h c h' .ended .early
  | goes {p : Nat × FlagId} {before after : Seat} (here : h.place? c = some p)
      (free : before.isFree = true) (plain : after.isPlain = true)
      (cause : after = .finishing →
        h'.isSet (h.flag c) = true ∨ before = .waiting true ∨ before = .handing []) :
      Step h c h' before after
  | joins {p : Nat × FlagId} {w : Nat} (here : h.place? c = some p) (holder : h.Holds w p)
      (joined : h' = (h.setSeat c (.waiting false)).setQueue p (h.queue p ++ [c])) :
      Step h c h' .early (.waiting false)
  | wins : Step h c h' .early .holding
  | retires {p : Nat × FlagId} (here : h.place? c = some p) (set : h'.isSet (h.flag c) = true)
      (taken : h'.queue p = []) : Step h c h' .holding (.handing (h.queue p))
  | settles {p : Nat × FlagId} (here : h.place? c = some p) (nobody : h'.queue p = []) :
      Step h c h' .holding .settled
  | marks {p : Nat × FlagId} (here : h.place? c = some p) (set : h'.isSet (h.flag c) = true) :
      Step h c h' .settled (.handing [])
  | hands {k : Nat} {rest : List Nat} (handed : h' = (h.setSeat c (.handing rest)).raise k) :
      Step h c h' (.handing (k :: rest)) (.handing rest)

theorem Shift.step (shift : Shift h c h') : h.Step c h' (h.seat c) (h'.seat c) := by
  cases shift with
  | still => exact .same _
  | arrives p f new idle =>
    have hnow : (h.arrive c p f).seat c = .early := update_self ..
    rw [idle, hnow]
    exact .arrives new
  | @goes p seat here free plain cause =>
    rw [seat_setSeat_self]
    exact .goes here free plain cause
  | @joins p w here early holder =>
    have hnow : ((h.setSeat c (.waiting false)).setQueue p (h.queue p ++ [c])).seat c =
      .waiting false := seat_setSeat_self ..
    rw [early, hnow]
    exact .joins here holder rfl
  | wins here early =>
    rw [early, seat_setSeat_self]
    exact .wins
  | observes here polling =>
    have hnow : ((h.setSeat c .finishing).setFlag (h.flag c)).seat c = .finishing :=
      seat_setSeat_self ..
    rw [polling, hnow]
    exact .goes here rfl rfl fun _ => Or.inl (isSet_setFlag.mpr (Or.inl rfl))
  | @retires p holds alone =>
    have hnow : (((h.setSeat c (.handing (h.queue p))).setQueue p []).setFlag (h.flag c)).seat c =
      .handing (h.queue p) := seat_setSeat_self ..
    rw [holds.1, hnow]
    exact .retires holds.2 (isSet_setFlag.mpr (Or.inl rfl)) (queue_setQueue_self ..)
  | settles holds nobody =>
    rw [holds.1, seat_setSeat_self]
    exact .settles holds.2 nobody
  | marks here settled =>
    have hnow : ((h.setSeat c (.handing [])).setFlag (h.flag c)).seat c = .handing [] :=
      seat_setSeat_self ..
    rw [settled, hnow]
    exact .marks here (isSet_setFlag.mpr (Or.inl rfl))
  | @hands k rest handing =>
    rw [handing, seat_hands]
    exact .hands rfl

/-- A call goes for the same thing all along. -/
theorem Shift.place?_eq (shift : Shift h c h') (hk : h.place? k = some p) :
    h'.place? k = some p := by
  cases shift with
  | arrives q f new idle =>
    have hne : k ≠ c := by
      rintro rfl
      rw [new] at hk
      cases hk
    exact (update_of_ne hne ..).trans hk
  | _ => exact hk

theorem Shift.flag_eq (shift : Shift h c h') (hk : h.place? k = some p) :
    h'.flag k = h.flag k := by
  cases shift with
  | arrives q f new idle =>
    have hne : k ≠ c := by
      rintro rfl
      rw [new] at hk
      cases hk
    exact update_of_ne hne ..
  | _ => rfl

/-- Flags stay set. -/
theorem Shift.isSet_mono (shift : Shift h c h') {f : Nat} (set : h.isSet f = true) :
    h'.isSet f = true := by
  cases shift with
  | observes => exact isSet_setFlag.mpr (Or.inr set)
  | retires => exact isSet_setFlag.mpr (Or.inr set)
  | marks => exact isSet_setFlag.mpr (Or.inr set)
  | _ => exact set

theorem Shift.released (shift : Shift h c h') (hk : h.Released k) : h'.Released k := by
  obtain ⟨w, p, hw, hp, hset⟩ := hk
  refine ⟨w, p, shift.place?_eq hw, shift.place?_eq hp, ?_⟩
  rw [shift.flag_eq hw]
  exact shift.isSet_mono hset

/-- All that another call can do to a call is to hand it control. -/
theorem Shift.seat_of_ne (shift : Shift h c h') (hk : k ≠ c) : h'.seat k = h.seat k ∨
    ∃ rest, h.seat c = .handing (k :: rest) ∧ h'.seat k = (h.seat k).raise := by
  cases shift with
  | still => exact Or.inl rfl
  | @hands next rest handing =>
    by_cases hn : k = next
    · subst hn
      refine Or.inr ⟨rest, handing, ?_⟩
      rw [raise, seat_setSeat_self, seat_setSeat_of_ne hk]
    · left
      rw [raise, seat_setSeat_of_ne hn, seat_setSeat_of_ne hk]
  | _ => exact Or.inl (update_of_ne hk ..)

theorem Shift.left_of_ne (shift : Shift h c h') (hk : k ≠ c) :
    (h'.seat k).left = (h.seat k).left := by
  rcases shift.seat_of_ne hk with hseat | ⟨-, -, hseat⟩
  · rw [hseat]
  · rw [hseat, Seat.left_raise]

theorem Shift.holding_of_ne (shift : Shift h c h') (hk : k ≠ c) :
    h'.seat k = .holding ↔ h.seat k = .holding := by
  rcases shift.seat_of_ne hk with hseat | ⟨-, -, hseat⟩
  · rw [hseat]
  · rw [hseat]
    constructor
    · intro raised
      exact Seat.eq_of_raise raised (by simp)
    · intro before
      rw [before]
      rfl

/-- A call that waits, or has nothing in flight any more, never has anything in flight again. -/
theorem Shift.isLate (shift : Shift h c h') (hk : h.place? k = some p)
    (late : (h.seat k).isLate = true) : (h'.seat k).isLate = true := by
  by_cases hkc : k = c
  · subst hkc
    have step := shift.step
    generalize h.seat k = before at step late
    generalize h'.seat k = after at step ⊢
    cases step with
    | same => exact late
    | arrives new =>
      rw [new] at hk
      cases hk
    | goes here free plain => exact Seat.isLate_of_isPlain plain
    | wins => cases late
    | joins | retires | settles | marks | hands => rfl
  · rcases shift.seat_of_ne hkc with hseat | ⟨-, -, hseat⟩
    · rwa [hseat]
    · rw [hseat, Seat.isLate_raise]
      exact late

theorem Shift.place?_of_ne (shift : Shift h c h') (hk : k ≠ c) : h'.place? k = h.place? k := by
  cases shift with
  | arrives => exact update_of_ne hk ..
  | _ => rfl

theorem Shift.holds_of_ne (shift : Shift h c h') (hk : k ≠ c) : h'.Holds k p ↔ h.Holds k p := by
  rw [Holds, Holds, shift.holding_of_ne hk, shift.place?_of_ne hk]

/-- Those ahead of another call stay, unless its queue changes. -/
theorem Shift.ahead_of_ne (shift : Shift h c h') (hw : w ≠ c)
    (queue : ∀ p, h.Holds w p → h'.queue p = h.queue p) : h'.ahead w = h.ahead w := by
  have holding := shift.holding_of_ne hw
  by_cases hs : h.seat w = .holding
  · rw [Hall.ahead, Hall.ahead, holding.mpr hs, hs, shift.place?_of_ne hw]
    cases hplace : h.place? w with
    | none => rfl
    | some p => exact queue p ⟨hs, hplace⟩
  · rw [ahead_of_seat hs, ahead_of_seat (mt holding.mp hs), shift.left_of_ne hw]

/-! ## Arrival and order -/

/-- Who starts to wait queues last behind the call that has in flight what it goes for. -/
theorem Shift.of_waits (shift : Shift h c h') (before : (h.seat c).isWaiting = false)
    (after : (h'.seat c).isWaiting = true) :
    h.seat c = .early ∧ ∃ p w, h.place? c = some p ∧ h.Holds w p ∧
      h' = (h.setSeat c (.waiting false)).setQueue p (h.queue p ++ [c]) := by
  have step := shift.step
  generalize h.seat c = seat at step before ⊢
  generalize h'.seat c = seat' at step after
  cases step with
  | same =>
    rw [before] at after
    cases after
  | goes here free plain =>
    rw [Seat.isWaiting_of_isPlain plain] at after
    cases after
  | @joins p w here holder joined => exact ⟨rfl, p, w, here, holder, joined⟩
  | arrives | wins | retires | settles | marks | hands => cases after

/-- Nothing happens to those ahead of a call if nobody joins them and nobody is handed control. -/
theorem ahead_quiet (same : h'.ahead w = h.ahead w)
    (waits : (h'.seat c).isWaiting = true → (h.seat c).isWaiting = true)
    (left : h.hands? h' w = none) :
    h.ahead w ++ (h.joins? h' c w).toList = (h.hands? h' w).toList ++ h'.ahead w := by
  simp [joins?_of_not waits, left, same]

/-- A call on which nobody depends leaves nothing behind, wherever it goes. -/
theorem Shift.ahead_of_free (shift : Shift h c h') (free : (h.seat c).isFree = true)
    (nobody : h'.ahead c = []) (waits : (h'.seat c).isWaiting = false) (queue : h'.queue = h.queue)
    (w : Nat) :
    h.ahead w ++ (h.joins? h' c w).toList = (h.hands? h' w).toList ++ h'.ahead w := by
  have hwaits : (h'.seat c).isWaiting = true → (h.seat c).isWaiting = true := by simp [waits]
  by_cases hw : w = c
  · subst hw
    exact ahead_quiet (nobody.trans (ahead_of_isFree free).symm) hwaits
      (hands?_of_nil (Seat.left_of_isFree free))
  · exact ahead_quiet (shift.ahead_of_ne hw fun _ _ => by rw [queue]) hwaits
      (hands?_of_left (shift.left_of_ne hw))

theorem ahead_join {v : Nat} (here : h.place? c = some p) (early : h.seat c = .early)
    (holder : h.Holds v p)
    (joined : h' = (h.setSeat c (.waiting false)).setQueue p (h.queue p ++ [c]))
    (w : Nat) :
    h.ahead w ++ (h.joins? h' c w).toList = (h.hands? h' w).toList ++ h'.ahead w := by
  subst joined
  have shift := Shift.joins here early holder
  have hseat : ((h.setSeat c (.waiting false)).setQueue p (h.queue p ++ [c])).seat c =
      .waiting false := seat_setSeat_self ..
  by_cases hw : w = c
  · subst hw
    have hnow := (ahead_of_seat (h := (h.setSeat w _).setQueue p _) (by rw [hseat]; simp)).trans
      (congrArg Seat.left hseat)
    have hguards : h.guards w w = false := by simp [guards, early]
    rw [hnow, ahead_of_isFree (by rw [early]; rfl), joins?, hguards,
      hands?_of_nil (by rw [early]; rfl)]
    simp [Seat.left]
  · rw [hands?_of_left (shift.left_of_ne hw)]
    by_cases holds : h.Holds w p
    · have hguards : h.guards w c = true := by simp [guards, holds.1, holds.2, here]
      have hnow : Hall.Holds ((h.setSeat c (.waiting false)).setQueue p (h.queue p ++ [c])) w p :=
        ⟨(seat_setSeat_of_ne hw _).trans holds.1, holds.2⟩
      rw [ahead_of_holds holds, ahead_of_holds hnow, queue_setQueue_self, joins?, hguards, hseat,
        early]
      rfl
    · have hguards : h.guards w c = false := by simpa [guards, Holds, here] using holds
      have hsame := shift.ahead_of_ne hw fun q hq =>
        queue_setQueue_of_ne (h := h.setSeat c _) (by rintro rfl; exact holds hq) _
      rw [hsame, joins?, hguards]
      simp

theorem ahead_retire (holds : h.Holds c p) (alone : ∀ w, h.Holds w p → w = c)
    (retired : h' =
      ((h.setSeat c (.handing (h.queue p))).setQueue p []).setFlag (h.flag c)) (w : Nat) :
    h.ahead w ++ (h.joins? h' c w).toList = (h.hands? h' w).toList ++ h'.ahead w := by
  have shift : Shift h c h' := retired ▸ .retires holds alone
  have hseat : h'.seat c = .handing (h.queue p) := retired ▸ seat_setSeat_self ..
  have hwaits : (h'.seat c).isWaiting = true → (h.seat c).isWaiting = true := by
    simp [hseat, Seat.isWaiting]
  by_cases hw : w = c
  · subst hw
    refine ahead_quiet ?_ hwaits (hands?_of_nil (by rw [holds.1]; rfl))
    rw [ahead_of_holds holds, ahead_of_seat (by rw [hseat]; simp), hseat, Seat.left]
  · refine ahead_quiet (shift.ahead_of_ne hw fun q hq => ?_) hwaits
      (hands?_of_left (shift.left_of_ne hw))
    have hne : q ≠ p := by
      rintro rfl
      exact hw (alone w hq)
    rw [retired]
    exact queue_setQueue_of_ne (h := h.setSeat c _) hne _

theorem ahead_settle (holds : h.Holds c p) (nobody : h.queue p = [])
    (settled : h' = h.setSeat c .settled) (w : Nat) :
    h.ahead w ++ (h.joins? h' c w).toList = (h.hands? h' w).toList ++ h'.ahead w := by
  have shift : Shift h c h' := settled ▸ .settles holds nobody
  have hseat : h'.seat c = .settled := settled ▸ seat_setSeat_self ..
  have hwaits : (h'.seat c).isWaiting = true → (h.seat c).isWaiting = true := by
    simp [hseat, Seat.isWaiting]
  by_cases hw : w = c
  · subst hw
    refine ahead_quiet ?_ hwaits (hands?_of_nil (by rw [holds.1]; rfl))
    rw [ahead_of_holds holds, nobody]
    exact ahead_of_isFree (by rw [hseat]; rfl)
  · refine ahead_quiet (shift.ahead_of_ne hw fun _ _ => ?_) hwaits
      (hands?_of_left (shift.left_of_ne hw))
    rw [settled]
    rfl

theorem ahead_hand {rest : List Nat} (handing : h.seat c = .handing (k :: rest))
    (handed : h' = (h.setSeat c (.handing rest)).raise k) (w : Nat) :
    h.ahead w ++ (h.joins? h' c w).toList = (h.hands? h' w).toList ++ h'.ahead w := by
  have shift : Shift h c h' := handed ▸ .hands handing
  have hseat : h'.seat c = .handing rest := handed ▸ seat_hands h c k rest
  have hwaits : (h'.seat c).isWaiting = true → (h.seat c).isWaiting = true := by
    simp [hseat, Seat.isWaiting]
  by_cases hw : w = c
  · subst hw
    have hhands : h.hands? h' w = some k := by simp [hands?, handing, hseat, Seat.left]
    rw [joins?_of_not hwaits, hhands, ahead_of_seat (by rw [handing]; simp),
      ahead_of_seat (by rw [hseat]; simp), handing, hseat]
    simp [Seat.left]
  · refine ahead_quiet (shift.ahead_of_ne hw fun _ _ => ?_) hwaits
      (hands?_of_left (shift.left_of_ne hw))
    rw [handed]
    rfl

/-- **The order of waiters.** Who starts to wait is the last of those ahead of a call, and who is
handed control was the first. -/
theorem Shift.ahead (inv : h.Inv) (shift : Shift h c h') (w : Nat) :
    h.ahead w ++ (h.joins? h' c w).toList = (h.hands? h' w).toList ++ h'.ahead w := by
  have hfree := shift.ahead_of_free
  cases shift with
  | still => exact ahead_quiet rfl id (hands?_of_left rfl)
  | arrives p f new idle =>
    have hseat : (h.arrive c p f).seat c = .early := update_self ..
    refine hfree (by rw [idle]; rfl) (ahead_of_isFree ?_) ?_ rfl w <;> rw [hseat] <;> rfl
  | @goes p seat here free plain cause =>
    refine hfree free (ahead_of_isFree ?_) ?_ rfl w <;> rw [seat_setSeat_self]
    · exact Seat.isFree_of_isPlain plain
    · exact Seat.isWaiting_of_isPlain plain
  | joins here early holder => exact ahead_join here early holder rfl w
  | @wins p here early free =>
    refine hfree (by rw [early]; rfl) ?_ (by simp [Seat.isWaiting]) rfl w
    rw [ahead_of_holds ⟨seat_setSeat_self .., here⟩]
    refine List.eq_nil_iff_forall_not_mem.mpr fun k hk => ?_
    obtain ⟨v, hv⟩ := inv.held p k hk
    exact free v hv
  | @observes p here polling =>
    have hseat : ((h.setSeat c .finishing).setFlag (h.flag c)).seat c = .finishing :=
      seat_setSeat_self ..
    refine hfree (by rw [polling]; rfl) (ahead_of_isFree ?_) ?_ rfl w <;> rw [hseat] <;> rfl
  | retires holds alone => exact ahead_retire holds alone rfl w
  | settles holds nobody => exact ahead_settle holds nobody rfl w
  | @marks p here settled =>
    have hseat : ((h.setSeat c (.handing [])).setFlag (h.flag c)).seat c = .handing [] :=
      seat_setSeat_self ..
    refine hfree (by rw [settled]; rfl) (ahead_of_isFree ?_) ?_ rfl w <;> rw [hseat] <;> rfl
  | hands handing => exact ahead_hand handing rfl w

/-! ## Shifts keep the invariant -/

theorem Shift.mem_queue (shift : Shift h c h') (hk : k ∈ h'.queue p) :
    (k ∈ h.queue p ∨ k = c ∧ h.place? c = some p ∧ ∃ w, h.Holds w p) := by
  cases shift with
  | @joins q w here early holder =>
    by_cases hp : p = q
    · subst hp
      rw [queue_setQueue_self] at hk
      rcases List.mem_append.mp hk with hk | hk
      · exact Or.inl hk
      · exact Or.inr ⟨List.mem_singleton.mp hk, here, w, holder⟩
    · rw [queue_setQueue_of_ne hp] at hk
      exact Or.inl hk
  | @retires q holds alone =>
    change k ∈ (Hall.setQueue _ q []).queue p at hk
    by_cases hp : p = q
    · subst hp
      rw [queue_setQueue_self] at hk
      cases hk
    · rw [queue_setQueue_of_ne hp] at hk
      exact Or.inl hk
  | _ => exact Or.inl hk

/-- A call gives up what it has in flight only when it takes the queue, or nobody queues. -/
theorem Shift.holds_or (shift : Shift h c h') (holds : h.Holds w p) :
    h'.Holds w p ∨ h'.queue p = [] := by
  by_cases hw : w = c
  · subst hw
    have step := shift.step
    rw [holds.1] at step
    generalize hnow : h'.seat w = now at step
    cases step with
    | same => exact Or.inl ⟨hnow, shift.place?_eq holds.2⟩
    | goes here free => cases free
    | retires here set taken =>
      rw [holds.2] at here
      cases here
      exact Or.inr taken
    | settles here nobody =>
      rw [holds.2] at here
      cases here
      exact Or.inr nobody
  · exact Or.inl ((shift.holds_of_ne hw).mpr holds)

/-- Who has waiters left had more of them before, or takes its queue and sets its flag. -/
theorem Shift.of_handing (shift : Shift h c h') {left : List Nat}
    (handing : h'.seat w = .handing left) :
    (∃ all, h.seat w = .handing all ∧ left ⊆ all) ∨
      w = c ∧ h'.isSet (h.flag c) = true ∧ ∃ p, h.place? c = some p ∧ left ⊆ h.queue p := by
  by_cases hw : w = c
  · subst hw
    have step := shift.step
    rw [handing] at step
    generalize hbefore : h.seat w = before at step
    cases step with
    | same => exact Or.inl ⟨left, rfl, fun _ => id⟩
    | goes here free plain => cases plain
    | @retires p here set => exact Or.inr ⟨rfl, set, p, here, fun _ => id⟩
    | @marks p here set => exact Or.inr ⟨rfl, set, p, here, List.nil_subset _⟩
    | hands => exact Or.inl ⟨_, rfl, List.subset_cons_self ..⟩
  · rcases shift.seat_of_ne hw with hseat | ⟨_, -, hseat⟩
    · exact Or.inl ⟨left, hseat.symm.trans handing, fun _ => id⟩
    · rw [hseat] at handing
      exact Or.inl ⟨left, Seat.eq_of_raise handing (by simp), fun _ => id⟩

/-- Control is handed by the call that takes the step. -/
theorem Shift.of_hands (shift : Shift h c h') (hands : h.hands? h' w = some k) :
    w = c ∧ ∃ rest, h.seat c = .handing (k :: rest) ∧
      h' = (h.setSeat c (.handing rest)).raise k := by
  have hmoved (same : (h'.seat w).left = (h.seat w).left) : False := by
    rw [hands?_of_left same] at hands
    cases hands
  have hsome (nobody : (h.seat w).left = []) : False := by
    rw [hands?_of_nil nobody] at hands
    cases hands
  obtain rfl : w = c := by
    by_contra hne
    exact hmoved (shift.left_of_ne hne)
  refine ⟨rfl, ?_⟩
  have step := shift.step
  rw [hands?] at hands
  generalize h.seat w = before at step hands hmoved hsome ⊢
  generalize h'.seat w = after at step hands hmoved
  cases step with
  | same => exact (hmoved rfl).elim
  | goes here free => exact (hsome (Seat.left_of_isFree free)).elim
  | arrives | joins | wins | retires | settles | marks => exact (hsome rfl).elim
  | @hands next rest handed =>
    obtain rfl : next = k := by simpa [Seat.left] using hands
    exact ⟨rest, rfl, handed⟩

/-- Who waits without a signal did so before, or has just queued. -/
theorem Shift.of_waiting (shift : Shift h c h') (waiting : h'.seat k = .waiting false) :
    h.seat k = .waiting false ∨ k = c ∧ (h.seat c).isWaiting = false := by
  by_cases hk : k = c
  · subst hk
    have step := shift.step
    rw [waiting] at step
    generalize h.seat k = before at step ⊢
    cases step with
    | same => exact Or.inl rfl
    | goes here free plain => cases plain
    | joins => exact Or.inr ⟨rfl, rfl⟩
  · rcases shift.seat_of_ne hk with hseat | ⟨_, -, hseat⟩
    · exact Or.inl (hseat.symm.trans waiting)
    · rw [hseat] at waiting
      exact Or.inl (Seat.eq_of_raise waiting (by simp))

/-- Who has been told to go on was told so before, or by the call that takes the step. -/
theorem Shift.of_raised (shift : Shift h c h') (raised : h'.seat k = .waiting true) :
    h.seat k = .waiting true ∨ ∃ rest, h.seat c = .handing (k :: rest) := by
  by_cases hk : k = c
  · subst hk
    have step := shift.step
    rw [raised] at step
    generalize h.seat k = before at step ⊢
    cases step with
    | same => exact Or.inl rfl
    | goes here free plain => cases plain
  · rcases shift.seat_of_ne hk with hseat | ⟨rest, handing, -⟩
    · exact Or.inl (hseat.symm.trans raised)
    · exact Or.inr ⟨rest, handing⟩

/-- Who is about to make sure that its flag is set was so before, or has reason to be. -/
theorem Shift.of_finishing (shift : Shift h c h') (finishing : h'.seat k = .finishing) :
    h.seat k = .finishing ∨ ∃ p, h.place? k = some p ∧
      (h'.isSet (h.flag k) = true ∨ h.seat k = .waiting true ∨ h.seat k = .handing []) := by
  by_cases hk : k = c
  · subst hk
    have step := shift.step
    rw [finishing] at step
    generalize h.seat k = before at step ⊢
    cases step with
    | same => exact Or.inl rfl
    | goes here free plain cause => exact Or.inr ⟨_, here, cause rfl⟩
  · rcases shift.seat_of_ne hk with hseat | ⟨_, -, hseat⟩
    · exact Or.inl (hseat.symm.trans finishing)
    · rw [hseat] at finishing
      exact Or.inl (Seat.eq_of_raise finishing (by simp))

namespace Hall.Inv

/-- Who waits without a signal is among those ahead of some call. -/
theorem found_shift (inv : h.Inv) (shift : Shift h c h') (waiting : h'.seat k = .waiting false) :
    ∃ w, k ∈ h'.ahead w := by
  rcases shift.of_waiting waiting with before | ⟨rfl, before⟩
  · obtain ⟨w, hw⟩ := inv.found k before
    have hmem := List.mem_append_left (h.joins? h' c w).toList hw
    rw [shift.ahead inv w, List.mem_append, Option.mem_toList] at hmem
    rcases hmem with hands | hnow
    · -- Who is handed control has a signal now.
      obtain ⟨rfl, rest, handing, rfl⟩ := shift.of_hands hands
      have hraised : ((h.setSeat w (.handing rest)).raise k).seat k = .waiting true := by
        have hne : k ≠ w := by
          rintro rfl
          rw [handing] at before
          cases before
        rw [Hall.raise, seat_setSeat_self, seat_setSeat_of_ne hne, before]
        rfl
      rw [hraised] at waiting
      cases waiting
    · exact ⟨w, hnow⟩
  · obtain ⟨early, p, w, here, holder, -⟩ := shift.of_waits before (by rw [waiting]; rfl)
    have hjoins : h.joins? h' k w = some k := by
      simp [joins?, guards, early, waiting, holder.1, holder.2, here, Seat.isWaiting]
    have hnone : h.hands? h' w = none := hands?_of_nil (by rw [holder.1]; rfl)
    have hmem : k ∈ h.ahead w ++ (h.joins? h' k w).toList := by simp [hjoins]
    rw [shift.ahead inv w, hnone] at hmem
    exact ⟨w, hmem⟩

theorem handing_shift (inv : h.Inv) (shift : Shift h c h') {left : List Nat}
    (handing : h'.seat w = .handing left) : h'.isSet (h'.flag w) = true ∧
      ∃ p, h'.place? w = some p ∧ ∀ k ∈ left, h'.place? k = some p := by
  rcases shift.of_handing handing with ⟨all, before, hsub⟩ | ⟨rfl, hset, p, here, hsub⟩
  · obtain ⟨hset, p, hw, hall⟩ := inv.handing w all before
    rw [shift.flag_eq hw]
    exact ⟨shift.isSet_mono hset, p, shift.place?_eq hw,
      fun k hk => shift.place?_eq (hall k (hsub hk))⟩
  · rw [shift.flag_eq here]
    exact ⟨hset, p, shift.place?_eq here,
      fun k hk => shift.place?_eq (inv.member p k (hsub hk))⟩

/-- Who is told to go on has a flag for its handle set. -/
theorem released_of_handing (inv : h.Inv) {left : List Nat} (handing : h.seat w = .handing left) :
    ∀ k ∈ left, h.Released k := by
  intro k hk
  obtain ⟨hset, p, hw, hall⟩ := inv.handing w left handing
  exact ⟨w, p, hw, hall k hk, hset⟩

theorem released_shift (inv : h.Inv) (shift : Shift h c h')
    (seat : h'.seat k = .waiting true ∨ h'.seat k = .finishing) : h'.Released k := by
  rcases seat with raised | finishing
  · rcases shift.of_raised raised with before | ⟨rest, handing⟩
    · exact shift.released (inv.released k (Or.inl before))
    · exact shift.released (inv.released_of_handing handing k List.mem_cons_self)
  · rcases shift.of_finishing finishing with before | ⟨p, here, hset | before | before⟩
    · exact shift.released (inv.released k (Or.inr before))
    · rw [← shift.flag_eq here] at hset
      exact ⟨k, p, shift.place?_eq here, shift.place?_eq here, hset⟩
    · exact shift.released (inv.released k (Or.inl before))
    · obtain ⟨hset, q, hk, -⟩ := inv.handing k [] before
      exact shift.released ⟨k, q, hk, hk, hset⟩

/-- **Every shift keeps the invariant.** -/
theorem shift (inv : h.Inv) (shift : Shift h c h') : h'.Inv where
  member p k hk := by
    rcases shift.mem_queue hk with hk | ⟨rfl, here, -⟩
    · exact shift.place?_eq (inv.member p k hk)
    · exact shift.place?_eq here
  held p k hk := by
    have hholder : ∃ w, h.Holds w p := by
      rcases shift.mem_queue hk with hk | ⟨-, -, holder⟩
      · exact inv.held p k hk
      · exact holder
    obtain ⟨w, hw⟩ := hholder
    rcases shift.holds_or hw with hw | hnone
    · exact ⟨w, hw⟩
    · rw [hnone] at hk
      cases hk
  handing _ _ handing := inv.handing_shift shift handing
  found _ waiting := inv.found_shift shift waiting
  released _ seat := inv.released_shift shift seat

end Hall.Inv

end

end RunOnce.Protocol
