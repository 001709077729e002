import RunOnce.Proofs.Deadlock.Blocker
import RunOnce.Proofs.Exclusion.Closed

/-!
# Calls of a forfeited global

**Forfeited** (`State.Forfeits`). A global is forfeited when it has no value and its flag is closed
at the target to which it is tied: its initializer unwound, its future was dropped, or the race was
lost to another image.

**Concessions** (`Concession`). A step of a call of such a global takes it from one phase to another
in one of sixteen ways, or leaves it where it is (`concession_effect`). None of them leads to an
initializer or to a value, and no step aborts.

**Where this leads.** The phase of a call tells how the call will end (`Phase.fate`), and how many
steps are left to it at most (`Phase.toGo`). A concession keeps the fate, and unless the call waits
to be handed control, it takes the call nearer to the end.
-/

namespace RunOnce.Protocol

open State

variable {α : Type}

/-! ## Phases -/

/-- How a call of a forfeited global ends, whether it goes through a foreign target or not. -/
def Phase.fate (foreign : Bool) (id : FlagId) : Phase α → Outcome α
  | .ended outcome => outcome
  | .marking .unwound | .releasing .unwound | .resuming _ .unwound => .unwound
  | .marking .dropped | .releasing .dropped | .resuming _ .dropped => .dropped
  | .probing | .binding => if foreign then .failed (.foreignContext id) else .missing id
  | _ => .missing id

/-- How many steps a call of a forfeited global takes at most, once it is handed control. -/
def Phase.toGo : Phase α → Nat
  | .ended _ => 0
  | .concluding => 1
  | .arriving | .queued _ | .polling => 2
  | .binding | .contending => 3
  | .probing => 4
  | .marking .returned => 4
  | .marking _ => 3
  | .releasing .returned => 3
  | .releasing _ => 2
  | .resuming waiters .returned => waiters.length + 2
  | .resuming waiters _ => waiters.length + 1
  | .running | .storing _ | .publishing _ | .completing _ => 1

theorem Phase.isOver_of_toGo {phase : Phase α} (done : phase.toGo = 0) : phase.isOver = true := by
  cases phase with
  | ended => rfl
  | marking ending | releasing ending | resuming waiters ending => cases ending <;> cases done
  | _ => cases done

/-- What a step makes of the phase of a call of a forfeited global. -/
inductive Concession (foreign : Bool) (id : FlagId) : Phase α → Phase α → Prop
  | rests (phase : Phase α) : Concession foreign id phase phase
  | asks : Concession foreign id .probing .binding
  | ties (own : foreign = false) : Concession foreign id .binding .arriving
  | strays (other : foreign = true) :
      Concession foreign id .binding (.ended (.failed (.foreignContext id)))
  | sees : Concession foreign id .arriving .concluding
  /-- The flag was set since the call looked at it. -/
  | late : Concession foreign id .contending .concluding
  | loses : Concession foreign id .contending .polling
  | resumes {signal : Signal} (raised : signal.isRaised = true) :
      Concession foreign id (.queued signal) .concluding
  | parks {w : Wakeup} (clear : w.isSet = false) :
      Concession foreign id (.queued (.cell w)) (.queued (.cell w.park))
  | follows : Concession foreign id .polling .concluding
  | marks (ending : Ending) : Concession foreign id (.marking ending) (.releasing ending)
  | releases (ending : Ending) : Concession foreign id (.releasing ending) (.resuming [] ending)
  | hands (waiter : Nat) (rest : List Nat) (ending : Ending) :
      Concession foreign id (.resuming (waiter :: rest) ending) (.resuming rest ending)
  | goesOn : Concession foreign id (.resuming [] .returned) .concluding
  | unwinds : Concession foreign id (.resuming [] .unwound) (.ended .unwound)
  | drops : Concession foreign id (.resuming [] .dropped) (.ended .dropped)
  | misses : Concession foreign id .concluding (.ended (.missing id))

namespace Concession

variable {foreign : Bool} {id : FlagId} {phase phase' : Phase α}

theorem fate_eq (h : Concession foreign id phase phase') :
    phase'.fate foreign id = phase.fate foreign id := by
  cases h with
  | ties own => simp [Phase.fate, own]
  | strays other => simp [Phase.fate, other]
  | marks ending | releases ending | hands waiter rest ending => cases ending <;> rfl
  | _ => rfl

/-- A call that need not wait comes nearer to its end. -/
theorem nearer (h : Concession foreign id phase phase') (free : phase.isSuspended = false) :
    phase'.isSuspended = false ∧ (phase' = phase ∨ phase'.toGo < phase.toGo) := by
  cases h with
  | rests => exact ⟨free, Or.inl rfl⟩
  | parks clear => simp [Phase.isSuspended, Signal.isRaised, clear] at free
  | marks ending | releases ending | hands waiter rest ending =>
    cases ending <;> exact ⟨rfl, Or.inr (Nat.lt_succ_self _)⟩
  | _ => exact ⟨rfl, Or.inr (by simp [Phase.toGo])⟩

end Concession

/-! ## Steps -/

namespace State

variable {s s' : State α} {a : Action α} {c k t : Nat} {call : Call α} {cell₀ cell : LazyCell α}
  {own : List Nat} {notices : List (Notice α)}

/-- A global is given up: it has no value, and its flag is closed at its target. -/
structure Forfeits (s : State α) (k t : Nat) (cell₀ cell : LazyCell α) (own : List Nat) : Prop
    extends s.Guarded k cell₀ cell own where
  bound : cell.bound = some t
  bare : cell.value? = none
  closed : s.board.Closed t cell₀.flag

namespace Forfeits

variable (h : s.Forfeits k t cell₀ cell own) (hc : s.calls.get? c = some call)
  (wanted : call.cell = some k)

include h hc wanted

theorem target_eq (through : call.phase.access.isThrough = true) : call.target = t :=
  Option.some.inj ((h.through c call hc wanted through).symm.trans h.bound)

/-- No call has the initialization of a forfeited global in flight. -/
theorem not_inFlight : call.phase.isInFlight = false := by
  rw [Bool.eq_false_iff]
  intro inFlight
  have through : call.phase.access.isThrough = true := by
    cases hp : call.phase with
    | running | storing | publishing | completing => rfl
    | _ =>
      rw [hp] at inFlight
      cases inFlight
  have hidle := h.closed.idle c call.card (card?_board hc) (h.target_eq hc wanted through)
    ((h.owns c call hc).mp wanted)
  rw [show call.card.stage = call.stage from rfl, holder?_stage, if_pos inFlight] at hidle
  cases hidle

theorem not_running : call.phase ≠ .running := by
  intro running
  have hflight := h.not_inFlight hc wanted
  rw [running] at hflight
  cases hflight

theorem isDone : (s.flagOf call).isDone = true := by
  rw [← isSet_eq, (h.owns c call hc).mp wanted]
  exact h.closed.set

/-- A call of a forfeited global that goes through its slot table has a slot there, which is
done. -/
theorem slot_eq (inv : s.board.Inv) (tied : call.phase.access.isThrough = true) {table : SlotTable}
    (through : s.executorOf call = some (.table table)) :
    (s.flagOf call).id.index < table.slotCount ∧
      s.board.slot? table.mapping.object (s.flagOf call).id = some slotDone := by
  have htable := table?_board through
  have hflag := known_flagOf inv hc
  rw [h.target_eq hc wanted tied] at htable
  rw [(h.owns c call hc).mp wanted] at hflag
  exact h.closed.settled _ _ _ htable hflag

theorem state?_eq (inv : s.board.Inv) (tied : call.phase.access.isThrough = true)
    {table : SlotTable} {v : UInt32} (through : s.executorOf call = some (.table table))
    (seen : table.state? s.image.directory (s.flagOf call).id = some v) : v = slotDone := by
  have hslot := (slot?_board inv through seen).2
  rw [(h.slot_eq hc wanted inv tied through).2] at hslot
  exact (Option.some.inj hslot).symm

theorem slotSeen?_eq (inv : s.board.Inv) (tied : call.phase.access.isThrough = true) {v : UInt32}
    (seen : s.slotSeen? call = some v) : v = slotDone := by
  obtain ⟨table, through⟩ := table_of_slotSeen? seen
  rw [slotSeen?, through] at seen
  exact h.state?_eq hc wanted inv tied through seen

/-- Nobody has a claim on the slot of a forfeited global. -/
theorem not_mem_claims (inv : s.board.Inv) (tied : call.phase.access.isThrough = true)
    {table : SlotTable} {who : Initiator} (through : s.executorOf call = some (.table table))
    (free : table.guard? = none) : ((s.flagOf call).id, who) ∉ table.claims := by
  intro claimed
  have hheld : s.board.held call.target = table.claims := by
    rw [held_board through, Executor.held, SlotTable.unlock_of_free free]
  rw [← hheld] at claimed
  obtain ⟨w, hclaim⟩ := (inv.mem_held _ _ _).mp claimed
  have running := (inv.running _ _ _ _ _ _ hclaim (table?_board through)).2
  rw [(h.slot_eq hc wanted inv tied through).2] at running
  cases running

/-- **A step of a call of a forfeited global** is a concession, and it does not abort. -/
theorem concession_effect (inv : s.board.Inv) (alive : s.violation = none)
    (effect : Effect s c call s' notices) : s'.violation = none ∧
      Concession (decide (call.target ≠ t)) (s.flagOf call).id call.phase (s'.phaseOf c) := by
  have hdone := h.isDone hc wanted
  have hlooked : call.cell.bind s.cells.get? = some cell := by
    rw [wanted]
    exact h.known
  have hflight := h.not_inFlight hc wanted
  have hset {next : State α} {mine : Call α} {foreign : Bool} {id : FlagId}
      (move : Concession foreign id call.phase mine.phase) :
      Concession foreign id call.phase ((next.setCall c mine).phaseOf c) := by
    rwa [phaseOf_setCall]
  have hsame {foreign : Bool} {id : FlagId} :
      Concession foreign id call.phase (s.phaseOf c) := by
    rw [phaseOf_of_get? hc]
    exact .rests _
  have hlock : (s.identify call).2.violation = none := (violation_identify s call).trans alive
  cases effect with
  | rests => exact ⟨alive, hsame⟩
  | skips phase absent =>
    rw [hlooked] at absent
    cases absent
  | finds phase found stored =>
    rw [hlooked] at found
    cases found
    rw [h.bare] at stored
    cases stored
  | asks phase => exact ⟨alive, hset (by rw [phase]; exact .asks)⟩
  | ties phase hwanted found tied =>
    rw [wanted] at hwanted
    cases hwanted
    rw [h.known] at found
    cases found
    have own : t = call.target := (LazyCell.bind_eq_some tied).2.2 t h.bound
    exact ⟨alive, hset (by rw [phase]; exact .ties (decide_eq_false (not_not_intro own.symm)))⟩
  | strays phase hwanted found untied =>
    rw [wanted] at hwanted
    cases hwanted
    rw [h.known] at found
    cases found
    have other : call.target ≠ t := by
      rintro rfl
      simp [LazyCell.bind, h.bound] at untied
    exact ⟨alive, hset (by rw [phase]; exact .strays (decide_eq_true other))⟩
  | sees phase => exact ⟨alive, hset (by rw [phase]; exact .sees)⟩
  | late phase => exact ⟨hlock, hset (by rw [phase]; exact .late)⟩
  | contends _ clear | meets _ _ clear | joins _ _ clear | wins _ _ clear | fails _ clear =>
    rw [hdone] at clear
    cases clear
  | lacks phase through outside =>
    exact absurd (h.slot_eq hc wanted inv (by rw [phase]; rfl) through).1 (outside_iff.mp outside)
  | recurs phase through own free =>
    exact absurd own (h.not_mem_claims hc wanted inv (by rw [phase]; rfl) through free)
  | loses phase => exact ⟨hlock, hset (by rw [phase]; exact .loses)⟩
  | claims phase through other idle =>
    cases h.state?_eq hc wanted inv (by rw [phase]; rfl) through idle
  | resumes phase raised => exact ⟨alive, hset (by rw [phase]; exact .resumes raised)⟩
  | parks phase clear => exact ⟨alive, hset (by rw [phase]; exact .parks clear)⟩
  | follows phase => exact ⟨alive, hset (by rw [phase]; exact .follows)⟩
  | breaks phase seen ended undone =>
    exact absurd (h.slotSeen?_eq hc wanted inv (by rw [phase]; rfl) seen) undone
  | returns phase =>
    rcases phase with phase | phase
    all_goals
      rw [phase] at hflight
      cases hflight
  | reserves phase | discards phase | publishes phase | misses phase | retires phase
    | settles phase =>
    rw [phase] at hflight
    cases hflight
  | @hands waiter rest ending phase =>
    refine ⟨(violation_handOver _ _).trans alive, ?_⟩
    rw [phaseOf_hands, phase]
    exact .hands ..
  | marks phase => exact ⟨alive, hset (by rw [phase]; exact .marks _)⟩
  | releases phase => exact ⟨alive, hset (by rw [phase]; exact .releases _)⟩
  | goesOn phase => exact ⟨alive, hset (by rw [phase]; exact .goesOn)⟩
  | leaves phase cause =>
    refine ⟨alive, hset ?_⟩
    rw [phase]
    rcases cause with ⟨rfl, rfl⟩ | ⟨rfl, rfl⟩
    · exact .unwinds
    · exact .drops
  | concludes phase =>
    have hmissing : s.result call = .missing (s.flagOf call).id := by
      simp only [State.result, wanted, h.known, Option.bind_some, h.bare]
    refine ⟨alive, hset ?_⟩
    rw [phase, hmissing]
    exact .misses

/-- A call of a forfeited global that need not wait gets further. -/
theorem phaseOf_advance_ne (inv : s.board.Inv) (alive : s.violation = none)
    (possible : s.Possible (.advance c)) (target : ∃ target, s.targets.get? call.target = some target)
    (seen : s.HasSeen call call.phase) (active : call.phase.isOver = false)
    (free : call.phase.isSuspended = false) : (s.advance c).1.phaseOf c ≠ call.phase := by
  obtain ⟨target, ht⟩ := target
  have through : s.executorOf call = some target.executor := by
    rw [executorOf, ht]
    rfl
  have safe := (h.concession_effect hc wanted inv alive (effect_advance alive hc)).1
  refine State.phaseOf_advance_ne inv alive possible hc through seen active
    (h.not_running hc wanted) ?_ safe
  rintro ⟨mine, hmine, ⟨signal, queued, unraised⟩ | ⟨polling, running⟩⟩
  · obtain rfl : call = mine := Option.some.inj (hc.symm.trans hmine)
    simp [queued, Phase.isSuspended, unraised] at free
  · obtain rfl : call = mine := Option.some.inj (hc.symm.trans hmine)
    cases h.slotSeen?_eq hc wanted inv (by rw [polling]; rfl) running

end Forfeits

end State

end RunOnce.Protocol
