import RunOnce.Proofs.Waiting.Lock

/-!
# What completing an operation changes

**Parts** (`Part`). When an operation is complete, its slot is done, if it has one, its flag is set,
and its entry is gone from the executor together with its queue. Through a registry all of this is
one step. Through a slot table it is three steps, in this order, and the lock of the table is taken
from the first to the last (`Completion`).

**Changes** (`Retirement`). Such a step changes the parts that it completes. No other flag, entry,
queue or slot changes.
-/

namespace RunOnce

/-- What an executor lists: the operations of a registry, or the claims on a slot table. -/
def Executor.entries : Executor → List (FlagId × Initiator)
  | .registry r => r.held
  | .table t => t.claims

/-- What is in flight is listed. -/
theorem Executor.mem_entries {executor : Executor} {p : FlagId × Initiator}
    (held : p ∈ executor.held) : p ∈ executor.entries := by
  cases executor with
  | registry r => exact held
  | table t =>
    have held : p ∈ t.unlock.claims := held
    show p ∈ t.claims
    cases hguard : t.guard? with
    | none => rwa [SlotTable.unlock_of_free hguard] at held
    | some id =>
      simp only [SlotTable.unlock, hguard] at held
      exact (List.mem_filter.mp held).1

/-- When a lock is given back, the claims on the handle of its guard go. -/
theorem Executor.mem_entries_unlock {executor : Executor} {id : FlagId}
    {claims : List (FlagId × Initiator)} (taken : executor.lock? = some (id, claims))
    (p : FlagId × Initiator) : p ∈ executor.unlock.entries ↔ p ∈ executor.entries ∧ p.1 ≠ id := by
  cases executor with
  | registry r => cases taken
  | table t =>
    obtain ⟨id', hguard, heq⟩ := Option.map_eq_some_iff.mp taken
    obtain rfl : id' = id := congrArg Prod.fst heq
    have hclaims : t.unlock.claims = (t.disclaim id').claims := by
      simp only [SlotTable.unlock, hguard]
    show p ∈ t.unlock.claims ↔ p ∈ t.claims ∧ p.1 ≠ id'
    rw [hclaims, SlotTable.disclaim, List.mem_filter, Bool.not_eq_true', decide_eq_false_iff_not]

end RunOnce

namespace RunOnce.Protocol

open Function State

variable {α : Type}

/-- What a target lists. -/
def State.listed (s : State α) (t : Nat) : List (FlagId × Initiator) :=
  ((s.targets.get? t).map fun target => target.executor.entries).getD []

/-- What there is to complete about an operation. -/
inductive Part
  /-- Its slot is done. -/
  | slot
  /-- Its flag is set. -/
  | flag
  /-- Its entry is gone, and its queue with it. -/
  | entry
deriving DecidableEq

/-- Some parts of the operation of a call are completed, and nothing else changes. -/
structure Retirement (s : State α) (call : Call α) (parts : List Part) (s' : State α) : Prop where
  flag : ∀ f, s'.isSet f = true ↔ s.isSet f = true ∨ .flag ∈ parts ∧ f = call.flag
  entry : ∀ t id who, (id, who) ∈ s'.listed t ↔ (id, who) ∈ s.listed t ∧
    ¬(.entry ∈ parts ∧ (t, id) = (call.target, (s.flagOf call).id))
  queue : ∀ p, s'.waitersFor p =
    if .entry ∈ parts ∧ p = (call.target, (s.flagOf call).id) then [] else s.waitersFor p
  slot : ∀ o id, s'.board.slot? o id =
    if .slot ∈ parts ∧ (s.board.table? call.target).map Prod.fst = some o ∧ id = (s.flagOf call).id
    then some slotDone else s.board.slot? o id

/-- Where a call goes on its way out, and which parts of its operation this completes. -/
inductive Completion (s : State α) (call : Call α) : List Part → Phase α → Prop
  /-- It stays where it is. -/
  | rests : Completion s call [] call.phase
  /-- Its initializer ends, or it leaves without one, or it is done with its operation. -/
  | moves {phase : Phase α} (before : call.phase.isDropping = false)
      (after : phase.isDropping = false) (same : phase.isInFlight = call.phase.isInFlight) :
      Completion s call [] phase
  /-- Its operation leaves a registry with the flag set, and those who waited come next. -/
  | retires {ending : Ending} {r : Registry Nat} (phase : call.phase = .completing ending)
      (through : s.executorOf call = some (.registry r)) : Completion s call [.flag, .entry]
        (.resuming (s.waitersFor (call.target, (s.flagOf call).id)) ending)
  /-- It takes the lock of a slot table, and its slot is done. -/
  | settles {ending : Ending} {t : SlotTable} (phase : call.phase = .completing ending)
      (through : s.executorOf call = some (.table t)) :
      Completion s call [.slot] (.marking ending)
  /-- Its flag is set. -/
  | marks {ending : Ending} (phase : call.phase = .marking ending) :
      Completion s call [.flag] (.releasing ending)
  /-- Its claim goes, and the lock is free. -/
  | releases {ending : Ending} (phase : call.phase = .releasing ending) :
      Completion s call [.entry] (.resuming [] ending)

section

variable {s s' : State α} {c : Nat} {call : Call α} {ending : Ending} {executor : Executor}

/-! ## Reading after updates -/

theorem isSet_completeFlag (inv : s.board.Inv) (hc : s.calls.get? c = some call) (f : Nat) :
    (s.completeFlag call.flag).isSet f = true ↔ s.isSet f = true ∨ f = call.flag := by
  show (s.completeFlag call.flag).hall.isSet f = true ↔ _
  rw [hall_completeFlag (known_flagOf inv hc), Hall.isSet_setFlag, or_comm]
  rfl

theorem listed_of_executorOf (through : s.executorOf call = some executor) :
    s.listed call.target = executor.entries := by
  obtain ⟨target, ht, rfl⟩ := target_of_executorOf through
  rw [listed, ht]
  rfl

theorem listed_setExecutor (through : s.executorOf call = some executor) (executor' : Executor) :
    (s.setExecutor call.target executor').listed =
      update s.listed call.target executor'.entries := by
  obtain ⟨target, ht, -⟩ := target_of_executorOf through
  funext k
  show (((s.targets.modify call.target _).get? k).map _).getD [] = _
  rw [Store.get?_modify]
  by_cases hk : call.target = k
  · subst hk
    rw [if_pos rfl, ht, update_self]
    rfl
  · rw [if_neg hk, update_of_ne (Ne.symm hk)]
    rfl

/-- What is in flight through a target is listed there. -/
theorem mem_listed {t : Nat} {p : FlagId × Initiator} (held : p ∈ s.board.held t) :
    p ∈ s.listed t := by
  have held : p ∈ ((s.targets.get? t).map fun target => target.executor.held).getD [] := held
  unfold listed
  cases ht : s.targets.get? t with
  | none =>
    rw [ht] at held
    cases held
  | some target =>
    rw [ht] at held
    exact Executor.mem_entries held

/-- When a lock is given back, the claims on the handle of its guard go. -/
theorem mem_listed_unlock {t : Nat} {id : FlagId} {claims : List (FlagId × Initiator)}
    (taken : s.lock? t = some (id, claims)) (k : Nat) (p : FlagId × Initiator) :
    p ∈ (s.unlock t).listed k ↔ p ∈ s.listed k ∧ ¬(k = t ∧ p.1 = id) := by
  have hget : (s.unlock t).targets.get? k = if t = k then (s.targets.get? k).map fun target =>
      { target with executor := target.executor.unlock } else s.targets.get? k :=
    Store.get?_modify ..
  rw [listed, listed, hget]
  by_cases hk : t = k
  · subst hk
    obtain ⟨target, ht, held⟩ := Option.bind_eq_some_iff.mp taken
    rw [if_pos rfl, ht]
    simp only [Option.map_some, Option.getD_some, true_and]
    exact Executor.mem_entries_unlock held p
  · simp [if_neg hk, Ne.symm hk]

/-! ## The steps of a completion -/

/-- Where flags, executors and slots are left alone, nothing is completed. -/
theorem retirement_nil (flags : s'.flags = s.flags) (targets : s'.targets = s.targets)
    (image : s'.image = s.image) (call : Call α) : Retirement s call [] s' where
  flag f := by simp [State.isSet, flags]
  entry t id who := by simp [listed, targets]
  queue p := by simp [waitersFor, targets]
  slot o id := by simp [board, image]

theorem retirement_retires {r r' : Registry Nat} {waiters : List Nat} (inv : s.board.Inv)
    (hc : s.calls.get? c = some call) (through : s.executorOf call = some (.registry r))
    (taken : r.retire (s.flagOf call).id = some (waiters, r')) (phase : Phase α) :
    waiters = s.waitersFor (call.target, (s.flagOf call).id) ∧
    Retirement s call [.flag, .entry]
      (((s.completeFlag call.flag).setExecutor call.target (.registry r')).setPhase c call
        phase) := by
  have hdistinct : (r.held.map (·.1)).Nodup := by
    have hheld : s.board.held call.target = r.held := held_board through
    rw [← hheld]
    exact inv.distinct call.target
  obtain ⟨rfl, hqueue⟩ := Registry.waitersOf_retire hdistinct taken
  obtain ⟨w, hperm⟩ := Registry.held_retire taken
  refine ⟨(waitersFor_of_executorOf through _).symm, ?_⟩
  refine { flag := ?_, entry := ?_, queue := ?_, slot := ?_ }
  · intro f
    exact (isSet_completeFlag inv hc f).trans (or_congr_right (and_iff_right (by simp)).symm)
  · intro t id who
    show (id, who) ∈ ((s.completeFlag call.flag).setExecutor call.target (.registry r')).listed t ↔ _
    rw [listed_setExecutor (s := s.completeFlag call.flag) through]
    by_cases ht : t = call.target
    · subst ht
      rw [update_self, listed_of_executorOf through]
      show (id, who) ∈ r'.held ↔ (id, who) ∈ r.held ∧ _
      rw [(Board.mem_of_perm_cons hdistinct hperm).2]
      simp
    · rw [update_of_ne ht]
      simp only [Prod.mk.injEq, ht, false_and, and_false, not_false_eq_true, and_true]
      rfl
  · intro p
    obtain ⟨target, ht, hexec⟩ := target_of_executorOf through
    have hq (id' : FlagId) : (Executor.registry r').waitersOf id' =
        if (s.flagOf call).id = id' then [] else target.executor.waitersOf id' := by
      rw [hexec]
      exact hqueue id'
    have hhall := congrArg Hall.queue
      (hall_setExecutor (s := s.completeFlag call.flag) ht hq)
    rw [hall_completeFlag (known_flagOf inv hc)] at hhall
    refine (congrFun hhall p).trans ?_
    show update s.waitersFor (call.target, (s.flagOf call).id) [] p = _
    simp [update_apply]
  · exact fun o id => (if_neg (by simp)).symm

theorem retirement_settles {t : SlotTable} (inv : s.board.Inv) (hc : s.calls.get? c = some call)
    (phase : call.phase = .completing ending) (through : s.executorOf call = some (.table t)) :
    Retirement s call [.slot] (((s.markSlot t (s.flagOf call).id slotDone).setExecutor call.target
      (.table (t.lock (s.flagOf call).id))).setPhase c call (.marking ending)) := by
  have hclaim := claim?_board inv hc (by rw [holder?_stage, phase]; rfl)
  obtain ⟨within, hrun⟩ := inv.running c _ _ _ _ _ hclaim (table?_board through)
  obtain ⟨object, ho, -⟩ := Option.map_eq_some_iff.mp hrun
  refine { flag := ?_, entry := ?_, queue := ?_, slot := ?_ }
  · exact fun f => (or_iff_left (by simp)).symm
  · intro k id who
    have hlisted : ((s.markSlot t (s.flagOf call).id slotDone).setExecutor call.target
        (.table (t.lock (s.flagOf call).id))).listed = s.listed := by
      rw [listed_setExecutor (s := s.markSlot t (s.flagOf call).id slotDone) through]
      show update s.listed call.target t.claims = s.listed
      rw [update_eq_self_iff, listed_of_executorOf through]
      rfl
    show (id, who) ∈ ((s.markSlot t (s.flagOf call).id slotDone).setExecutor call.target
      (.table (t.lock (s.flagOf call).id))).listed k ↔ _
    rw [hlisted]
    exact (and_iff_left (by simp)).symm
  · intro p
    have hhall : ((s.markSlot t (s.flagOf call).id slotDone).setExecutor call.target
        (.table (t.lock (s.flagOf call).id))).hall = s.hall :=
      hall_setExecutor_same (s := s.markSlot t (s.flagOf call).id slotDone) through rfl
    exact (congrFun (congrArg Hall.queue hhall) p).trans (if_neg (by simp)).symm
  · intro o id
    show (s.markSlot t (s.flagOf call).id slotDone).board.slot? o id = _
    rw [board_markSlot ho within, table?_board through]
    by_cases hs : o = t.mapping.object ∧ id = (s.flagOf call).id
    · obtain ⟨rfl, rfl⟩ := hs
      rw [Board.slot?_setSlot_self, if_pos ⟨by simp, rfl, rfl⟩]
    · rw [Board.slot?_setSlot_of_ne _ hs, if_neg]
      rintro ⟨-, ho', hid⟩
      exact hs ⟨(Option.some.inj ho').symm, hid⟩

theorem retirement_marks (inv : s.board.Inv) (hc : s.calls.get? c = some call) (phase : Phase α) :
    Retirement s call [.flag] ((s.completeFlag call.flag).setPhase c call phase) where
  flag f := (isSet_completeFlag inv hc f).trans (or_congr_right (and_iff_right (by simp)).symm)
  entry t id who := (and_iff_left (by simp)).symm
  queue p := (if_neg (by simp)).symm
  slot o id := (if_neg (by simp)).symm

theorem retirement_releases {claims : List (FlagId × Initiator)}
    (taken : s.lock? call.target = some ((s.flagOf call).id, claims)) (phase : Phase α) :
    Retirement s call [.entry] ((s.unlock call.target).setPhase c call phase) where
  flag f := (or_iff_left (by simp)).symm
  entry t id who := by
    simp only [List.mem_singleton, true_and, Prod.mk.injEq]
    exact mem_listed_unlock taken t (id, who)
  queue p := by
    have hhall : (s.unlock call.target).waitersFor p = s.waitersFor p :=
      congrFun (congrArg Hall.queue (hall_unlock s call.target)) p
    refine hhall.trans ?_
    by_cases hp : p = (call.target, (s.flagOf call).id)
    · subst hp
      obtain ⟨target, ht, held⟩ := Option.bind_eq_some_iff.mp taken
      -- Nobody queues on a slot table.
      have hnobody (id : FlagId) : target.executor.waitersOf id = [] := by
        cases hexec : target.executor with
        | registry r =>
          rw [hexec] at held
          cases held
        | table t => rfl
      rw [if_pos ⟨by simp, rfl⟩, waitersFor, ht]
      exact hnobody _
    · rw [if_neg fun h => hp h.2]
  slot o id := (if_neg (by simp)).symm

end

end RunOnce.Protocol
