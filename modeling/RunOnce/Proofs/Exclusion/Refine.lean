import RunOnce.Proofs.Exclusion.Board
import RunOnce.Proofs.Protocol.Enter
import RunOnce.Proofs.Protocol.Run

/-!
# Actions are turns

**Reading the board off a state** (`State.board`). Then every action is a turn of its subject on
the board (`turn_act`), so the invariant of the board holds after every run (`board_inv`).
-/

namespace RunOnce.Protocol

open Function

variable {α : Type}

/-- How far a call is. -/
def Call.stage (call : Call α) : Stage :=
  match call.phase with
  | .running | .storing _ | .publishing _ => .inside (call.initiator.getD default)
  | .completing _ => .leaving (call.initiator.getD default)
  | .marking _ => .settled
  | .ended (.ok none) => .passed
  | _ => .outside

/-- What exclusion depends on in a call. -/
def Call.card (call : Call α) : Card := ⟨call.target, call.flag, call.stage⟩

end RunOnce.Protocol

namespace RunOnce

/-- What an executor has in flight: the operations of a registry, or the claims on a slot table that
outlast the drop of a guard. -/
def Executor.held : Executor → List (FlagId × Initiator)
  | .registry r => r.held
  | .table t => t.unlock.claims

/-- The object and the number of slots of a slot table. -/
def Executor.table? : Executor → Option (Nat × UInt32)
  | .registry _ => none
  | .table t => some (t.mapping.object, t.slotCount)

@[simp] theorem Executor.held_unlock (executor : Executor) :
    executor.unlock.held = executor.held := by
  cases executor with
  | registry r => rfl
  | table t => simp only [unlock, held, SlotTable.unlock_unlock]

@[simp] theorem Executor.table?_unlock (executor : Executor) :
    executor.unlock.table? = executor.table? := by
  cases executor with
  | registry r => rfl
  | table t => simp only [unlock, table?, SlotTable.mapping_unlock, SlotTable.slotCount_unlock]

end RunOnce

namespace RunOnce.Protocol

open Function Region

variable {α : Type}

namespace State

/-- What exclusion depends on in a state. -/
def board (s : State α) : Board where
  next := s.nextKey
  card? c := (s.calls.get? c).map Call.card
  held t := ((s.targets.get? t).map fun target => target.executor.held).getD []
  flag? := s.flags.get?
  table? t := (s.targets.get? t).bind fun target => target.executor.table?
  slot? o id := (s.image.directory.objects.get? o).map fun object =>
    object.read (headerWords + id.index.toNat)

variable {s : State α} {c : Nat} {call : Call α}

/-! ## The board after updates -/

theorem board_setCall (s : State α) (c : Nat) (call : Call α) :
    (s.setCall c call).board = s.board.setCard c call.card := by
  ext1 <;> try rfl
  funext k
  show ((s.calls.set c call).get? k).map Call.card = update s.board.card? c (some call.card) k
  rw [Store.get?_set]
  by_cases hk : c = k
  · subst hk; simp
  · rw [if_neg hk, update_of_ne (Ne.symm hk)]
    rfl

/-- A call whose card stays the same changes nothing on the board. -/
theorem board_setCall_of_card {call' : Call α} (hc : s.calls.get? c = some call)
    (card : call'.card = call.card) : (s.setCall c call').board = s.board := by
  have hsame : some call'.card = s.board.card? c := by
    show _ = (s.calls.get? c).map Call.card
    rw [hc, card]
    rfl
  rw [board_setCall, Board.setCard, hsame, update_eq_self]

theorem board_completeFlag {f : Nat} {flag : Flag} (hf : s.flags.get? f = some flag) :
    (s.completeFlag f).board = s.board.setFlag f flag.complete := by
  ext1 <;> try rfl
  funext k
  show (s.flags.modify f Flag.complete).get? k = update s.board.flag? f (some flag.complete) k
  rw [Store.get?_modify]
  by_cases hk : f = k
  · subst hk; simp [hf]
  · rw [if_neg hk, update_of_ne (Ne.symm hk)]
    rfl

theorem board_setExecutor {t : Nat} {target : Target} {executor : Executor}
    (ht : s.targets.get? t = some target) (table : executor.table? = target.executor.table?) :
    (s.setExecutor t executor).board = s.board.setHeld t executor.held := by
  have hget (k : Nat) : (s.setExecutor t executor).targets.get? k =
      if t = k then some { target with executor } else s.targets.get? k := by
    show (s.targets.modify t _).get? k = _
    rw [Store.get?_modify]
    by_cases hk : t = k
    · subst hk; simp [ht]
    · simp [hk]
  ext1 <;> try rfl
  · funext k
    show (((s.setExecutor t executor).targets.get? k).map _).getD [] =
      update s.board.held t executor.held k
    rw [hget]
    by_cases hk : t = k
    · subst hk; simp
    · rw [if_neg hk, update_of_ne (Ne.symm hk)]
      rfl
  · funext k
    show ((s.setExecutor t executor).targets.get? k).bind _ = (s.targets.get? k).bind _
    rw [hget]
    by_cases hk : t = k
    · subst hk; simp [ht, table]
    · rw [if_neg hk]

/-- The end of a drop changes nothing that counts as held. -/
@[simp] theorem board_unlock (s : State α) (t : Nat) : (s.unlock t).board = s.board := by
  have hget (k : Nat) : (s.unlock t).targets.get? k = (s.targets.get? k).map fun target =>
      if t = k then { target with executor := target.executor.unlock } else target := by
    show (s.targets.modify t _).get? k = _
    rw [Store.get?_modify]
    by_cases hk : t = k
    · simp [hk]
    · simp [hk]
  ext1 <;> try rfl
  · funext k
    show (((s.unlock t).targets.get? k).map _).getD [] = ((s.targets.get? k).map _).getD []
    rw [hget, Option.map_map]
    congr 2
    funext target
    by_cases hk : t = k <;> simp [hk]
  · funext k
    show ((s.unlock t).targets.get? k).bind _ = (s.targets.get? k).bind _
    rw [hget, Option.bind_map]
    congr 1
    funext target
    by_cases hk : t = k <;> simp [hk]

theorem board_markSlot {t : SlotTable} {id : FlagId} {v : UInt32} {object : Object}
    (ho : s.image.directory.objects.get? t.mapping.object = some object)
    (within : id.index < t.slotCount) :
    (s.markSlot t id v).board = s.board.setSlot t.mapping.object id v := by
  ext1 <;> try rfl
  funext o id'
  have hmark : t.mark s.image.directory id v = s.image.directory.writeWord t.mapping.object
      (headerWords + id.index.toNat) v := by
    simp [SlotTable.mark, SlotTable.wordOf?, within]
  show ((t.mark s.image.directory id v).objects.get? o).map _ =
    update s.board.slot? t.mapping.object
      (update (s.board.slot? t.mapping.object) id (some v)) o id'
  rw [hmark]
  show ((s.image.directory.objects.modify t.mapping.object _).get? o).map _ = _
  rw [Store.get?_modify]
  by_cases hk : t.mapping.object = o
  · subst hk
    by_cases hid : id' = id
    · subst hid; simp [ho]
    · have hword : headerWords + id.index.toNat ≠ headerWords + id'.index.toNat := by
        intro he
        have hi : id.index = id'.index := UInt32.toNat_inj.mp (by omega)
        exact hid (by cases id; cases id'; simp_all)
      simp [ho, hid, Object.read_write_of_ne _ hword, board]
  · rw [if_neg hk, update_of_ne (Ne.symm hk)]
    rfl

@[simp] theorem board_identify (s : State α) (call : Call α) :
    (s.identify call).2.board = s.board := by
  unfold identify
  split <;> rfl

/-! ## The steps of a call -/

theorem card?_board (hc : s.calls.get? c = some call) : s.board.card? c = some call.card := by
  show (s.calls.get? c).map Call.card = _
  rw [hc]
  rfl

/-- The flag of a call, which the board has. -/
theorem known_flagOf (h : s.board.Inv) (hc : s.calls.get? c = some call) :
    s.board.flag? call.flag = some (s.flagOf call) := by
  obtain ⟨f, hf⟩ := h.known c call.card (card?_board hc)
  have hf : s.flags.get? call.flag = some f := hf
  show s.flags.get? call.flag = some ((s.flags.get? call.flag).getD default)
  rw [hf]
  rfl

theorem target_of_executorOf {executor : Executor} (he : s.executorOf call = some executor) :
    ∃ target, s.targets.get? call.target = some target ∧ target.executor = executor :=
  Option.map_eq_some_iff.mp he

theorem held_board {executor : Executor} (he : s.executorOf call = some executor) :
    s.board.held call.target = executor.held := by
  obtain ⟨target, ht, rfl⟩ := target_of_executorOf he
  show ((s.targets.get? call.target).map fun target => target.executor.held).getD [] = _
  rw [ht]
  rfl

theorem table?_board {executor : Executor} (he : s.executorOf call = some executor) :
    s.board.table? call.target = executor.table? := by
  obtain ⟨target, ht, rfl⟩ := target_of_executorOf he
  show (s.targets.get? call.target).bind (fun target => target.executor.table?) = _
  rw [ht]
  rfl

/-- The state of a slot that a table reads, on the board. -/
theorem slot?_board (h : s.board.Inv) {t : SlotTable} {id : FlagId} {v : UInt32}
    (he : s.executorOf call = some (.table t)) (hv : t.state? s.image.directory id = some v) :
    id.index < t.slotCount ∧ s.board.slot? t.mapping.object id = some v := by
  obtain ⟨word, hword, rfl⟩ := Option.map_eq_some_iff.mp hv
  unfold SlotTable.wordOf? at hword
  split at hword
  · rename_i within
    cases hword
    refine ⟨within, ?_⟩
    obtain ⟨w, hw⟩ := h.mapped call.target _ _ (table?_board he) id
    rw [hw]
    obtain ⟨object, ho, rfl⟩ := Option.map_eq_some_iff.mp hw
    rw [Directory.readWord, ho]
    rfl
  · cases hword

/-- A call that stays as far as it is changes nothing on the board. -/
theorem still_setCall {call' : Call α} (hc : s.calls.get? c = some call)
    (target : call'.target = call.target) (flag : call'.flag = call.flag)
    (stage : call'.stage = call.stage) : Turn s.board c (s.setCall c call').board := by
  rw [board_setCall_of_card hc (by rw [Call.card, Call.card, target, flag, stage])]
  exact .still

theorem turn_probe (hc : s.calls.get? c = some call) (hp : call.stage = .outside) :
    Turn s.board c (s.probe c call).1.board := by
  unfold probe
  split
  · exact still_setCall hc rfl rfl hp.symm
  · split
    · exact still_setCall hc rfl rfl hp.symm
    · exact still_setCall hc rfl rfl hp.symm

theorem turn_bind (hc : s.calls.get? c = some call) (hp : call.stage = .outside) :
    Turn s.board c (s.bind c call).1.board := by
  unfold bind
  split
  · exact still_setCall hc rfl rfl hp.symm
  · split
    · exact still_setCall hc rfl rfl hp.symm
    · split
      · exact still_setCall (s := { s with cells := _ }) hc rfl rfl hp.symm
      · exact still_setCall hc rfl rfl hp.symm

theorem turn_load (hc : s.calls.get? c = some call) (hp : call.stage = .outside) :
    Turn s.board c (s.load c call).1.board := by
  unfold load
  split
  · exact still_setCall hc rfl rfl hp.symm
  · exact still_setCall hc rfl rfl hp.symm

theorem turn_await (hc : s.calls.get? c = some call) (hp : call.stage = .outside)
    (signal : Signal) : Turn s.board c (s.await c call signal).1.board := by
  unfold await
  split
  · exact still_setCall hc rfl rfl hp.symm
  · split
    · exact still_setCall hc rfl rfl hp.symm
    · exact .still

/-- A call whose initializer ends. -/
theorem ends_setCall {call' : Call α} {who : Initiator} (hc : s.calls.get? c = some call)
    (hp : call.stage = .inside who) (target : call'.target = call.target)
    (flag : call'.flag = call.flag) (stage : call'.stage = .leaving who) :
    Turn s.board c (s.setCall c call').board := by
  have hcard : call'.card = { call.card with stage := .leaving who } := by
    rw [Call.card, target, flag, stage]
    rfl
  rw [board_setCall, hcard]
  exact .ends (card?_board hc) hp

theorem turn_store {value : α} (hc : s.calls.get? c = some call)
    (hp : call.phase = .storing value) : Turn s.board c (s.store c call value).1.board := by
  have hs : call.stage = .inside (call.initiator.getD default) := by rw [Call.stage, hp]
  unfold store
  split
  · exact ends_setCall hc hs rfl rfl rfl
  · split
    · exact still_setCall (s := { s with cells := _ }) hc rfl rfl hs.symm
    · exact ends_setCall hc hs rfl rfl rfl

theorem turn_publish {value : α} (hc : s.calls.get? c = some call)
    (hp : call.phase = .publishing value) : Turn s.board c (s.publish c call value).1.board := by
  have hs : call.stage = .inside (call.initiator.getD default) := by rw [Call.stage, hp]
  exact ends_setCall (s := { s with cells := _ }) hc hs rfl rfl rfl

theorem turn_handOver (waiter : Nat) : Turn s.board c (s.handOver waiter).1.board := by
  unfold handOver
  split
  · exact .still
  · rename_i call hw
    split
    · rename_i signal hq
      have hcard : ({ call with phase := .queued signal.raise } : Call α).card = call.card := by
        simp only [Call.card, Call.stage, hq]
      have hsame : (s.setPhase waiter call (.queued signal.raise)).board = s.board :=
        board_setCall_of_card hw hcard
      rw [hsame]
      exact .still
    · exact .still

theorem turn_resume {ending : Ending} {waiters : List Nat} (hc : s.calls.get? c = some call)
    (hp : call.stage = .outside) :
    Turn s.board c (s.resume c call ending waiters).1.board := by
  cases waiters with
  | nil => cases ending <;> exact still_setCall hc rfl rfl hp.symm
  | cons waiter rest =>
    have hsame : (s.setPhase c call (.resuming rest ending)).board = s.board :=
      board_setCall_of_card hc (by rw [Call.card, Call.card, hp]; rfl)
    rw [← hsame]
    exact turn_handOver waiter

theorem turn_conclude (h : s.board.Inv) (hc : s.calls.get? c = some call)
    (hp : call.stage = .outside) : Turn s.board c (s.conclude c call).1.board := by
  simp only [conclude]
  split
  · exact .still
  · rename_i hdone
    split
    · show Turn s.board c (s.setPhase c call (.ended (.ok none))).board
      rw [setPhase, board_setCall]
      exact .passes (card?_board hc) hp (known_flagOf h hc) (by simpa using hdone)
    · split
      · exact still_setCall hc rfl rfl hp.symm
      · exact still_setCall hc rfl rfl hp.symm

theorem turn_observe (h : s.board.Inv) (hc : s.calls.get? c = some call)
    (hp : call.stage = .outside) : Turn s.board c (s.observe c call).1.board := by
  unfold observe
  split
  · exact .still
  · rename_i v hv
    split
    · exact .still
    · split
      · rename_i hdone
        subst hdone
        obtain ⟨t, he, hseen⟩ : ∃ t, s.executorOf call = some (.table t) ∧
            t.state? s.image.directory (s.flagOf call).id = some slotDone := by
          unfold slotSeen? at hv
          split at hv
          · exact ⟨_, by assumption, hv⟩
          · cases hv
          · cases hv
        have hsame : ((s.completeFlag call.flag).setPhase c call .concluding).board =
            (s.completeFlag call.flag).board :=
          board_setCall_of_card (s := s.completeFlag call.flag) hc
            (by rw [Call.card, Call.card, hp]; rfl)
        show Turn s.board c ((s.completeFlag call.flag).setPhase c call .concluding).board
        rw [hsame, board_completeFlag (known_flagOf h hc)]
        exact .observes (card?_board hc) hp (known_flagOf h hc) (table?_board he)
          (slot?_board h he hseen).2
      · exact .still

/-- What a call that runs its initializer, or leaves it, has in flight. -/
theorem claim?_board {who : Initiator} (h : s.board.Inv) (hc : s.calls.get? c = some call)
    (hp : call.stage.holder? = some who) :
    s.board.claim? c = some (call.target, (s.flagOf call).id, who) := by
  rw [Board.claim?_of_card (card?_board hc)]
  exact Board.claimOf_eq_some hp (known_flagOf h hc)

theorem turn_complete_registry {ending : Ending} {r : Registry Nat} (h : s.board.Inv)
    (hc : s.calls.get? c = some call) (hp : call.phase = .completing ending)
    (he : s.executorOf call = some (.registry r)) :
    Turn s.board c (s.complete c call ending).1.board := by
  have hs : call.stage = .leaving (call.initiator.getD default) := by rw [Call.stage, hp]
  have hknown := known_flagOf h hc
  have hheld : s.board.held call.target = r.held := held_board he
  simp only [complete, he, retire]
  split
  · -- The operation is there, because the call holds it.
    rename_i hr
    have hclaim := claim?_board h hc (by rw [hs]; rfl)
    have hmem := (h.mem_held _ _ _).mpr ⟨c, hclaim⟩
    rw [hheld] at hmem
    exact absurd hmem (Registry.retire_eq_none hr _)
  · rename_i waiters r' hr
    obtain ⟨w, hperm⟩ := Registry.held_retire hr
    obtain ⟨target, ht, hexec⟩ := target_of_executorOf he
    have htable : (Executor.registry r').table? = target.executor.table? := by rw [hexec]; rfl
    show Turn s.board c (((s.completeFlag call.flag).setExecutor call.target
      (.registry r')).setCall c { call with phase := .resuming waiters ending }).board
    rw [board_setCall, board_setExecutor (s := s.completeFlag call.flag) ht htable,
      board_completeFlag hknown]
    rw [← hheld] at hperm
    exact .retires (card?_board hc) hs hknown (table?_board he) hperm

theorem turn_complete_table {ending : Ending} {t : SlotTable} (h : s.board.Inv)
    (hc : s.calls.get? c = some call) (hp : call.phase = .completing ending)
    (he : s.executorOf call = some (.table t)) :
    Turn s.board c (s.complete c call ending).1.board := by
  have hs : call.stage = .leaving (call.initiator.getD default) := by rw [Call.stage, hp]
  simp only [complete, he, settle]
  split
  · exact .still
  next locked =>
  have free := SlotTable.isLocked_eq_false.mp (Bool.eq_false_iff.mpr locked)
  have hknown := known_flagOf h hc
  have hheld : s.board.held call.target = t.claims := by
    rw [held_board he, Executor.held, SlotTable.unlock_of_free free]
  have htable := table?_board he
  obtain ⟨target, ht, hexec⟩ := target_of_executorOf he
  have hsame : (Executor.table (t.lock (s.flagOf call).id)).table? =
      target.executor.table? := by rw [hexec]; rfl
  have hclaim := claim?_board h hc (by rw [hs]; rfl)
  obtain ⟨within, hrun⟩ := h.running c _ _ _ _ _ hclaim htable
  obtain ⟨object, ho, -⟩ := Option.map_eq_some_iff.mp hrun
  show Turn s.board c (((s.markSlot t (s.flagOf call).id slotDone).setExecutor call.target
    (.table (t.lock (s.flagOf call).id))).setCall c { call with phase := .marking ending }).board
  rw [board_setCall, board_setExecutor (s := s.markSlot t (s.flagOf call).id slotDone) ht hsame,
    board_markSlot ho within]
  have hturn := Turn.settles (card?_board hc) hs hknown htable
  have hleft : (s.board.held call.target).filter (fun p => !decide (p.1 = (s.flagOf call).id)) =
      (Executor.table (t.lock (s.flagOf call).id)).held := by
    rw [hheld, Executor.held, SlotTable.unlock_lock _ free]
    rfl
  rw [← hleft]
  exact hturn

theorem turn_complete {ending : Ending} (h : s.board.Inv) (hc : s.calls.get? c = some call)
    (hp : call.phase = .completing ending) :
    Turn s.board c (s.complete c call ending).1.board := by
  cases he : s.executorOf call with
  | none => simp only [complete, he]; exact .still
  | some executor =>
    cases executor with
    | registry r => exact turn_complete_registry h hc hp he
    | table t => exact turn_complete_table h hc hp he

/-- The slot of a call that sets its flag next is done. -/
theorem slot?_of_marking {ending : Ending} (h : s.board.Inv) (hc : s.calls.get? c = some call)
    (hp : call.phase = .marking ending) : ∃ o n, s.board.table? call.target = some (o, n) ∧
      (s.flagOf call).id.index < n ∧ s.board.slot? o (s.flagOf call).id = some slotDone :=
  h.settled c call.card _ (card?_board hc) (by rw [Call.card, Call.stage, hp]) (known_flagOf h hc)

theorem turn_markFlag {ending : Ending} (h : s.board.Inv) (hc : s.calls.get? c = some call)
    (hp : call.phase = .marking ending) : Turn s.board c (s.markFlag c call ending).1.board := by
  have hs : call.stage = .settled := by rw [Call.stage, hp]
  have hknown := known_flagOf h hc
  obtain ⟨o, n, htable, -, hdone⟩ := slot?_of_marking h hc hp
  show Turn s.board c ((s.completeFlag call.flag).setCall c
    { call with phase := .releasing ending }).board
  rw [board_setCall, board_completeFlag hknown]
  exact .marks (card?_board hc) hs hknown htable hdone

theorem turn_release {ending : Ending} (hc : s.calls.get? c = some call)
    (hp : call.stage = .outside) : Turn s.board c (s.release c call ending).1.board := by
  have hsame : ((s.unlock call.target).setPhase c call (.resuming [] ending)).board =
      (s.unlock call.target).board :=
    board_setCall_of_card (s := s.unlock call.target) hc (by rw [Call.card, Call.card, hp]; rfl)
  show Turn s.board c ((s.unlock call.target).setPhase c call (.resuming [] ending)).board
  rw [hsame, board_unlock]
  exact .still

theorem executorOf_identify (s : State α) (call : Call α) :
    (s.identify call).2.executorOf call = s.executorOf call := by
  obtain ⟨n, -, hn⟩ := identify_eq s call
  rw [hn]
  rfl

/-- A call that learns who it is and leaves its executor as it was. -/
theorem board_named {who : Initiator} {phase : Phase α} {executor executor' : Executor}
    (he : s.executorOf call = some executor) (table : executor'.table? = executor.table?) :
    (((s.identify call).2.setExecutor call.target executor').setCall c
      { call with initiator := some who, phase }).board =
    (s.board.setHeld call.target executor'.held).setCard c
      ({ call with initiator := some who, phase } : Call α).card := by
  rw [← executorOf_identify] at he
  obtain ⟨target, ht, rfl⟩ := target_of_executorOf he
  rw [board_setCall, board_setExecutor ht table, board_identify]

theorem still_named {who : Initiator} {phase : Phase α} {executor executor' : Executor}
    (hc : s.calls.get? c = some call) (hp : call.stage = .outside)
    (he : s.executorOf call = some executor) (table : executor'.table? = executor.table?)
    (held : executor'.held = executor.held)
    (outside : ({ call with initiator := some who, phase } : Call α).stage = .outside) :
    Turn s.board c (((s.identify call).2.setExecutor call.target executor').setCall c
      { call with initiator := some who, phase }).board := by
  have hheld : s.board.setHeld call.target executor'.held = s.board := by
    rw [held, ← held_board he, Board.setHeld, update_eq_self]
  have hcard : ({ call with initiator := some who, phase } : Call α).card = call.card := by
    rw [Call.card, Call.card, outside, hp]
  have hsame : s.board.setCard c call.card = s.board := by
    rw [Board.setCard, ← card?_board hc, update_eq_self]
  rw [board_named he table, hheld, hcard, hsame]
  exact .still

theorem turn_enterRegistry {r : Registry Nat} (h : s.board.Inv) (hc : s.calls.get? c = some call)
    (hp : call.stage = .outside) (he : s.executorOf call = some (.registry r)) :
    Turn s.board c (s.enterRegistry c call r).1.board := by
  obtain ⟨r', phase, hs, hcases⟩ := s.enterRegistry_cases c call r
  rw [hs]
  rcases hcases with ⟨-, rfl, hheld⟩ | ⟨-, -, rfl, hheld⟩ | ⟨-, -, rfl, hheld⟩ |
    ⟨hunset, hnone, rfl, hheld⟩
  · exact still_named hc hp he rfl hheld rfl
  · exact still_named hc hp he rfl hheld rfl
  · exact still_named hc hp he rfl hheld rfl
  · have hfree : ∀ w, ((s.flagOf call).id, w) ∉ s.board.held call.target := by
      rw [held_board he]
      exact Registry.find?_eq_none.mp hnone
    have hturn := @Turn.wins _ c _ _ (s.identify call).1 (card?_board hc) hp (known_flagOf h hc)
      (table?_board he) hunset hfree
    have htable : (Executor.registry r').table? = (Executor.registry r).table? := rfl
    rw [board_named he htable]
    have hr : (Executor.registry r').held =
        s.board.held call.target ++ [((s.flagOf call).id, (s.identify call).1)] := by
      rw [held_board he]
      exact hheld
    rw [hr]
    exact hturn

theorem turn_enterTable {t : SlotTable} (h : s.board.Inv) (hc : s.calls.get? c = some call)
    (hp : call.stage = .outside) (he : s.executorOf call = some (.table t)) :
    Turn s.board c (s.enterTable c call t).1.board := by
  rcases s.enterTable_cases c call t with
    ⟨-, -, hs⟩ | ⟨-, -, hs⟩ | ⟨v, hv, free, ⟨-, hs⟩ | ⟨-, -, hs⟩ | ⟨-, hidle, hs⟩⟩
  · rw [hs]
    exact .still
  · rw [hs]
    exact .still
  · rw [hs]
    exact still_named hc hp he rfl rfl rfl
  · rw [hs]
    exact still_named hc hp he rfl rfl rfl
  · subst hidle
    obtain ⟨within, hslot⟩ := slot?_board h he hv
    have hturn := @Turn.claims _ c _ _ (s.identify call).1 _ _ (card?_board hc) hp
      (known_flagOf h hc) (table?_board he) within hslot
    obtain ⟨object, ho, -⟩ := Option.map_eq_some_iff.mp hslot
    have he' := he
    rw [← executorOf_identify] at he'
    obtain ⟨target, ht, hexec⟩ := target_of_executorOf he'
    have hobjects (executor : Executor) :
        ((s.identify call).2.setExecutor call.target executor).image.directory.objects.get?
          t.mapping.object = some object := by
      obtain ⟨n, -, hn⟩ := identify_eq s call
      rw [hn]
      exact ho
    have htable : (Executor.table { t with
        claims := t.claims ++ [((s.flagOf call).id, (s.identify call).1)] }).table? =
        target.executor.table? := by
      rw [hexec]
      rfl
    rw [hs, board_setCall, board_markSlot (hobjects _) within, board_setExecutor ht htable,
      board_identify]
    have hclaims : (Executor.table { t with
        claims := t.claims ++ [((s.flagOf call).id, (s.identify call).1)] }).held =
        s.board.held call.target ++ [((s.flagOf call).id, (s.identify call).1)] := by
      rw [held_board he, Executor.held, Executor.held, SlotTable.unlock_of_free free]
      rw [SlotTable.unlock_claims _ free]
    rw [hclaims]
    exact hturn

theorem turn_enter (h : s.board.Inv) (hc : s.calls.get? c = some call)
    (hp : call.stage = .outside) : Turn s.board c (s.enter c call).1.board := by
  cases he : s.executorOf call with
  | none => simp only [enter, he]; exact .still
  | some executor =>
    cases executor with
    | registry r => simp only [enter, he]; exact turn_enterRegistry h hc hp he
    | table t => simp only [enter, he]; exact turn_enterTable h hc hp he

theorem turn_advance (h : s.board.Inv) (alive : s.violation = none) (c : Nat) :
    Turn s.board c (s.advance c).1.board := by
  cases hc : s.calls.get? c with
  | none => simp only [advance, alive, hc]; exact .still
  | some call =>
    simp only [advance, alive, hc]
    cases hp : call.phase with
    | probing => exact turn_probe hc (by rw [Call.stage, hp])
    | binding => exact turn_bind hc (by rw [Call.stage, hp])
    | arriving => exact turn_load hc (by rw [Call.stage, hp])
    | contending => exact turn_enter h hc (by rw [Call.stage, hp])
    | running => exact .still
    | queued signal => exact turn_await hc (by rw [Call.stage, hp]) signal
    | polling => exact turn_observe h hc (by rw [Call.stage, hp])
    | storing value => exact turn_store hc hp
    | publishing value => exact turn_publish hc hp
    | completing ending => exact turn_complete h hc hp
    | marking ending => exact turn_markFlag h hc hp
    | releasing ending => exact turn_release hc (by rw [Call.stage, hp])
    | resuming waiters ending => exact turn_resume hc (by rw [Call.stage, hp])
    | concluding => exact turn_conclude h hc (by rw [Call.stage, hp])
    | ended outcome => exact .still

/-! ## Actions from outside -/

theorem turn_issue (call : Call α) (new : call.IsNew s) :
    Turn s.board s.nextKey (s.issue call).2.board := by
  obtain ⟨f, hf⟩ := new.flag
  have hstage : call.stage = .outside := by
    rcases new.phase with hp | hp <;> rw [Call.stage, hp]
  have hcard : call.card = ⟨call.target, call.flag, .outside⟩ := by rw [Call.card, hstage]
  show Turn s.board s.nextKey
    (({ s with nextKey := s.nextKey + 1 } : State α).setCall s.nextKey call).board
  rw [board_setCall, hcard]
  exact .arrives rfl hf

theorem turn_finish (c : Nat) (ending : Ending) (value : Option α) :
    Turn s.board c (s.finish c ending value).board := by
  unfold finish
  split
  · exact .still
  · rename_i call hc
    split
    · rename_i hp
      have hs : call.stage = .inside (call.initiator.getD default) := by rw [Call.stage, hp]
      split
      · exact still_setCall hc rfl rfl hs.symm
      · exact ends_setCall hc hs rfl rfl rfl
    · exact .still

theorem turn_abandon (c : Nat) (possible : s.Possible (.abandon c)) :
    Turn s.board c (s.abandon c).board := by
  obtain ⟨call, hc, -, hrest⟩ := possible
  simp only [abandon, hc]
  cases hp : call.phase with
  | running => exact turn_finish c .dropped none
  | probing | arriving | queued _ | polling =>
    exact still_setCall hc rfl rfl (by simp [Call.stage, hp])
  | completing _ | marking _ | releasing _ | resuming _ _ | ended _ => exact .still
  | binding | contending | storing _ | publishing _ | concluding =>
    simp [hp, Phase.isResting] at hrest

/-- Every action is a turn of the call that it is about. -/
theorem turn_act (h : s.board.Inv) (alive : s.violation = none) {a : Action α}
    (possible : s.Possible a) : Turn s.board (a.call s) (s.act a).board := by
  cases a with
  | issue call => exact turn_issue call possible
  | advance c => exact turn_advance h alive c
  | finish c ending value => exact turn_finish c ending value
  | abandon c => exact turn_abandon c possible

/-! ## Runs -/

theorem held_fresh (fresh : s.IsFresh) (t : Nat) : s.board.held t = [] := by
  show ((s.targets.get? t).map fun target => target.executor.held).getD [] = []
  cases ht : s.targets.get? t with
  | none => rfl
  | some target =>
    show target.executor.held = []
    cases he : target.executor with
    | registry r =>
      show r.operations.map _ = []
      rw [fresh.registries t target r ht he, List.map_nil]
    | table table =>
      have free := fresh.locks t target ht
      rw [he] at free
      rw [Executor.held, SlotTable.unlock_of_free (SlotTable.isLocked_eq_false.mp free)]
      exact (fresh.tables t target table ht he).1

/-- The next key is free. -/
theorem absent_nextKey (h : s.board.Inv) : s.calls.get? s.nextKey = none :=
  Option.map_eq_none_iff.mp (h.fresh _ (Nat.le_refl _))

theorem card?_fresh (fresh : s.IsFresh) (c : Nat) : s.board.card? c = none := by
  show (s.calls.get? c).map Call.card = none
  rw [fresh.calls c]
  rfl

/-- With nothing in flight the invariant holds. -/
theorem inv_fresh (fresh : s.IsFresh) : s.board.Inv := by
  have hcard := card?_fresh fresh
  have hclaim (c : Nat) : s.board.claim? c = none := by rw [Board.claim?, hcard]; rfl
  refine { fresh := fun c _ => hcard c, known := ?_, mapped := ?_, distinct := ?_, mem_held := ?_
           unique := ?_, running := ?_, settled := ?_ }
  · intro c card hc
    rw [hcard] at hc
    cases hc
  · intro t o n ht id
    obtain ⟨target, hget, htable⟩ := Option.bind_eq_some_iff.mp ht
    cases he : target.executor with
    | registry r => rw [he] at htable; cases htable
    | table table =>
      rw [he] at htable
      cases htable
      obtain ⟨object, ho⟩ := (fresh.tables t target table hget he).2
      exact ⟨_, Option.map_eq_some_iff.mpr ⟨object, ho, rfl⟩⟩
  · intro t
    rw [held_fresh fresh]
    exact List.nodup_nil
  · intro t id who
    rw [held_fresh fresh]
    simp [hclaim]
  · intro c c' t t' id w w' hc
    rw [hclaim] at hc
    cases hc
  · intro c t id w o n hc
    rw [hclaim] at hc
    cases hc
  · intro c card f hc
    rw [hcard] at hc
    cases hc

end State

/-- **The invariant of the board holds after every run.** -/
theorem Run.board_inv {rule : State α → Action α → Prop} {s₀ s : State α} {past : List (Moment α)}
    (run : Run rule s₀ past s) (fresh : s₀.IsFresh) : s.board.Inv :=
  run.invariant (P := fun _ s => s.board.Inv) (State.inv_fresh fresh)
    fun _ _ _ h alive possible _ => h.turn (State.turn_act h alive possible)

end RunOnce.Protocol
