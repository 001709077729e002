import RunOnce.Proofs.Waiting.Refine

/-!
# The lock of a slot table

**Droppers** (`State.Drops`). A call drops its guard in two steps after its slot is done: it sets
its flag, and it gives up its claim. Meanwhile it has the lock of its table.

**The invariant** (`Locks`). The lock of a table is taken exactly as long as a call drops its guard,
and there is one such call at a time. Until the lock is given back the claims stay as they are, and
the one for the handle of the guard is the claim of that call (`Run.locks`).

**Waiting for the lock** (`State.FreedBy`). A call that comes to a lock that is taken has to wait
for two steps of another call at most, which waits for nobody itself (`Locks.freed`).
-/

namespace RunOnce

/-- The handle whose guard is being dropped, and the claims meanwhile. -/
def Executor.lock? : Executor → Option (FlagId × List (FlagId × Initiator))
  | .registry _ => none
  | .table t => t.guard?.map (·, t.claims)

theorem SlotTable.lock?_of_free {t : SlotTable} (free : t.guard? = none) :
    (Executor.table t).lock? = none := by
  simp only [Executor.lock?, free, Option.map_none]

@[simp] theorem Executor.lock?_unlock (executor : Executor) : executor.unlock.lock? = none := by
  cases executor with
  | registry r => rfl
  | table t => exact SlotTable.lock?_of_free t.guard?_unlock

theorem Executor.isLocked_eq (executor : Executor) : executor.isLocked = executor.lock?.isSome := by
  cases executor with
  | registry r => rfl
  | table t => simp [isLocked, SlotTable.isLocked, lock?]

/-- Of claims on different handles one is on a given handle. -/
theorem filter_claims {l : List (FlagId × Initiator)} {id : FlagId} {who : Initiator}
    (distinct : (l.map (·.1)).Nodup) (mem : (id, who) ∈ l) :
    l.filter (·.1 = id) = [(id, who)] := by
  have nodup := List.Nodup.of_map _ distinct
  rw [← List.perm_singleton,
    List.perm_ext_iff_of_nodup (nodup.filter _) (List.nodup_singleton _)]
  intro p
  rw [List.mem_filter, decide_eq_true_iff, List.mem_singleton]
  constructor
  · rintro ⟨hp, hid⟩
    exact List.inj_on_of_nodup_map distinct hp mem hid
  · rintro rfl
    exact ⟨mem, rfl⟩

end RunOnce

namespace RunOnce.Protocol

open Function State

variable {α : Type}

/-- Whether a call in this phase drops its guard, with the lock taken. -/
def Phase.isDropping : Phase α → Bool
  | .marking _ | .releasing _ => true
  | _ => false

namespace State

/-- The handle whose guard is being dropped with the lock of a target taken, and the claims. -/
def lock? (s : State α) (t : Nat) : Option (FlagId × List (FlagId × Initiator)) :=
  (s.targets.get? t).bind fun target => target.executor.lock?

/-- A call drops its guard for a handle of a target. -/
def Drops (s : State α) (c t : Nat) (id : FlagId) : Prop :=
  (s.phaseOf c).isDropping = true ∧ s.place? c = some (t, id)

/-- A call takes steps by which another one gets the lock for which it waits. -/
def FreedBy (s : State α) (c k : Nat) : Prop :=
  ∃ n ≤ 2, s.Allows (fun _ _ => True) (List.replicate n (.advance k)) ∧
    (s.acts (List.replicate n (.advance k))).isLockedOut c = false

end State

/-- Only the given call acts, and it drops its guard. -/
def Dropping (k : Nat) (s : State α) (a : Action α) : Prop :=
  a = .advance k ∧ (s.phaseOf k).isDropping = true

/-- The lock of a target is taken exactly as long as one call drops its guard. -/
structure Locks (s : State α) : Prop where
  taken : ∀ c t id, s.Drops c t id → ∃ claims, s.lock? t = some (id, claims)
  /-- The call that has the lock still has its claim. -/
  dropper : ∀ t id claims, s.lock? t = some (id, claims) → ∃ c call who, s.Drops c t id ∧
    s.calls.get? c = some call ∧ call.initiator = some who ∧
      claims.filter (·.1 = id) = [(id, who)]
  alone : ∀ c c' t id id', s.Drops c t id → s.Drops c' t id' → c = c'
  done : ∀ t id claims o n, s.lock? t = some (id, claims) → s.board.table? t = some (o, n) →
    s.board.slot? o id = some slotDone

section

variable {s s' s₀ : State α} {a : Action α} {c k t : Nat} {id : FlagId} {call : Call α}
  {executor : Executor} {notices : List (Notice α)} {rule : State α → Action α → Prop}
  {past : List (Moment α)} {claims : List (FlagId × Initiator)}

/-! ## Locks after updates -/

theorem lock?_of_executorOf (through : s.executorOf call = some executor) :
    s.lock? call.target = executor.lock? := by
  obtain ⟨target, ht, rfl⟩ := target_of_executorOf through
  rw [lock?, ht]
  rfl

/-- What has a lock is a slot table. -/
theorem table?_of_lock? {held : FlagId × List (FlagId × Initiator)}
    (taken : s.lock? t = some held) : ∃ o n, s.board.table? t = some (o, n) := by
  obtain ⟨target, ht, hheld⟩ := Option.bind_eq_some_iff.mp taken
  cases hexec : target.executor with
  | registry r =>
    rw [hexec] at hheld
    cases hheld
  | table table =>
    refine ⟨table.mapping.object, table.slotCount, ?_⟩
    show (s.targets.get? t).bind (fun target => target.executor.table?) = _
    rw [ht, Option.bind_some, hexec]
    rfl

theorem lock?_setExecutor (through : s.executorOf call = some executor) (executor' : Executor) :
    (s.setExecutor call.target executor').lock? =
      update s.lock? call.target executor'.lock? := by
  obtain ⟨target, ht, -⟩ := target_of_executorOf through
  funext k
  show ((s.targets.modify call.target _).get? k).bind _ = _
  rw [Store.get?_modify]
  by_cases hk : call.target = k
  · subst hk
    rw [if_pos rfl, ht, update_self]
    rfl
  · rw [if_neg hk, update_of_ne (Ne.symm hk)]
    rfl

/-- A locked section that leaves the lock free. -/
theorem lock?_afterLock (through : s.executorOf call = some executor)
    (free : executor.lock? = none) {executor' : Executor} (free' : executor'.lock? = none)
    (phase : Phase α) : (s.afterLock c call executor' phase).lock? = s.lock? := by
  have hlock := lock?_of_executorOf through
  have hidentify : (s.identify call).2.lock? = s.lock? := by
    obtain ⟨n, -, hn⟩ := identify_eq s call
    rw [hn]
    rfl
  rw [← executorOf_identify] at through
  show ((s.identify call).2.setExecutor call.target executor').lock? = s.lock?
  rw [lock?_setExecutor through, hidentify, free', ← free, ← hlock, update_eq_self]

theorem lock?_unlock (s : State α) (t : Nat) : (s.unlock t).lock? = update s.lock? t none := by
  funext k
  show ((s.targets.modify t _).get? k).bind _ = _
  rw [Store.get?_modify]
  by_cases hk : t = k
  · subst hk
    rw [if_pos rfl, update_self]
    cases s.targets.get? t with
    | none => rfl
    | some target => exact target.executor.lock?_unlock
  · rw [if_neg hk, update_of_ne (Ne.symm hk)]
    rfl

/-- What an action does to the locks, with the phase of its call before and after. -/
inductive Drop (place? : Option (Nat × FlagId)) (held : Nat → List (FlagId × Initiator))
    (lock? : Nat → Option (FlagId × List (FlagId × Initiator))) :
    Phase α → (Nat → Option (FlagId × List (FlagId × Initiator))) → Phase α → Prop
  | rests {before after : Phase α} (same : after.isDropping = before.isDropping) :
      Drop place? held lock? before lock? after
  | begins {t : Nat} {id : FlagId} (ending : Ending) (here : place? = some (t, id))
      (free : lock? t = none) : Drop place? held lock? (.completing ending)
        (update lock? t (some (id, held t))) (.marking ending)
  | ends {t : Nat} {id : FlagId} (ending : Ending) (here : place? = some (t, id)) :
      Drop place? held lock? (.releasing ending) (update lock? t none) (.resuming [] ending)

theorem drop_of_same {place? : Option (Nat × FlagId)} {before after : Phase α}
    (was : s.phaseOf c = before) (now : s'.phaseOf c = after) (locks : s'.lock? = s.lock?)
    (same : after.isDropping = before.isDropping) :
    Drop place? s.board.held s.lock? (s.phaseOf c) s'.lock? (s'.phaseOf c) := by
  rw [was, now, locks]
  exact .rests same

/-- What a step of a call does to the locks. -/
theorem drop_effect (hc : s.calls.get? c = some call) (effect : Effect s c call s' notices) :
    Drop (s.place? c) s.board.held s.lock? (s.phaseOf c) s'.lock? (s'.phaseOf c) := by
  have hwas : s.phaseOf c = call.phase := phaseOf_of_get? hc
  have hplace := place?_of_get? hc
  cases effect with
  | rests | lacks | breaks | misses | fails => exact drop_of_same hwas hwas rfl rfl
  | skips phase | returns phase =>
    refine drop_of_same hwas (phaseOf_setCall ..) rfl ?_
    rcases phase with phase | phase <;> rw [phase] <;> rfl
  | finds phase | asks phase | ties phase | strays phase | sees phase | contends phase
    | resumes phase | parks phase | follows phase | reserves phase | discards phase
    | publishes phase | marks phase | goesOn phase | leaves phase | concludes phase =>
    exact drop_of_same hwas (phaseOf_setCall ..) rfl (by rw [phase]; rfl)
  | late phase through | meets phase through | joins phase through | wins phase through =>
    refine drop_of_same hwas (phaseOf_setCall ..) ?_ (by rw [phase]; rfl)
    exact lock?_afterLock through rfl (by rfl) _
  | recurs phase through own free =>
    refine drop_of_same hwas (phaseOf_setCall ..) ?_ (by rw [phase]; rfl)
    exact lock?_afterLock through (SlotTable.lock?_of_free free) (SlotTable.lock?_of_free free) _
  | loses phase through other seen taken free =>
    refine drop_of_same hwas (phaseOf_setCall ..) ?_ (by rw [phase]; rfl)
    exact lock?_afterLock through (SlotTable.lock?_of_free free) (SlotTable.lock?_of_free free) _
  | @claims t phase through other idle free =>
    have free' (claims : List (FlagId × Initiator)) :
        (Executor.table { t with claims }).lock? = none := SlotTable.lock?_of_free free
    refine drop_of_same hwas (phaseOf_setCall ..) ?_ (by rw [phase]; rfl)
    show (s.afterLock c call (.table _) .running).lock? = s.lock?
    exact lock?_afterLock through (free' _) (free' _) _
  | @retires ending r r' waiters phase through =>
    refine drop_of_same hwas (phaseOf_setCall ..) ?_ (by rw [phase]; rfl)
    show ((s.completeFlag call.flag).setExecutor call.target (.registry r')).lock? = s.lock?
    rw [lock?_setExecutor (s := s.completeFlag call.flag) through]
    exact (congrArg (update s.lock? call.target) (lock?_of_executorOf through).symm).trans
      (update_eq_self ..)
  | @settles ending table phase through free =>
    have hfree : s.lock? call.target = none :=
      (lock?_of_executorOf through).trans (SlotTable.lock?_of_free free)
    have hheld : s.board.held call.target = table.claims := by
      rw [held_board through, Executor.held, SlotTable.unlock_of_free free]
    have hlock : (Executor.table (table.lock (s.flagOf call).id)).lock? =
        some ((s.flagOf call).id, s.board.held call.target) := by
      rw [hheld]
      rfl
    show Drop _ _ s.lock? _ ((s.markSlot table _ slotDone).setExecutor call.target _).lock? _
    rw [phaseOf_setPhase, hwas, phase,
      lock?_setExecutor (s := s.markSlot table (s.flagOf call).id slotDone) through, hlock]
    exact .begins ending hplace hfree
  | @releases ending phase =>
    show Drop _ _ s.lock? _ (s.unlock call.target).lock? _
    rw [phaseOf_setPhase, hwas, phase, lock?_unlock]
    exact .ends ending hplace
  | @hands waiter rest ending phase =>
    have hkept := phaseOf_hands s c call waiter rest ending
    obtain ⟨calls, hcalls⟩ := handOver_eq (s.setPhase c call (.resuming rest ending)) waiter
    refine drop_of_same hwas hkept ?_ (by rw [phase]; rfl)
    rw [hcalls]
    rfl

/-- **What an action does to the locks.** -/
theorem drop_act (h : s.board.Inv) (alive : s.violation = none) (possible : s.Possible a) :
    Drop (s.place? (a.call s)) s.board.held s.lock? (s.phaseOf (a.call s)) (s.act a).lock?
      ((s.act a).phaseOf (a.call s)) := by
  have impact := impact_act alive possible
  generalize s.act a = s' at impact
  cases impact with
  | idles => exact .rests rfl
  | issues call new =>
    have hwas : s.phaseOf s.nextKey = .ended .dropped := by rw [phaseOf, absent_nextKey h]
    refine drop_of_same hwas (phaseOf_setCall ..) rfl ?_
    rcases new.phase with hp | hp <;> rw [hp] <;> rfl
  | steps known effect => exact drop_effect known effect
  | yields value known running =>
    exact drop_of_same (phaseOf_of_get? known) (phaseOf_setCall ..) rfl (by rw [running]; rfl)
  | ends ending subject known running =>
    rw [Action.call, subject]
    exact drop_of_same (phaseOf_of_get? known) (phaseOf_setCall ..) rfl (by rw [running]; rfl)
  | @drops c call known resting waits =>
    refine drop_of_same (phaseOf_of_get? known) (phaseOf_setCall ..) rfl ?_
    cases hp : call.phase <;> simp_all [Phase.isResting, Phase.isDropping]

/-! ## The invariant -/

theorem not_drops_of_rests (rests : (s.phaseOf c).isDropping = false) : ¬s.Drops c t id := by
  rintro ⟨dropping, -⟩
  cases rests.symm.trans dropping

theorem get?_of_drops (drops : s.Drops c t id) : ∃ call, s.calls.get? c = some call ∧
    call.phase.isDropping = true ∧ call.target = t ∧ (s.flagOf call).id = id := by
  obtain ⟨dropping, here⟩ := drops
  obtain ⟨call, hc, hplace⟩ := Option.map_eq_some_iff.mp here
  rw [phaseOf_of_get? hc] at dropping
  exact ⟨call, hc, dropping, congrArg Prod.fst hplace, congrArg Prod.snd hplace⟩

/-- Whether another call drops its guard stays as it is. -/
theorem drops_act_of_ne (h : s.board.Inv) (alive : s.violation = none) (possible : s.Possible a)
    (other : k ≠ a.call s) : (s.act a).Drops k t id ↔ s.Drops k t id := by
  have hplace : (s.act a).place? k = s.place? k := (shift_act h alive possible).place?_of_ne other
  rw [Drops, Drops, hplace]
  refine and_congr_left fun _ => ?_
  rcases phaseOf_act_of_ne alive possible other with hsame | ⟨signal, before, after⟩
  · rw [hsame]
  · rw [before, after]
    rfl

/-- Who has an operation in flight, or drops its guard, keeps its identity. -/
theorem initiator_act {who : Initiator} (h : s.board.Inv) (hc : s.calls.get? c = some call)
    (entered : call.phase ≠ .contending) (hwho : call.initiator = some who) :
    ∃ call', (s.act a).calls.get? c = some call' ∧ call'.initiator = some who := by
  obtain ⟨call', hc', becomes⟩ := call_act (a := a) (absent_nextKey h) hc
  refine ⟨call', hc', ?_⟩
  rcases becomes.initiator.2 with hsame | ⟨-, contending, -⟩
  · rw [hsame, hwho]
  · exact absurd contending entered

/-- What droppers keep from one state to another. -/
structure Keeping (s s' : State α) : Prop where
  initiator : ∀ c t id call who, s.Drops c t id → s.calls.get? c = some call →
    call.initiator = some who →
    ∃ call', s'.calls.get? c = some call' ∧ call'.initiator = some who
  table : s'.board.table? = s.board.table?
  done : ∀ o id, s.board.slot? o id = some slotDone → s'.board.slot? o id = some slotDone

theorem keeping_act (h : s.board.Inv) (alive : s.violation = none) (possible : s.Possible a) :
    Keeping s (s.act a) where
  initiator c t id call who drops hc hwho := by
    obtain ⟨mine, hmine, dropping, -⟩ := get?_of_drops drops
    obtain rfl : call = mine := Option.some.inj (hc.symm.trans hmine)
    refine initiator_act h hc ?_ hwho
    intro contending
    rw [contending] at dropping
    cases dropping
  table := (turn_act h alive possible).table?_eq
  done _ _ := (turn_act h alive possible).slot?_done

/-- Nothing changes about who drops a guard, and about the locks. -/
theorem Locks.of_same (locks : Locks s) (keeping : Keeping s s') (lock : s'.lock? = s.lock?)
    (drops : ∀ c t id, s'.Drops c t id ↔ s.Drops c t id) : Locks s' where
  taken c t id hc := by
    rw [lock]
    exact locks.taken c t id ((drops c t id).mp hc)
  dropper t id claims held := by
    rw [lock] at held
    obtain ⟨c, call, who, hdrops, hc, hwho, own⟩ := locks.dropper t id claims held
    obtain ⟨call', hc', hwho'⟩ := keeping.initiator c t id call who hdrops hc hwho
    exact ⟨c, call', who, (drops c t id).mpr hdrops, hc', hwho', own⟩
  alone c c' t id id' hc hc' :=
    locks.alone c c' t id id' ((drops c t id).mp hc) ((drops c' t id').mp hc')
  done t id claims o n held table := by
    rw [lock] at held
    rw [keeping.table] at table
    exact keeping.done _ _ (locks.done t id claims o n held table)

/-- A call takes a lock that is free. -/
theorem Locks.begins {who : Initiator} (locks : Locks s) (keeping : Keeping s s')
    (free : s.lock? t = none) (lock : s'.lock? = update s.lock? t (some (id, claims)))
    (drops : ∀ c t' id', s'.Drops c t' id' ↔ (c = k ∧ (t, id) = (t', id')) ∨ s.Drops c t' id')
    (hk : s'.calls.get? k = some call) (hwho : call.initiator = some who)
    (own : claims.filter (·.1 = id) = [(id, who)])
    (done : ∀ o n, s'.board.table? t = some (o, n) → s'.board.slot? o id = some slotDone) :
    Locks s' where
  taken c t' id' hc := by
    rw [lock]
    rcases (drops c t' id').mp hc with ⟨-, heq⟩ | hc
    · cases heq
      exact ⟨claims, update_self ..⟩
    · obtain ⟨claims', held⟩ := locks.taken c t' id' hc
      have hne : t' ≠ t := by
        rintro rfl
        cases free.symm.trans held
      exact ⟨claims', by rw [update_of_ne hne, held]⟩
  dropper t' id' claims' held := by
    rw [lock] at held
    by_cases ht : t' = t
    · subst ht
      rw [update_self] at held
      cases held
      exact ⟨k, call, who, (drops k t' id).mpr (Or.inl ⟨rfl, rfl⟩), hk, hwho, own⟩
    · rw [update_of_ne ht] at held
      obtain ⟨c, call', who', hdrops, hc, hwho', own'⟩ := locks.dropper t' id' claims' held
      obtain ⟨call'', hc', hwho''⟩ := keeping.initiator c t' id' call' who' hdrops hc hwho'
      exact ⟨c, call'', who', (drops c t' id').mpr (Or.inr hdrops), hc', hwho'', own'⟩
  alone c c' t' id₁ id₂ hc hc' := by
    have hfresh {c : Nat} {id' : FlagId} (hc : s.Drops c t id') : False := by
      obtain ⟨claims', held⟩ := locks.taken c t id' hc
      cases free.symm.trans held
    rcases (drops c t' id₁).mp hc with ⟨rfl, heq⟩ | hc <;>
      rcases (drops c' t' id₂).mp hc' with ⟨rfl, heq'⟩ | hc'
    · rfl
    · cases heq
      exact (hfresh hc').elim
    · cases heq'
      exact (hfresh hc).elim
    · exact locks.alone c c' t' id₁ id₂ hc hc'
  done t' id' claims' o n held table := by
    rw [lock] at held
    by_cases ht : t' = t
    · subst ht
      rw [update_self] at held
      cases held
      exact done o n table
    · rw [update_of_ne ht] at held
      rw [keeping.table] at table
      exact keeping.done _ _ (locks.done t' id' claims' o n held table)

/-- A call gives its lock back. -/
theorem Locks.ends (locks : Locks s) (keeping : Keeping s s') (mine : s.Drops k t id)
    (lock : s'.lock? = update s.lock? t none)
    (drops : ∀ c t' id', s'.Drops c t' id' ↔ c ≠ k ∧ s.Drops c t' id') : Locks s' := by
  have hother {t' : Nat} {held} (h : s'.lock? t' = some held) :
      t' ≠ t ∧ s.lock? t' = some held := by
    rw [lock] at h
    by_cases ht : t' = t
    · subst ht
      rw [update_self] at h
      cases h
    · rw [update_of_ne ht] at h
      exact ⟨ht, h⟩
  refine { taken := ?_, dropper := ?_, alone := ?_, done := ?_ }
  · intro c t' id' hc
    obtain ⟨hne, hc⟩ := (drops c t' id').mp hc
    have ht : t' ≠ t := by
      rintro rfl
      exact hne (locks.alone c k t' id' id hc mine)
    rw [lock, update_of_ne ht]
    exact locks.taken c t' id' hc
  · intro t' id' claims' held
    obtain ⟨ht, held⟩ := hother held
    obtain ⟨c, call', who', hdrops, hc, hwho', own'⟩ := locks.dropper t' id' claims' held
    obtain ⟨call'', hc', hwho''⟩ := keeping.initiator c t' id' call' who' hdrops hc hwho'
    refine ⟨c, call'', who', (drops c t' id').mpr ⟨?_, hdrops⟩, hc', hwho'', own'⟩
    rintro rfl
    cases mine.2.symm.trans hdrops.2
    exact ht rfl
  · intro c c' t' id₁ id₂ hc hc'
    exact locks.alone c c' t' id₁ id₂ ((drops c t' id₁).mp hc).2 ((drops c' t' id₂).mp hc').2
  · intro t' id' claims' o n held table
    rw [keeping.table] at table
    exact keeping.done _ _ (locks.done t' id' claims' o n (hother held).2 table)

/-- **One action keeps the invariant of the locks.** -/
theorem Locks.act (locks : Locks s) (h : s.board.Inv) (lineage : Lineage s)
    (alive : s.violation = none) (possible : s.Possible a) : Locks (s.act a) := by
  have keeping := keeping_act h alive possible
  have hother {c t id} (hc : c ≠ a.call s) : (s.act a).Drops c t id ↔ s.Drops c t id :=
    drops_act_of_ne h alive possible hc
  have hplace {p} (hp : s.place? (a.call s) = some p) : (s.act a).place? (a.call s) = some p :=
    (shift_act h alive possible).place?_eq hp
  have hdrop := drop_act h alive possible
  generalize hwas : s.phaseOf (a.call s) = was at hdrop
  generalize hnow : (s.act a).phaseOf (a.call s) = now at hdrop
  generalize hlock : (s.act a).lock? = lock at hdrop
  cases hdrop with
  | rests same =>
    refine locks.of_same keeping hlock fun c t id => ?_
    by_cases hc : c = a.call s
    · subst hc
      rw [Drops, Drops, hwas, hnow, same]
      refine and_congr_right fun dropping => ?_
      cases known : s.calls.get? (a.call s) with
      | none =>
        rw [phaseOf, known] at hwas
        rw [← hwas] at dropping
        cases dropping
      | some call => rw [place?_of_get? known, hplace (place?_of_get? known)]
    · exact hother hc
  | @begins t₀ id₀ ending here free =>
    obtain ⟨call, hc, hat⟩ := Option.map_eq_some_iff.mp here
    obtain ⟨rfl, rfl⟩ : call.target = t₀ ∧ (s.flagOf call).id = id₀ := by simpa using hat
    have phase : call.phase = .completing ending := (phaseOf_of_get? hc).symm.trans hwas
    obtain ⟨who, hwho⟩ := Option.ne_none_iff_exists'.mp
      (lineage.inside _ call hc (by rw [phase]; rfl))
    obtain ⟨call', hc', hwho'⟩ := initiator_act (a := a) h hc (by rw [phase]; simp) hwho
    have hclaim := (claim?_iff h lineage).mpr
      ⟨⟨call, hc, rfl, rfl, by rw [phase]; rfl⟩, call, hc, hwho⟩
    have hmem := (h.mem_held _ _ _).mpr ⟨_, hclaim⟩
    refine locks.begins (k := a.call s) keeping free hlock (fun c t id => ?_) hc' hwho'
      (filter_claims (h.distinct _) hmem) ?_
    · by_cases hc : c = a.call s
      · subst hc
        rw [Drops, hnow, hplace here, Option.some.injEq]
        simp [not_drops_of_rests (s := s) (by rw [hwas]; rfl), Phase.isDropping]
      · simp [hother hc, hc]
    · intro o n table
      have inv := h.turn (turn_act h alive possible)
      have hplace' := hplace here
      rw [place?_of_get? hc', Option.some.injEq, Prod.mk.injEq] at hplace'
      obtain ⟨o', n', table', -, done⟩ :=
        slot?_of_marking inv hc' ((phaseOf_of_get? hc').symm.trans hnow)
      rw [hplace'.2] at done
      rw [hplace'.1, table] at table'
      cases table'
      exact done
  | @ends t₀ id₀ ending here =>
    refine locks.ends keeping ⟨by rw [hwas]; rfl, here⟩ hlock fun c t id => ?_
    by_cases hc : c = a.call s
    · subst hc
      simp [not_drops_of_rests (s := s.act a) (by rw [hnow]; rfl)]
    · simp [hother hc, hc]

/-- Before anything happens no lock is taken. -/
theorem locks_fresh (fresh : s.IsFresh) : Locks s := by
  have idle (c t id) : ¬s.Drops c t id := by
    rintro ⟨dropping, -⟩
    rw [phaseOf, fresh.calls c] at dropping
    cases dropping
  have free (t) : s.lock? t = none := by
    cases ht : s.targets.get? t with
    | none => simp [lock?, ht]
    | some target =>
      have hfree := fresh.locks t target ht
      rw [Executor.isLocked_eq, Option.isSome_eq_false_iff, Option.isNone_iff_eq_none] at hfree
      rw [lock?, ht, Option.bind_some, hfree]
  refine { taken := fun c t id hc => (idle c t id hc).elim, dropper := ?_
           alone := fun c c' t id id' hc => (idle c t id hc).elim, done := ?_ }
  · intro t id claims held
    cases (free t).symm.trans held
  · intro t id claims o n held
    cases (free t).symm.trans held

/-- **The lock of a table is taken exactly as long as one call drops its guard.** -/
theorem Run.locks (run : Run rule s₀ past s) (fresh : s₀.IsFresh) : Locks s := by
  induction run with
  | start => exact locks_fresh fresh
  | step run alive possible _ ih =>
    exact ih.act (run.board_inv fresh) (run.lineage fresh) alive possible

/-! ## Waiting for a lock -/

/-- A call that does not need a lock, or whose lock is free, is not locked out. -/
theorem isLockedOut_eq_false (hc : s.calls.get? c = some call)
    (free : s.lock? call.target = none) : s.isLockedOut c = false := by
  have hany : (s.executorOf call).any Executor.isLocked = false := by
    cases through : s.executorOf call with
    | none => rfl
    | some executor =>
      rw [Option.any_some, Executor.isLocked_eq, ← lock?_of_executorOf through, free]
      rfl
  simp only [isLockedOut, hc, hany, Bool.and_false]

/-- A call that is locked out has come to a lock that is taken. -/
theorem lock?_of_isLockedOut (locked : s.isLockedOut c = true) : ∃ call held,
    s.calls.get? c = some call ∧ call.phase.needsLock = true ∧
      s.lock? call.target = some held := by
  cases hc : s.calls.get? c with
  | none => simp [isLockedOut, hc] at locked
  | some call =>
    simp only [isLockedOut, hc, Bool.and_eq_true] at locked
    obtain ⟨⟨needs, -⟩, hlocked⟩ := locked
    cases through : s.executorOf call with
    | none => simp [through] at hlocked
    | some executor =>
      rw [through, Option.any_some, Executor.isLocked_eq, ← lock?_of_executorOf through] at hlocked
      obtain ⟨held, hheld⟩ := Option.isSome_iff_exists.mp hlocked
      exact ⟨call, held, rfl, needs, hheld⟩

/-- A call that has come to a lock that is taken takes no step. -/
theorem act_of_isLockedOut (locked : s.isLockedOut c = true) : s.act (.advance c) = s := by
  obtain ⟨call, held, hc, needs, -⟩ := lock?_of_isLockedOut locked
  simp only [isLockedOut, hc, needs, Bool.true_and, Bool.and_eq_true] at locked
  obtain ⟨seen, hlocked⟩ := locked
  obtain ⟨v, hv⟩ := Option.isSome_iff_exists.mp seen
  obtain ⟨table, through⟩ := table_of_slotSeen? hv
  rw [slotSeen?, through] at hv
  rw [through, Option.any_some, Executor.isLocked] at hlocked
  show (s.advance c).1 = s
  cases alive : s.violation with
  | some _ => simp only [advance, alive]
  | none =>
    cases phase : call.phase with
    | contending => simp only [advance, alive, hc, phase, enter, through, enterTable, hv, hlocked,
        if_true]
    | completing ending => simp only [advance, alive, hc, phase, complete, through, settle, hlocked,
        if_true]
    | _ =>
      rw [phase] at needs
      cases needs

/-- What is in flight through a slot table has a slot. -/
theorem isSome_slotSeen? {table : SlotTable} (h : s.board.Inv) (hc : s.calls.get? c = some call)
    (inFlight : call.phase.isInFlight = true) (through : s.executorOf call = some (.table table)) :
    (table.state? s.image.directory (s.flagOf call).id).isSome = true := by
  have hclaim := claim?_board (c := c) h hc (by rw [holder?_stage, inFlight]; rfl)
  have within := (h.running _ _ _ _ _ _ hclaim (table?_board through)).1
  simp [SlotTable.state?, SlotTable.wordOf?, within]

/-- The last step of the drop of a guard lets the others in. -/
theorem isLockedOut_of_releasing {ending : Ending} {dropper : Call α} (alive : s.violation = none)
    (hk : s.calls.get? k = some dropper) (phase : dropper.phase = .releasing ending)
    (hc : s.calls.get? c = some call) (other : k ≠ c) (same : dropper.target = call.target) :
    (s.act (.advance k)).isLockedOut c = false := by
  have hact : s.act (.advance k) =
      (s.unlock dropper.target).setPhase k dropper (.resuming [] ending) := by
    simp only [State.act, advance, alive, hk, phase, release]
  have hc' : (s.act (.advance k)).calls.get? c = some call := by
    rw [hact]
    exact (Store.get?_set_of_ne _ other _).trans hc
  refine isLockedOut_eq_false hc' ?_
  rw [hact]
  show (s.unlock dropper.target).lock? call.target = none
  rw [lock?_unlock, same, update_self]

/-- A call that drops its guard has not come to a lock. -/
theorem not_isLockedOut_of_drops (drops : s.Drops c t id) : s.isLockedOut c = false := by
  obtain ⟨call, hc, dropping, -⟩ := get?_of_drops drops
  refine possible_of_needsLock hc ?_
  cases phase : call.phase <;> simp [phase, Phase.isDropping, Phase.needsLock] at dropping ⊢

/-- The steps by which a call drops its guard do not abort. -/
theorem alive_of_dropping (alive : s.violation = none)
    (dropping : (s.phaseOf k).isDropping = true) : (s.act (.advance k)).violation = none := by
  cases hk : s.calls.get? k with
  | none =>
    rw [phaseOf, hk] at dropping
    cases dropping
  | some dropper =>
    rw [phaseOf_of_get? hk] at dropping
    cases hp : dropper.phase with
    | marking | releasing =>
      simp only [State.act, advance, alive, hk, hp]
      exact alive
    | _ =>
      rw [hp] at dropping
      cases dropping

/-- A lock that is taken is given back by the call that drops its guard. -/
theorem Locks.freed_by (locks : Locks s) (alive : s.violation = none)
    (locked : s.isLockedOut c = true) : ∃ k, ∃ n ≤ 2,
      s.Allows (Dropping k) (List.replicate n (.advance k)) ∧
        (s.acts (List.replicate n (.advance k))).isLockedOut c = false := by
  obtain ⟨call, ⟨id, claims⟩, hc, needs, held⟩ := lock?_of_isLockedOut locked
  obtain ⟨k, -, -, drops, -⟩ := locks.dropper _ _ _ held
  obtain ⟨dropper, hk, dropping, same, -⟩ := get?_of_drops drops
  have other : k ≠ c := by
    rintro rfl
    cases hk.symm.trans hc
    cases hp : call.phase <;> simp [hp, Phase.needsLock, Phase.isDropping] at needs dropping
  have step : s.Possible (.advance k) := not_isLockedOut_of_drops drops
  refine ⟨k, ?_⟩
  cases hp : dropper.phase with
  | releasing ending =>
    exact ⟨1, by omega, ⟨alive, step, ⟨rfl, drops.1⟩, trivial⟩,
      isLockedOut_of_releasing alive hk hp hc other same⟩
  | marking ending =>
    have hact : s.act (.advance k) =
        (s.completeFlag dropper.flag).setPhase k dropper (.releasing ending) := by
      simp only [State.act, advance, alive, hk, hp, markFlag]
    have hk' : (s.act (.advance k)).calls.get? k =
        some { dropper with phase := .releasing ending } := by
      rw [hact]
      exact Store.get?_set_self ..
    have hc' : (s.act (.advance k)).calls.get? c = some call := by
      rw [hact]
      exact (Store.get?_set_of_ne _ other _).trans hc
    have alive' := alive_of_dropping alive drops.1
    have dropping' : ((s.act (.advance k)).phaseOf k).isDropping = true := by
      rw [phaseOf_of_get? hk']
      rfl
    exact ⟨2, by omega, ⟨alive, step, ⟨rfl, drops.1⟩, alive', possible_of_needsLock hk' rfl,
      ⟨rfl, dropping'⟩, trivial⟩, isLockedOut_of_releasing alive' hk' rfl hc' other same⟩
  | _ =>
    rw [hp] at dropping
    cases dropping

/-- **A lock that is taken is given back** by two steps of the call that has it at most. Neither
step waits for anybody. -/
theorem Locks.freed (locks : Locks s) (alive : s.violation = none)
    (locked : s.isLockedOut c = true) : ∃ k, s.FreedBy c k := by
  obtain ⟨k, n, hn, allowed, free⟩ := locks.freed_by alive locked
  exact ⟨k, n, hn, allowed.weaken fun _ _ _ => trivial, free⟩

end

end RunOnce.Protocol
