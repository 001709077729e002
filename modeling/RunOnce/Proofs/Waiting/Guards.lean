import Mathlib.Data.Set.Card
import RunOnce.Proofs.Waiting.Order

/-!
# What a registry has in flight, and why nothing aborts

**Guards** (`State.guardsOf`). A call that has an initialization in flight through a target will
complete it, however its initializer ends.

**Theorem (`registry_sound`).** After every run the operations of a registry are for different
handles, one for each guard, so their number is the number of guards. No completion misses its
operation. If the calls through the registry tell flags apart by their handles, then no call through
it aborts at all.

A step aborts for one of a few reasons only (`violation_effect`). The one that depends on others is
a flag that is still clear when a call makes sure of it, and the invariant of the hall says that a
flag for the same handle is set by then.
-/

namespace RunOnce.Protocol

variable {α : Type}

namespace State

/-- The calls that have an initialization in flight through a target. -/
def guardsOf (s : State α) (t : Nat) : Set Nat := {w | ∃ id, s.InFlight w t id}

/-- The handle that a call goes for. -/
def handleOf (s : State α) (c : Nat) : FlagId := ((s.place? c).map Prod.snd).getD default

variable {s s' : State α} {c t w : Nat} {id : FlagId} {call : Call α} {r : Registry Nat}
  {target : Target}

/-! ## Operations and guards -/

theorem handleOf_of_inFlight (hw : s.InFlight w t id) : s.handleOf w = id := by
  rw [handleOf, (inFlight_iff_place?.mp hw).2]
  rfl

theorem held_of_registry (ht : s.targets.get? t = some target)
    (he : target.executor = .registry r) : s.board.held t = r.held := by
  show ((s.targets.get? t).map fun target => target.executor.held).getD [] = _
  rw [ht, Option.map_some, he]
  rfl

/-- The handles of the operations of a registry. -/
theorem mem_flags_iff (ht : s.targets.get? t = some target) (he : target.executor = .registry r) :
    id ∈ r.operations.map (·.flag) ↔ ∃ who, (id, who) ∈ s.board.held t := by
  rw [held_of_registry ht he, Registry.map_flag_operations, List.mem_map]
  constructor
  · rintro ⟨⟨id, who⟩, hmem, rfl⟩
    exact ⟨who, hmem⟩
  · rintro ⟨who, hmem⟩
    exact ⟨(id, who), hmem, rfl⟩

theorem flags_nodup (inv : s.board.Inv) (ht : s.targets.get? t = some target)
    (he : target.executor = .registry r) : (r.operations.map (·.flag)).Nodup := by
  rw [Registry.map_flag_operations, ← held_of_registry ht he]
  exact inv.distinct t

theorem handleOf_mapsTo (inv : s.board.Inv) (ht : s.targets.get? t = some target)
    (he : target.executor = .registry r) :
    Set.MapsTo s.handleOf (s.guardsOf t) {id | id ∈ r.operations.map (·.flag)} := by
  rintro w ⟨id, hw⟩
  obtain ⟨who, hclaim⟩ := (inFlight_iff inv).mp hw
  show s.handleOf w ∈ r.operations.map (·.flag)
  rw [handleOf_of_inFlight hw, mem_flags_iff ht he]
  exact ⟨who, (inv.mem_held t id who).mpr ⟨w, hclaim⟩⟩

theorem handleOf_injOn (inv : s.board.Inv) : Set.InjOn s.handleOf (s.guardsOf t) := by
  rintro w ⟨id, hw⟩ w' ⟨id', hw'⟩ hsame
  rw [handleOf_of_inFlight hw, handleOf_of_inFlight hw'] at hsame
  subst hsame
  exact holds_alone inv (p := (t, id)) (holds_iff.mpr hw') (holds_iff.mpr hw)

theorem handleOf_surjOn (inv : s.board.Inv) (ht : s.targets.get? t = some target)
    (he : target.executor = .registry r) :
    Set.SurjOn s.handleOf (s.guardsOf t) {id | id ∈ r.operations.map (·.flag)} := by
  intro id hid
  obtain ⟨who, hmem⟩ := (mem_flags_iff ht he).mp hid
  obtain ⟨w, holder⟩ := exists_holds inv hmem
  have hw : s.InFlight w t id := holds_iff.mp holder
  exact ⟨w, ⟨id, hw⟩, handleOf_of_inFlight hw⟩

/-- **Operations and guards correspond.** -/
theorem handleOf_bijOn (inv : s.board.Inv) (ht : s.targets.get? t = some target)
    (he : target.executor = .registry r) :
    Set.BijOn s.handleOf (s.guardsOf t) {id | id ∈ r.operations.map (·.flag)} :=
  ⟨handleOf_mapsTo inv ht he, handleOf_injOn inv, handleOf_surjOn inv ht he⟩

theorem inFlight_eq_ncard (inv : s.board.Inv) (ht : s.targets.get? t = some target)
    (he : target.executor = .registry r) : r.inFlight = (s.guardsOf t).ncard := by
  have hbij := handleOf_bijOn inv ht he
  have hlist : {id | id ∈ r.operations.map (·.flag)} =
      ((r.operations.map (·.flag)).toFinset : Set FlagId) := by
    ext id
    simp
  rw [← hbij.injOn.ncard_image, hbij.image_eq, hlist, Set.ncard_coe_finset,
    List.toFinset_card_of_nodup (flags_nodup inv ht he), List.length_map]
  rfl

/-! ## Aborts -/

theorem violation_identify (s : State α) (call : Call α) :
    (s.identify call).2.violation = s.violation := by
  obtain ⟨n, -, hn⟩ := identify_eq s call
  rw [hn]

/-- **Why a step aborts**: through a slot table, or because a flag is clear that should be set. -/
theorem violation_effect {notices : List (Notice α)} (inv : s.board.Inv)
    (hc : s.calls.get? c = some call) (effect : Effect s c call s' notices) :
    s'.violation = s.violation ∨
    ((∃ table, s.executorOf call = some (.table table)) ∧
      s'.violation ≠ some .missingOperation) ∨
    (call.phase = .concluding ∧ (s.flagOf call).isDone = false ∧
      s'.violation = some (.unsetFlag (s.flagOf call).id)) := by
  cases effect with
  | late | meets | joins | wins | recurs | loses | claims =>
    exact Or.inl (violation_identify s call)
  | hands => exact Or.inl (violation_handOver ..)
  | lacks phase through => exact Or.inr (Or.inl ⟨⟨_, through⟩, by simp⟩)
  | breaks phase seen => exact Or.inr (Or.inl ⟨table_of_slotSeen? seen, by simp⟩)
  | fails phase clear => exact Or.inr (Or.inr ⟨phase, clear, rfl⟩)
  | misses phase through missing => exact absurd missing (retire_ne_none inv hc phase through)
  | _ => exact Or.inl rfl

/-- A call through a registry that tells flags apart goes on only when its flag is set. -/
theorem isDone_of_concluding (hall : s.hall.Inv) (apart : s.TellsApart call.target)
    (hc : s.calls.get? c = some call) (phase : call.phase = .concluding) :
    (s.flagOf call).isDone = true := by
  have hseat : s.hall.seat c = .finishing := by
    rw [seat_hall hc, phase]
    rfl
  obtain ⟨w, p, hw, hp, hset⟩ := hall.released c (Or.inr hseat)
  obtain ⟨other, hother, rfl⟩ := Option.map_eq_some_iff.mp hw
  obtain ⟨mine, hmine, hsame⟩ := Option.map_eq_some_iff.mp hp
  rw [hc] at hmine
  cases hmine
  obtain ⟨htarget, hid⟩ := Prod.mk.inj hsame
  have hflag := apart c w call other hc hother rfl htarget.symm hid
  rw [flag_hall hother, ← hflag] at hset
  rw [← isSet_eq]
  exact hset

/-- No step of a call through a registry that tells flags apart aborts. -/
theorem violation_advance (inv : s.board.Inv) (hall : s.hall.Inv) (apart : s.TellsApart call.target)
    (hc : s.calls.get? c = some call) (through : s.executorOf call = some (.registry r)) :
    (s.advance c).1.violation = s.violation := by
  cases alive : s.violation with
  | some v => simp only [advance, alive]
  | none =>
    rw [← alive]
    rcases violation_effect inv hc (effect_advance alive hc) with
      same | ⟨⟨table, htable⟩, -⟩ | ⟨phase, clear, -⟩
    · exact same
    · rw [through] at htable
      cases htable
    · rw [isDone_of_concluding hall apart hc phase] at clear
      cases clear

end State

open State

/-- No completion ever misses its operation. -/
theorem Run.violation_ne_missing {rule : State α → Action α → Prop} {s₀ s : State α}
    {past : List (Moment α)} (run : Run rule s₀ past s) (fresh : s₀.IsFresh) :
    s.violation ≠ some .missingOperation := by
  induction run with
  | start => simp [fresh.violation]
  | @step past s a run alive possible _ ih =>
    have impact := impact_act alive possible
    generalize s.act a = s' at impact
    cases impact with
    | steps known effect =>
      rcases violation_effect (run.board_inv fresh) known effect with
        same | ⟨-, hne⟩ | ⟨-, -, unset⟩
      · rw [same]
        exact ih
      · exact hne
      · simp [unset]
    | _ => exact ih

/-- **A registry is sound.** After every run its operations are for different handles and correspond
to the guards, whose number it tells, and no completion misses its operation. If the calls through
it tell flags apart by their handles, no step of theirs aborts. -/
theorem registry_sound {rule : State α → Action α → Prop} {s₀ s : State α}
    {past : List (Moment α)} {t : Nat} {target : Target} {r : Registry Nat}
    (run : Run rule s₀ past s) (fresh : s₀.IsFresh) (ht : s.targets.get? t = some target)
    (he : target.executor = .registry r) :
    (r.operations.map (·.flag)).Nodup ∧
    Set.BijOn s.handleOf (s.guardsOf t) {id | id ∈ r.operations.map (·.flag)} ∧
    r.inFlight = (s.guardsOf t).ncard ∧
    s.violation ≠ some .missingOperation ∧
    (s.TellsApart t → ∀ c call, s.calls.get? c = some call → call.target = t →
      (s.advance c).1.violation = s.violation) := by
  have inv := run.board_inv fresh
  refine ⟨flags_nodup inv ht he, handleOf_bijOn inv ht he, inFlight_eq_ncard inv ht he,
    run.violation_ne_missing fresh, ?_⟩
  rintro apart c call hc rfl
  refine violation_advance inv (run.hall_inv fresh) apart hc (r := r) ?_
  rw [executorOf, ht, ← he]
  rfl

/-- Two calls for two flags, of which both have an operation in flight. -/
def guardsActions : List (Action Unit) :=
  [queueCall .async "main" 1, queueCall .blocking "main" 2, .advance 3, .advance 3, .advance 4,
    .advance 4]

theorem guards_allowed : queueStart.Allows (fun _ _ => True) guardsActions :=
  ⟨rfl, ⟨Or.inr rfl, rfl, ⟨_, rfl⟩, ⟨_, rfl⟩, nofun⟩, trivial,
    rfl, ⟨Or.inr rfl, rfl, ⟨_, rfl⟩, ⟨_, rfl⟩, nofun⟩, trivial,
    rfl, rfl, trivial, rfl, rfl, trivial, rfl, rfl, trivial, rfl, rfl, trivial,
    trivial⟩

theorem guards_apart : (queueStart.acts guardsActions).TellsApart 0 := by
  have hcall {c : Nat} {call : Call Unit}
      (hc : (queueStart.acts guardsActions).calls.get? c = some call) :
      call.flag = 1 ∨ call.flag = 2 := by
    have hcalls : (queueStart.acts guardsActions).calls =
        ⟨[(3, { flavour := .async, thread := "main", target := 0, flag := 1,
                initiator := some (.scope 1), phase := .running }),
          (4, { flavour := .blocking, thread := "main", target := 0, flag := 2,
                initiator := some (.thread "main"), phase := .running })]⟩ := rfl
    simp only [hcalls, Store.get?, Store.lookup] at hc
    split at hc
    · cases hc
      exact Or.inl rfl
    · split at hc
      · cases hc
        exact Or.inr rfl
      · cases hc
  have hid {call : Call Unit} {f : Nat} (hf : call.flag = f) :
      (queueStart.acts guardsActions).flagOf call =
        (((queueStart.acts guardsActions).flags.get? f).getD default) := by rw [flagOf, hf]
  intro c c' call call' hc hc' _ _ hsame
  rcases hcall hc with hf | hf <;> rcases hcall hc' with hf' | hf'
  · rw [hf, hf']
  · rw [hid hf, hid hf'] at hsame
    cases hsame
  · rw [hid hf, hid hf'] at hsame
    cases hsame
  · rw [hf, hf']

/-- Both guards are counted, and neither of them aborts. -/
theorem registry_sound_two : ∃ r, (queueStart.acts guardsActions).targets.get? 0 =
      some { executor := .registry r } ∧ r.inFlight = 2 ∧
    ((queueStart.acts guardsActions).guardsOf 0).ncard = 2 ∧
    ((queueStart.acts guardsActions).advance 3).1.violation = none := by
  refine ⟨_, rfl, rfl, ?_, ?_⟩
  all_goals
    obtain ⟨-, -, hcount, -, hsafe⟩ := registry_sound (t := 0) (Run.of_allows guards_allowed)
      queue_isFresh rfl rfl
  · exact hcount.symm
  · exact hsafe guards_apart 3 _ rfl rfl

end RunOnce.Protocol
