import RunOnce.Proofs.Waiting.Guards

/-!
# Flags with different handles do not disturb each other

**The desk** (`Desk`). A registry, with the flags that are initialized through it. A step is the
locked section of a call or of a completion, and `Desk.take` is what it answers and what it leaves.
The locked sections of the protocol are steps of this kind (`desk?_enter`, `desk?_complete`), and
what a target tells about its registry is what the desk answers (`desk?_queries`).

Registries that are reached in different orders differ: a new operation goes to the end, and a
completion moves the last operation to the place of its own. Only the order differs.

**Likeness** (`Desk.Alike`). The same flags, and the same operation under each handle. A step looks
at one flag and one handle only (`take_congr`) and leaves the others alone, so it keeps likeness.
Desks that are alike give the same answers for good (`Alike.answers_eq`).

**Theorem (`distinct_handles_commute`).** In every reachable state of a registry two steps for flags
with different handles can be taken in either order. Each gets the same answer, completions hand
over the same waiters in the same order, and no request can tell the two results apart. What an
entering call meets is an operation for its own handle, whatever steps for other handles came before.
-/

namespace RunOnce

/-! ## The desk -/

/-- A registry, with the flags that are initialized through it. -/
structure Desk (ω : Type) where
  flags : Store Nat Flag
  registry : Registry ω

namespace Desk

/-- A locked section: of a call that is known as `who` and would wait as `waiter`, or of a
completion. -/
inductive Step (ω : Type)
  | enter (flag : Nat) (who : Initiator) (waiter : ω)
  | complete (flag : Nat)

/-- What can be asked of a registry. -/
inductive Request (ω : Type)
  | step (a : Step ω)
  | pending (id : FlagId)
  | inFlight

/-- What a registry answers. -/
inductive Answer (ω : Type)
  | admitted (admission : Admission)
  | resumed (waiters : List ω)
  /-- There is no operation to complete. -/
  | missing
  | count (n : Nat)

variable {ω : Type}

/-- The flag that a step is for. -/
def Step.flag : Step ω → Nat
  | .enter flag _ _ | .complete flag => flag

/-- The flag under a key. -/
def flagAt (d : Desk ω) (key : Nat) : Flag := (d.flags.get? key).getD default

/-- The handle of the flag that a step is for. -/
def handle (d : Desk ω) (a : Step ω) : FlagId := (d.flagAt a.flag).id

/-- What a step answers and leaves. -/
def take (d : Desk ω) : Step ω → Answer ω × Desk ω
  | .enter flag who waiter =>
    let (admission, registry) := d.registry.enter (d.flagAt flag) who waiter
    (.admitted admission, { d with registry })
  | .complete flag =>
    let flags := d.flags.modify flag Flag.complete
    match d.registry.retire (d.flagAt flag).id with
    | none => (.missing, { d with flags })
    | some (waiters, registry) => (.resumed waiters, { flags, registry })

/-- What is left after steps, one after another. -/
def takes (d : Desk ω) (steps : List (Step ω)) : Desk ω := steps.foldl (fun d a => (d.take a).2) d

/-- What a request is answered and leaves. -/
def serve (d : Desk ω) : Request ω → Answer ω × Desk ω
  | .step a => d.take a
  | .pending id => (.count (d.registry.pending id), d)
  | .inFlight => (.count d.registry.inFlight, d)

/-- The answers to requests, one after another. -/
def answers (d : Desk ω) : List (Request ω) → List (Answer ω)
  | [] => []
  | q :: rest => (d.serve q).1 :: (d.serve q).2.answers rest

/-- The operations are for different handles. -/
def Distinct (d : Desk ω) : Prop := (d.registry.held.map (·.1)).Nodup

variable {d d' : Desk ω} {a b : Step ω} {f : Nat} {id : FlagId}

/-! ## What a step leaves alone -/

theorem flags_take_of_ne (other : a.flag ≠ f) :
    (d.take a).2.flags.get? f = d.flags.get? f := by
  cases a with
  | enter => rfl
  | complete flag =>
    have hflag : flag ≠ f := other
    unfold take
    dsimp only
    split <;> exact (Store.get?_modify ..).trans (if_neg hflag)

theorem find?_take_of_ne (distinct : d.Distinct) (other : d.handle a ≠ id) :
    (d.take a).2.registry.find? id = d.registry.find? id := by
  cases a with
  | enter => exact Registry.find?_enter_of_ne other
  | complete flag =>
    have hid : (d.flagAt flag).id ≠ id := other
    unfold take
    dsimp only
    split
    · rfl
    · next taken => exact (Registry.find?_retire distinct taken id).trans (if_neg hid)

/-- Flags keep their handles. -/
theorem handle_take (d : Desk ω) (a b : Step ω) : (d.take a).2.handle b = d.handle b := by
  cases a with
  | enter => rfl
  | complete flag =>
    have hmodify : ((d.flags.modify flag Flag.complete).get? b.flag).getD default =
        if flag = b.flag then
          ((d.flags.get? b.flag).map Flag.complete).getD default else d.flagAt b.flag := by
      rw [Store.get?_modify]
      split <;> rfl
    have hid : ((d.flags.modify flag Flag.complete).get? b.flag |>.getD default).id =
        d.handle b := by
      rw [hmodify]
      split
      · rw [handle, flagAt]
        cases d.flags.get? b.flag <;> rfl
      · rfl
    unfold take
    dsimp only
    split <;> exact hid

theorem distinct_take (distinct : d.Distinct) (a : Step ω) : (d.take a).2.Distinct := by
  cases a with
  | enter => exact Registry.distinct_enter distinct
  | complete flag =>
    unfold take
    dsimp only
    split
    · exact distinct
    · next taken => exact (Registry.distinct_retire distinct taken).2

/-- **A step looks at one flag and one handle.** Where these are the same, it answers the same and
leaves the same there. -/
theorem take_congr (distinct : d.Distinct) (distinct' : d'.Distinct)
    (flag : d.flags.get? a.flag = d'.flags.get? a.flag)
    (operation : d.registry.find? (d.handle a) = d'.registry.find? (d.handle a)) :
    (d.take a).1 = (d'.take a).1 ∧
      (d.take a).2.flags.get? a.flag = (d'.take a).2.flags.get? a.flag ∧
      (d.take a).2.registry.find? (d.handle a) = (d'.take a).2.registry.find? (d.handle a) := by
  have hat : d.flagAt a.flag = d'.flagAt a.flag := by rw [flagAt, flag, flagAt]
  cases a with
  | enter f who waiter =>
    have hat : d.flagAt f = d'.flagAt f := hat
    have operation : d.registry.find? (d.flagAt f).id = d'.registry.find? (d.flagAt f).id :=
      operation
    have hcongr : (d.registry.enter (d.flagAt f) who waiter).1 =
          (d'.registry.enter (d.flagAt f) who waiter).1 ∧
        (d.registry.enter (d.flagAt f) who waiter).2.find? (d.flagAt f).id =
          (d'.registry.enter (d.flagAt f) who waiter).2.find? (d.flagAt f).id :=
      Registry.enter_congr operation
    have htake : d'.take (.enter f who waiter) =
        (.admitted (d'.registry.enter (d.flagAt f) who waiter).1,
          { d' with registry := (d'.registry.enter (d.flagAt f) who waiter).2 }) := by
      rw [hat]
      rfl
    rw [htake]
    exact ⟨congrArg Answer.admitted hcongr.1, flag, hcongr.2⟩
  | complete f =>
    have hat : d.flagAt f = d'.flagAt f := hat
    have hflags : (d.flags.modify f Flag.complete).get? f =
        (d'.flags.modify f Flag.complete).get? f := by
      have flag : d.flags.get? f = d'.flags.get? f := flag
      rw [Store.get?_modify, Store.get?_modify, flag]
    have hwaiters : (d.registry.retire (d.flagAt f).id).map Prod.fst =
        (d'.registry.retire (d'.flagAt f).id).map Prod.fst := by
      rw [← hat, Registry.fst_retire distinct, Registry.fst_retire distinct']
      exact congrArg (Option.map _) operation
    have hgone {d : Desk ω} (distinct : d.Distinct) {taken : List ω × Registry ω}
        (h : d.registry.retire (d.flagAt f).id = some taken) :
        taken.2.find? (d.flagAt f).id = none :=
      (Registry.find?_retire distinct h _).trans (if_pos rfl)
    unfold take
    dsimp only
    cases h : d.registry.retire (d.flagAt f).id with
    | none =>
      rw [h] at hwaiters
      rw [Option.map_eq_none_iff.mp hwaiters.symm]
      exact ⟨rfl, hflags, operation⟩
    | some taken =>
      rw [h] at hwaiters
      obtain ⟨taken', h', hsame⟩ := Option.map_eq_some_iff.mp hwaiters.symm
      rw [h']
      refine ⟨congrArg Answer.resumed hsame.symm, hflags, (hgone distinct h).trans ?_⟩
      refine (hgone distinct' h').symm.trans ?_
      rw [← hat]
      rfl

/-! ## Likeness -/

/-- The same flags, and the same operation under each handle. -/
structure Alike (d d' : Desk ω) : Prop where
  flags : ∀ f, d.flags.get? f = d'.flags.get? f
  operations : ∀ id, d.registry.find? id = d'.registry.find? id
  distinct : d.Distinct
  distinct' : d'.Distinct

namespace Alike

theorem handle_eq (alike : Alike d d') (a : Step ω) : d.handle a = d'.handle a := by
  rw [handle, handle, flagAt, flagAt, alike.flags]

theorem take (alike : Alike d d') (a : Step ω) :
    (d.take a).1 = (d'.take a).1 ∧ Alike (d.take a).2 (d'.take a).2 := by
  obtain ⟨hanswer, hflag, hoperation⟩ := take_congr (a := a) alike.distinct alike.distinct'
    (alike.flags _) (alike.operations _)
  refine ⟨hanswer, fun f => ?_, fun id => ?_, distinct_take alike.distinct a,
    distinct_take alike.distinct' a⟩
  · by_cases hf : a.flag = f
    · subst hf
      exact hflag
    · rw [flags_take_of_ne hf, flags_take_of_ne hf, alike.flags]
  · by_cases hid : d.handle a = id
    · subst hid
      exact hoperation
    · have hid' : d'.handle a ≠ id := alike.handle_eq a ▸ hid
      rw [find?_take_of_ne alike.distinct hid, find?_take_of_ne alike.distinct' hid',
        alike.operations]

theorem serve (alike : Alike d d') (q : Request ω) :
    (d.serve q).1 = (d'.serve q).1 ∧ Alike (d.serve q).2 (d'.serve q).2 := by
  cases q with
  | step a => exact alike.take a
  | pending id =>
    have hcount : d.registry.pending id = d'.registry.pending id := by
      rw [Registry.pending, Registry.pending, alike.operations]
    exact ⟨congrArg Answer.count hcount, alike⟩
  | inFlight =>
    have hcount : d.registry.inFlight = d'.registry.inFlight :=
      (Registry.operations_perm alike.distinct alike.distinct' alike.operations).length_eq
    exact ⟨congrArg Answer.count hcount, alike⟩

/-- **Desks that are alike answer alike**, however many requests come. -/
theorem answers_eq (alike : Alike d d') (requests : List (Request ω)) :
    d.answers requests = d'.answers requests := by
  induction requests generalizing d d' with
  | nil => rfl
  | cons q rest ih =>
    obtain ⟨hanswer, hnext⟩ := alike.serve q
    rw [answers, answers, hanswer, ih hnext]

end Alike

/-! ## Steps for different handles -/

theorem flag_ne_of_handle_ne (apart : d.handle a ≠ d.handle b) : a.flag ≠ b.flag := by
  intro h
  exact apart (by rw [handle, handle, h])

/-- A step answers the same, and leaves the same for its own flag and handle, after a step for
another handle. -/
theorem take_after (distinct : d.Distinct) (apart : d.handle a ≠ d.handle b) :
    ((d.take b).2.take a).1 = (d.take a).1 ∧
      ((d.take b).2.take a).2.flags.get? a.flag = (d.take a).2.flags.get? a.flag ∧
      ((d.take b).2.take a).2.registry.find? (d.handle a) =
        (d.take a).2.registry.find? (d.handle a) := by
  have hflag : (d.take b).2.flags.get? a.flag = d.flags.get? a.flag :=
    flags_take_of_ne (flag_ne_of_handle_ne apart).symm
  have hoperation : (d.take b).2.registry.find? (d.handle a) = d.registry.find? (d.handle a) :=
    find?_take_of_ne distinct apart.symm
  have hcongr := take_congr (a := a) (distinct_take distinct b) distinct hflag
  rw [handle_take] at hcongr
  exact hcongr hoperation

/-- **Steps for different handles commute** up to likeness. -/
theorem take_comm (distinct : d.Distinct) (apart : d.handle a ≠ d.handle b) :
    Alike ((d.take a).2.take b).2 ((d.take b).2.take a).2 := by
  obtain ⟨-, hflag, hoperation⟩ := take_after distinct apart
  obtain ⟨-, hflag', hoperation'⟩ := take_after distinct apart.symm
  have hdistinct := distinct_take distinct a
  have hdistinct' := distinct_take distinct b
  refine ⟨fun f => ?_, fun id => ?_, distinct_take hdistinct b, distinct_take hdistinct' a⟩
  · by_cases hb : b.flag = f
    · subst hb
      rw [hflag', flags_take_of_ne (flag_ne_of_handle_ne apart)]
    · rw [flags_take_of_ne hb]
      by_cases ha : a.flag = f
      · subst ha
        rw [hflag]
      · rw [flags_take_of_ne ha, flags_take_of_ne ha, flags_take_of_ne hb]
  · have hhandle : (d.take a).2.handle b = d.handle b := handle_take d a b
    have hhandle' : (d.take b).2.handle a = d.handle a := handle_take d b a
    by_cases hb : d.handle b = id
    · subst hb
      rw [hoperation', find?_take_of_ne hdistinct' (hhandle'.trans_ne apart)]
    · rw [find?_take_of_ne hdistinct (hhandle.trans_ne hb)]
      by_cases ha : d.handle a = id
      · subst ha
        rw [hoperation]
      · rw [find?_take_of_ne distinct ha, find?_take_of_ne hdistinct' (hhandle'.trans_ne ha),
          find?_take_of_ne distinct hb]

/-- Any number of steps for other handles leave the answer to a step as it is. -/
theorem take_takes (distinct : d.Distinct) {others : List (Step ω)}
    (apart : ∀ b ∈ others, d.handle b ≠ d.handle a) :
    ((d.takes others).take a).1 = (d.take a).1 := by
  induction others generalizing d with
  | nil => rfl
  | cons b rest ih =>
    obtain ⟨hb, hrest⟩ := List.forall_mem_cons.mp apart
    have hnext := ih (d := (d.take b).2) (distinct_take distinct b) fun b' hb' => by
      rw [handle_take, handle_take]
      exact hrest b' hb'
    exact hnext.trans (take_after distinct hb.symm).1

/-- **What an entering call meets.** It waits or is told that it is reentrant if and only if its
flag is clear and an operation for its own handle is in flight. -/
theorem take_enter_iff (d : Desk ω) (f : Nat) (who : Initiator) (w : ω) :
    ((∃ queued, (d.take (.enter f who w)).1 = .admitted (.waiting queued)) ∨
      (d.take (.enter f who w)).1 = .admitted .reentrant) ↔
    (d.flagAt f).isDone = false ∧ ∃ op ∈ d.registry.operations, op.flag = (d.flagAt f).id := by
  have hfind : (∃ op ∈ d.registry.operations, op.flag = (d.flagAt f).id) ↔
      d.registry.find? (d.flagAt f).id ≠ none := by
    simp [Registry.find?]
  rw [hfind]
  show ((∃ queued, Answer.admitted (d.registry.enter (d.flagAt f) who w).1 =
      .admitted (.waiting queued)) ∨
    Answer.admitted (d.registry.enter (d.flagAt f) who w).1 = .admitted .reentrant) ↔ _
  rcases d.registry.enter_cases (d.flagAt f) who w with
    ⟨hdone, he⟩ | ⟨hclear, ⟨op, hop, -⟩, he⟩ | ⟨hclear, ⟨op, hop, -⟩, queued, _, he, -⟩ |
    ⟨-, hnone, _, he, -⟩
  · simp [he, hdone]
  · simp [he, hclear, hop]
  · simp [he, hclear, hop]
  · simp [he, hnone]

end Desk

/-! ## The desk of a target -/

namespace Protocol

variable {α : Type}

/-- The phase in which a call goes on. -/
def phaseAdmitted (flavour : Flavour) (id : FlagId) : Admission → Phase α
  | .done => .concluding
  | .reentrant => .ended (.failed (.reentrant id))
  | .waiting _ => .queued (State.signalFor flavour)
  | .won => .running

namespace State

/-- The registry of a target, with the flags. -/
def desk? (s : State α) (t : Nat) : Option (Desk Nat) :=
  match (s.targets.get? t).map Target.executor with
  | some (.registry r) => some ⟨s.flags, r⟩
  | some (.table _) | none => none

variable {s : State α} {c t : Nat} {call : Call α} {d : Desk Nat}

theorem desk?_eq_some_iff : s.desk? t = some d ↔ d.flags = s.flags ∧
    ∃ target, s.targets.get? t = some target ∧ target.executor = .registry d.registry := by
  obtain ⟨flags, registry⟩ := d
  unfold desk?
  cases s.targets.get? t with
  | none => simp
  | some target =>
    cases he : target.executor <;> simp [he, eq_comm]

theorem desk?_setExecutor (hd : s.desk? t = some d) (registry : Registry Nat) :
    (s.setExecutor t (.registry registry)).desk? t = some { d with registry } := by
  obtain ⟨hflags, target, ht, -⟩ := desk?_eq_some_iff.mp hd
  refine desk?_eq_some_iff.mpr ⟨hflags, { target with executor := .registry registry }, ?_, rfl⟩
  show (s.targets.modify t _).get? t = _
  rw [Store.get?_modify, if_pos rfl, ht]
  rfl

theorem executorOf_of_desk? (hd : s.desk? call.target = some d) :
    s.executorOf call = some (.registry d.registry) := by
  obtain ⟨-, target, ht, he⟩ := desk?_eq_some_iff.mp hd
  rw [executorOf, ht, Option.map_some, he]

theorem flagOf_of_desk? (hd : s.desk? t = some d) (call : Call α) :
    s.flagOf call = d.flagAt call.flag := by
  rw [flagOf, Desk.flagAt, (desk?_eq_some_iff.mp hd).1]

/-- The locked section of a call is a step. -/
theorem desk?_enter (alive : s.violation = none) (hc : s.calls.get? c = some call)
    (phase : call.phase = .contending) (hd : s.desk? call.target = some d) :
    ∃ admission, (d.take (.enter call.flag (s.identify call).1 c)).1 = .admitted admission ∧
      (s.advance c).1.desk? call.target =
        some (d.take (.enter call.flag (s.identify call).1 c)).2 ∧
      (s.advance c).1.phaseOf c = phaseAdmitted call.flavour (d.flagAt call.flag).id admission := by
  have hadvance : s.advance c = s.enterRegistry c call d.registry := by
    simp only [advance, alive, hc, phase, enter, executorOf_of_desk? hd]
  obtain ⟨n, -, hknown⟩ := identify_eq s call
  have hd' : (s.identify call).2.desk? call.target = some d := by
    rw [hknown]
    exact hd
  cases hadmit : d.registry.enter (d.flagAt call.flag) (s.identify call).1 c with
  | mk admission registry =>
    have htake : d.take (.enter call.flag (s.identify call).1 c) =
        (.admitted admission, { d with registry }) := by
      simp only [Desk.take, hadmit]
    have hdesk := desk?_setExecutor hd' registry
    refine ⟨admission, by rw [htake], ?_⟩
    rw [hadvance, enterRegistry, htake]
    simp only [flagOf_of_desk? hd, hadmit]
    cases admission with
    | _ => exact ⟨hdesk, phaseOf_setCall ..⟩

/-- The locked section of a completion is a step. -/
theorem desk?_complete {ending : Ending} (alive : s.violation = none)
    (hc : s.calls.get? c = some call) (phase : call.phase = .completing ending)
    (hd : s.desk? call.target = some d) {waiters : List Nat}
    (found : (d.take (.complete call.flag)).1 = .resumed waiters) :
    (s.advance c).1.desk? call.target = some (d.take (.complete call.flag)).2 ∧
      (s.advance c).1.phaseOf c = .resuming waiters ending := by
  have hadvance : s.advance c = s.complete c call ending := by
    simp only [advance, alive, hc, phase]
  have hflags := (desk?_eq_some_iff.mp hd).1
  rw [hadvance, complete]
  simp only [executorOf_of_desk? hd, retire, flagOf_of_desk? hd]
  unfold Desk.take at found ⊢
  dsimp only at found ⊢
  cases taken : d.registry.retire (d.flagAt call.flag).id with
  | none =>
    rw [taken] at found
    cases found
  | some left =>
    rw [taken] at found
    cases found
    refine ⟨?_, phaseOf_setCall ..⟩
    have hd' : (s.completeFlag call.flag).desk? call.target =
        some { d with flags := d.flags.modify call.flag Flag.complete } := by
      obtain ⟨-, target, ht, he⟩ := desk?_eq_some_iff.mp hd
      refine desk?_eq_some_iff.mpr ⟨?_, target, ht, he⟩
      rw [hflags]
      rfl
    exact desk?_setExecutor hd' left.2

/-- What the target tells is what the desk answers. -/
theorem desk?_queries (hd : s.desk? t = some d) : ∃ target, s.targets.get? t = some target ∧
    (∀ id, (d.serve (.pending id)).1 = .count (target.pending id)) ∧
    (d.serve .inFlight).1 = .count target.inFlight := by
  obtain ⟨-, target, ht, he⟩ := desk?_eq_some_iff.mp hd
  refine ⟨target, ht, fun id => ?_, ?_⟩
  · rw [Target.pending, he]
    rfl
  · rw [Target.inFlight, he]
    rfl

/-- In every reachable state the operations of a registry are for different handles. -/
theorem distinct_desk (inv : s.board.Inv) (hd : s.desk? t = some d) : d.Distinct := by
  obtain ⟨-, target, ht, he⟩ := desk?_eq_some_iff.mp hd
  have hnodup := flags_nodup inv ht he
  rwa [Registry.map_flag_operations] at hnodup

end State

open State

/-- **Steps for different handles commute.** Take two steps for flags with different handles in a
reachable state of a registry. In either order each of them gets the same answer, the flags are the
same, and every sequence of requests is answered the same afterwards. An entering call waits or is
told that it is reentrant only for an operation of its own handle, and steps for other handles
before it, however many, do not change what it is told. -/
theorem distinct_handles_commute {rule : State α → Action α → Prop} {s₀ s : State α}
    {past : List (Moment α)} {t : Nat} {d : Desk Nat} {a b : Desk.Step Nat}
    (run : Run rule s₀ past s) (fresh : s₀.IsFresh) (hd : s.desk? t = some d)
    (apart : d.handle a ≠ d.handle b) :
    ((d.take b).2.take a).1 = (d.take a).1 ∧
    ((d.take a).2.take b).1 = (d.take b).1 ∧
    (∀ f, ((d.take a).2.take b).2.flags.get? f = ((d.take b).2.take a).2.flags.get? f) ∧
    (∀ requests,
      ((d.take a).2.take b).2.answers requests = ((d.take b).2.take a).2.answers requests) ∧
    (∀ f who w, ((∃ queued, (d.take (.enter f who w)).1 = .admitted (.waiting queued)) ∨
        (d.take (.enter f who w)).1 = .admitted .reentrant) ↔
      (d.flagAt f).isDone = false ∧ ∃ op ∈ d.registry.operations, op.flag = (d.flagAt f).id) ∧
    ∀ others : List (Desk.Step Nat), (∀ other ∈ others, d.handle other ≠ d.handle a) →
      ((d.takes others).take a).1 = (d.take a).1 := by
  have distinct := distinct_desk (run.board_inv fresh) hd
  have alike := Desk.take_comm distinct apart
  exact ⟨(Desk.take_after distinct apart).1, (Desk.take_after distinct apart.symm).1, alike.flags,
    alike.answers_eq, d.take_enter_iff, fun _ => Desk.take_takes distinct⟩

/-- A registry and three flags. -/
def deskStart : State Unit where
  flags := ⟨[(1, { id := ⟨0⟩ }), (2, { id := ⟨1⟩ }), (3, { id := ⟨2⟩ })]⟩
  targets := ⟨[(0, Target.inProcess)]⟩
  image := { self := 1, isAlive := fun _ => true }
  nextKey := 4

/-- The operations for two flags are in flight, and a task waits for the first one. -/
def deskActions : List (Action Unit) :=
  [queueCall .blocking "main" 1, queueCall .blocking "other" 2, queueCall .async "main" 1,
    .advance 4, .advance 4, .advance 5, .advance 5, .advance 6, .advance 6]

theorem desk_isFresh : deskStart.IsFresh := by
  refine isFresh_of_registries (fun _ => rfl) (fun t target ht => ?_) rfl
  simp only [deskStart, Store.get?, Store.lookup] at ht
  split at ht
  · cases ht
    rfl
  · cases ht

theorem desk_allowed : deskStart.Allows (fun _ _ => True) deskActions :=
  ⟨rfl, ⟨Or.inr rfl, rfl, ⟨_, rfl⟩, ⟨_, rfl⟩, nofun⟩, trivial,
    rfl, ⟨Or.inr rfl, rfl, ⟨_, rfl⟩, ⟨_, rfl⟩, nofun⟩, trivial,
    rfl, ⟨Or.inr rfl, rfl, ⟨_, rfl⟩, ⟨_, rfl⟩, nofun⟩, trivial,
    rfl, rfl, trivial, rfl, rfl, trivial, rfl, rfl, trivial, rfl, rfl, trivial,
    rfl, rfl, trivial, rfl, rfl, trivial, trivial⟩

/-- What is reached. -/
def deskReached : Desk Nat where
  flags := deskStart.flags
  registry := ⟨[{ flag := ⟨0⟩, initiator := .thread "main", waiters := [6] },
    { flag := ⟨1⟩, initiator := .thread "other" }]⟩

/-- A completion and an entering call whose two orders leave the operations in two orders. The task
is resumed either way, and no request tells which order it was. -/
theorem distinct_handles_commute_swap :
    (deskStart.acts deskActions).desk? 0 = some deskReached ∧
    ((deskReached.take (.complete 1)).2.take (.enter 3 (.thread "main") 7)).2.registry ≠
      ((deskReached.take (.enter 3 (.thread "main") 7)).2.take (.complete 1)).2.registry ∧
    ((deskReached.take (.enter 3 (.thread "main") 7)).2.take (.complete 1)).1 = .resumed [6] ∧
    ∀ requests,
      ((deskReached.take (.complete 1)).2.take (.enter 3 (.thread "main") 7)).2.answers requests =
        ((deskReached.take (.enter 3 (.thread "main") 7)).2.take (.complete 1)).2.answers
          requests := by
  obtain ⟨hanswer, -, -, hanswers, -⟩ := distinct_handles_commute (t := 0) (d := deskReached)
    (a := .complete 1) (b := .enter 3 (.thread "main") 7) (Run.of_allows desk_allowed) desk_isFresh
    rfl (by decide)
  exact ⟨rfl, by decide, hanswer, hanswers⟩

end Protocol

end RunOnce
