import RunOnce.Proofs.Agreement.Setting
import RunOnce.Proofs.Protocol.Enter
import RunOnce.Proofs.Protocol.Run

/-!
# States in which a program runs

**A state fits** (`Fits`) a list of initializers that run around each other, and a list of flags
that are set, if its flags, its executor and its calls agree with them.

**A call that visits** such a state (`Visits`) is one more, which runs no initializer yet, or none
any more. When it is issued it looks at its flag (`Visits.loads`). One for a set flag returns
(`Visits.concludes`). In the locked section one that meets its own initializer is refused
(`Visits.refused`), and any other one begins its initializer (`Visits.opens`). Once this has ended,
its flag is set (`Fits.closes`), in one step of a call through a registry and in three of one through
a slot table, and the call is over (`Visits.resumes`). Each time the state fits, whether calls go
through a registry or a slot table, and in either flavour.
-/

namespace RunOnce.Scenario

open Protocol Region

/-- A state agrees with the initializers that run, the innermost first, each with its flag and its
call, and with the flags that are set. -/
structure Fits (S : Setting) (who : Initiator) (around : List (String × Nat)) (set : List String)
    (s : State Value) : Prop where
  alive : s.violation = none
  identity : S.Allows who
  flag : ∀ f ∈ S.flags, s.flags.get? (S.key f) = some { id := S.ids f, isDone := decide (f ∈ set) }
  target : ∃ t, s.targets.get? S.place = some t ∧
    S.Suits who around set s.image.directory t.executor
  call : ∀ p ∈ around, ∃ outer, s.calls.get? p.2 = some (S.visit p.1 outer (some who) .running)
  older : ∀ p ∈ around, p.2 < s.nextKey
  unset : ∀ p ∈ around, p.1 ∈ S.flags ∧ p.1 ∉ set
  apart : (around.map (·.1)).Nodup

/-- While initializers run, there is one more call that runs none of them. -/
structure Visits (S : Setting) (who : Initiator) (around : List (String × Nat)) (set : List String)
    (c : Nat) (call : Call Value) (s : State Value) : Prop where
  fits : Fits S who around set s
  here : s.calls.get? c = some call
  other : ∀ p ∈ around, p.2 ≠ c
  old : c < s.nextKey

/-- The innermost call whose initializer runs. -/
def outerOf (around : List (String × Nat)) : Option Nat := around.head?.map (·.2)

/-- A call takes a step by itself, and nothing but records comes of it. -/
def Goes (s : State Value) (c : Nat) (s' : State Value) : Prop :=
  ∃ records : List Record, s.advance c = (s', records.map .log)

/-- Whether the initializer of a call has ended, and the call is not over. -/
def Phase.isLeaving : Phase Value → Bool
  | .completing _ | .marking _ | .releasing _ | .resuming _ _ => true
  | _ => false

/-- A call takes steps by itself after its initializer has ended, and nothing but records comes of
them. -/
inductive Completes (c : Nat) (s : State Value) : State Value → Prop
  | rests : Completes c s s
  | step {s' s'' : State Value} (before : Completes c s s')
      (leaving : Phase.isLeaving (s'.phaseOf c) = true) (goes : Goes s' c s'')
      (alive : s''.violation = none) : Completes c s s''

section

variable {S : Setting} {who : Initiator} {around : List (String × Nat)} {set : List String}
  {s s' : State Value} {f : String} {c : Nat} {outer : Option Nat} {initiator : Option Initiator}
  {call call' : Call Value}

/-! ## What fits -/

/-- Nothing that a state has to fit changes. -/
theorem Fits.transfer (fits : Fits S who around set s) (alive : s'.violation = none)
    (flags : s'.flags = s.flags) (targets : s'.targets = s.targets) (image : s'.image = s.image)
    (next : s.nextKey ≤ s'.nextKey)
    (calls : ∀ p ∈ around, s'.calls.get? p.2 = s.calls.get? p.2) : Fits S who around set s' where
  alive := alive
  identity := fits.identity
  flag f hf := by rw [flags]; exact fits.flag f hf
  target := by rw [targets, image]; exact fits.target
  call p hp := by rw [calls p hp]; exact fits.call p hp
  older p hp := Nat.lt_of_lt_of_le (fits.older p hp) next
  unset := fits.unset
  apart := fits.apart

theorem Fits.known (fits : Fits S who around set s) : ∀ p ∈ around, p.1 ∈ S.flags :=
  fun p hp => (fits.unset p hp).1

/-- The identity does not matter while no initializer runs. -/
theorem Fits.rename (fits : Fits S who [] set s) {who' : Initiator} (identity : S.Allows who') :
    Fits S who' [] set s where
  alive := fits.alive
  identity := identity
  flag := fits.flag
  target := fits.target
  call _ hp := absurd hp List.not_mem_nil
  older _ hp := absurd hp List.not_mem_nil
  unset _ hp := absurd hp List.not_mem_nil
  apart := fits.apart

theorem Fits.flagOf (fits : Fits S who around set s) (hf : f ∈ S.flags) (outer : Option Nat)
    (initiator : Option Initiator) (phase : Phase Value) :
    s.flagOf (S.visit f outer initiator phase) =
      { id := S.ids f, isDone := decide (f ∈ set) } := by
  show (s.flags.get? (S.key f)).getD default = _
  rw [fits.flag f hf]
  rfl

theorem Fits.flagOf_clear (fits : Fits S who around set s) (hf : f ∈ S.flags) (clear : f ∉ set)
    (outer : Option Nat) (initiator : Option Initiator) (phase : Phase Value) :
    s.flagOf (S.visit f outer initiator phase) = { id := S.ids f } := by
  rw [fits.flagOf hf]
  simp [clear]

/-- Flags that differ are under keys that differ, because their handles differ. -/
theorem Fits.key_inj (fits : Fits S who around set s) {g : String} (hf : f ∈ S.flags)
    (hg : g ∈ S.flags) (same : S.key f = S.key g) : f = g := by
  have hflag := (fits.flag f hf).symm.trans (same ▸ fits.flag g hg)
  exact S.distinct f hf g hg (congrArg Flag.id (Option.some.inj hflag))

/-- No flag runs twice. -/
theorem Fits.name_ne (fits : Fits S who ((f, c) :: around) set s) {p : String × Nat}
    (hp : p ∈ around) : p.1 ≠ f := by
  have hmem : p.1 ∈ around.map (·.1) := List.mem_map_of_mem hp
  rintro rfl
  exact (List.nodup_cons.mp fits.apart).1 hmem

/-- The calls of the initializers around the innermost one are others. -/
theorem Fits.other (fits : Fits S who ((f, c) :: around) set s) : ∀ p ∈ around, p.2 ≠ c := by
  intro p hp same
  obtain ⟨outer, here⟩ := fits.call _ List.mem_cons_self
  obtain ⟨outer', there⟩ := fits.call p (List.mem_cons_of_mem _ hp)
  rw [same] at there
  have hkey : S.key p.1 = S.key f := congrArg Call.flag (Option.some.inj (there.symm.trans here))
  exact fits.name_ne hp (fits.key_inj (fits.known p (List.mem_cons_of_mem _ hp))
    (fits.known _ List.mem_cons_self) hkey)

/-- A call that is issued comes as a visit. -/
theorem Fits.issue (fits : Fits S who around set s) (call : Call Value) :
    Visits S who around set (s.issue call).1 call (s.issue call).2 where
  fits := fits.transfer fits.alive rfl rfl rfl (Nat.le_succ _) fun p hp =>
    Store.get?_set_of_ne _ (Nat.ne_of_gt (fits.older p hp)) _
  here := Store.get?_set_self ..
  other p hp := Nat.ne_of_lt (fits.older p hp)
  old := Nat.lt_succ_self _

theorem Visits.setCall (visits : Visits S who around set c call s) (call' : Call Value) :
    Visits S who around set c call' (s.setCall c call') where
  fits := visits.fits.transfer visits.fits.alive rfl rfl rfl (Nat.le_refl _) fun p hp =>
    Store.get?_set_of_ne _ (Ne.symm (visits.other p hp)) _
  here := Store.get?_set_self ..
  other := visits.other
  old := visits.old

theorem Visits.forget (visits : Visits S who around set c call s) :
    Fits S who around set (s.forget c) :=
  visits.fits.transfer visits.fits.alive rfl rfl rfl (Nat.le_refl _) fun p hp =>
    Store.get?_erase_of_ne _ (Ne.symm (visits.other p hp))

theorem Visits.phaseOf (visits : Visits S who around set c call s) : s.phaseOf c = call.phase :=
  State.phaseOf_of_get? visits.here

/-! ## Steps without a lock -/

theorem Visits.loads (visits : Visits S who around set c (S.visit f outer initiator .arriving) s)
    (hf : f ∈ S.flags) : ∃ s', Goes s c s' ∧ Visits S who around set c
      (S.visit f outer initiator (if f ∈ set then .concluding else .contending)) s' := by
  refine ⟨_, ⟨[], ?_⟩, visits.setCall _⟩
  have hload : s.advance c = s.load c (S.visit f outer initiator .arriving) := by
    simp only [State.advance, visits.fits.alive, visits.here, Setting.visit]
  rw [hload, State.load, visits.fits.flagOf hf]
  simp only [decide_eq_true_eq]
  rfl

theorem Visits.concludes
    (visits : Visits S who around set c (S.visit f outer initiator .concluding) s)
    (hf : f ∈ S.flags) (done : f ∈ set) : ∃ s', Goes s c s' ∧ Visits S who around set c
      (S.visit f outer initiator (.ended (.ok none))) s' := by
  refine ⟨_, ⟨[], ?_⟩, visits.setCall _⟩
  have hconclude : s.advance c = s.conclude c (S.visit f outer initiator .concluding) := by
    simp only [State.advance, visits.fits.alive, visits.here, Setting.visit]
  rw [hconclude, State.conclude, visits.fits.flagOf hf]
  simp [done, Setting.visit, State.setPhase]

/-- Where a call goes whose initializer has ended and for which nobody waits. -/
def phaseAfter : Ending → Phase Value
  | .returned => .concluding
  | .unwound => .ended .unwound
  | .dropped => .ended .dropped

theorem Visits.resumes {ending : Ending}
    (visits : Visits S who around set c (S.visit f outer initiator (.resuming [] ending)) s) :
    ∃ s', Goes s c s' ∧
      Visits S who around set c (S.visit f outer initiator (phaseAfter ending)) s' := by
  refine ⟨_, ⟨[], ?_⟩, visits.setCall _⟩
  have hresume : s.advance c =
      s.resume c (S.visit f outer initiator (.resuming [] ending)) ending [] := by
    simp only [State.advance, visits.fits.alive, visits.here, Setting.visit]
  rw [hresume]
  cases ending <;> rfl

/-! ## The locked section of a call -/

/-- The target after its executor was replaced. -/
theorem get?_setExecutor {t : Target} (known : s.targets.get? S.place = some t)
    (executor : Executor) :
    (s.setExecutor S.place executor).targets.get? S.place = some { t with executor } := by
  show (s.targets.modify S.place _).get? S.place = _
  rw [Store.get?_modify, if_pos rfl, known]
  rfl

/-- A call takes over the identity of the initializers that run, or it finds one. -/
theorem Fits.identify (fits : Fits S who around set s) (f : String)
    (initiator : Option Initiator) (phase : Phase Value) :
    ∃ who' n, s.identify (S.visit f (outerOf around) initiator phase) =
      (who', { s with nextToken := n }) ∧ Fits S who' around set s := by
  have hidentity := fits.identity
  unfold Setting.Allows at hidentity
  cases around with
  | nil =>
    cases hflavour : S.flavour with
    | blocking =>
      refine ⟨.thread S.thread, s.nextToken, ?_, fits.rename ?_⟩
      · simp [State.identify, State.around?, Setting.visit, outerOf, hflavour]
      · simp [Setting.Allows, hflavour]
    | async =>
      refine ⟨.scope s.nextToken, s.nextToken + 1, ?_, fits.rename ?_⟩
      · simp [State.identify, State.around?, Setting.visit, outerOf, hflavour]
      · simp [Setting.Allows, hflavour]
  | cons p rest =>
    obtain ⟨outer, here⟩ := fits.call p List.mem_cons_self
    refine ⟨who, s.nextToken, ?_, fits⟩
    have haround : s.around? (S.visit f (outerOf (p :: rest)) initiator phase) = some who := by
      show (s.calls.get? p.2).bind (·.initiator) = some who
      rw [here]
      rfl
    rw [State.identify, haround]
    cases hflavour : S.flavour with
    | blocking =>
      rw [hflavour] at hidentity
      subst hidentity
      simp [Setting.visit, hflavour]
    | async =>
      rw [hflavour] at hidentity
      obtain ⟨token, rfl⟩ := hidentity
      rfl

/-- The executor of the target is replaced by one that suits as well. -/
theorem Visits.setExecutor (visits : Visits S who around set c call s) {executor : Executor}
    (suits : S.Suits who around set s.image.directory executor) :
    Visits S who around set c call (s.setExecutor S.place executor) where
  fits :=
    { visits.fits with
      target := by
        obtain ⟨t, known, -⟩ := visits.fits.target
        exact ⟨_, get?_setExecutor known executor, suits⟩ }
  here := visits.here
  other := visits.other
  old := visits.old

/-- Tokens are drawn, and the call is made under an identity that fits. -/
theorem Visits.draw {who' : Initiator} (visits : Visits S who around set c call s)
    (fits : Fits S who' around set s) (n : Nat) :
    Visits S who' around set c call { s with nextToken := n } where
  fits := fits.transfer fits.alive rfl rfl rfl (Nat.le_refl _) fun _ _ => rfl
  here := visits.here
  other := visits.other
  old := visits.old

/-- The locked section of a call is that of the executor of its target. -/
theorem Visits.enters (visits : Visits S who around set c
      (S.visit f outer initiator .contending) s) {t : Target}
    (known : s.targets.get? S.place = some t) :
    s.advance c = match t.executor with
      | .registry r => s.enterRegistry c (S.visit f outer initiator .contending) r
      | .table t => s.enterTable c (S.visit f outer initiator .contending) t := by
  have hexecutor : s.executorOf (S.visit f outer initiator .contending) = some t.executor :=
    congrArg (Option.map _) known
  have henter : s.advance c = s.enter c (S.visit f outer initiator .contending) := by
    simp only [State.advance, visits.fits.alive, visits.here, Setting.visit]
  rw [henter, State.enter, hexecutor]
  cases t.executor <;> rfl

/-- **A call that meets its own initializer** is refused. -/
theorem Visits.refused
    (visits : Visits S who around set c (S.visit f (outerOf around) initiator .contending) s)
    (hf : f ∈ S.flags) (inside : f ∈ around.map (·.1)) :
    ∃ s' who' initiator', Goes s c s' ∧ Visits S who' around set c
      (S.visit f (outerOf around) initiator' (.ended (.failed (.reentrant (S.ids f))))) s' := by
  have hclear : f ∉ set := by
    obtain ⟨p, hp, rfl⟩ := List.mem_map.mp inside
    exact (visits.fits.unset p hp).2
  obtain ⟨who', n, hidentify, fits⟩ := visits.fits.identify f initiator .contending
  obtain ⟨t, known, suits⟩ := fits.target
  have hflag := fits.flagOf_clear hf hclear (outerOf around) initiator .contending
  refine ⟨_, who', some who', ⟨[.reentrant (S.ids f) t.isShared], ?_⟩,
    ((visits.draw fits n).setExecutor suits).setCall _⟩
  rw [visits.enters known]
  cases hexecutor : t.executor with
  | registry r =>
    rw [hexecutor] at suits
    simp only [State.enterRegistry, hidentify, hflag,
      enter_reentrant suits.1 fits.known hf inside, Target.isShared, Target.table?, hexecutor]
    rfl
  | table t =>
    rw [hexecutor] at suits
    simp only [State.enterTable, hidentify, hflag, suits.2.2.1 f hf,
      SlotTable.isLocked_eq_false.mpr suits.2.2.2,
      claim_reentrant suits.1 fits.known hf inside, Target.isShared, Target.table?, hexecutor]
    rfl

/-- An initializer begins: its executor holds it, and its call runs. -/
theorem Visits.begins {who' : Initiator} {executor : Executor}
    (visits : Visits S who around set c call s) (fits : Fits S who' around set s)
    (hf : f ∈ S.flags) (clear : f ∉ set) (outside : f ∉ around.map (·.1))
    (alive : s'.violation = none) (flags : s'.flags = s.flags)
    (targets : s'.targets = (s.setExecutor S.place executor).targets)
    (suits : S.Suits who' ((f, c) :: around) set s'.image.directory executor)
    (next : s.nextKey ≤ s'.nextKey)
    (calls : s'.calls = s.calls.set c (S.visit f outer (some who') .running)) :
    Fits S who' ((f, c) :: around) set s' where
  alive := alive
  identity := fits.identity
  flag g hg := by rw [flags]; exact fits.flag g hg
  target := by
    obtain ⟨t, known, -⟩ := fits.target
    rw [targets]
    exact ⟨_, get?_setExecutor known executor, suits⟩
  call p hp := by
    rw [calls]
    rcases List.mem_cons.mp hp with rfl | hp
    · exact ⟨outer, Store.get?_set_self ..⟩
    · rw [Store.get?_set_of_ne _ (Ne.symm (visits.other p hp))]
      exact fits.call p hp
  older p hp := by
    refine Nat.lt_of_lt_of_le ?_ next
    rcases List.mem_cons.mp hp with rfl | hp
    · exact visits.old
    · exact fits.older p hp
  unset p hp := by
    rcases List.mem_cons.mp hp with rfl | hp
    · exact ⟨hf, clear⟩
    · exact fits.unset p hp
  apart := List.nodup_cons.mpr ⟨outside, fits.apart⟩

/-- **A call that meets no initializer of its own** begins its own. -/
theorem Visits.opens
    (visits : Visits S who around set c (S.visit f (outerOf around) initiator .contending) s)
    (hf : f ∈ S.flags) (clear : f ∉ set) (outside : f ∉ around.map (·.1)) :
    ∃ s' who', Goes s c s' ∧ Fits S who' ((f, c) :: around) set s' := by
  obtain ⟨who', n, hidentify, fits⟩ := visits.fits.identify f initiator .contending
  obtain ⟨t, known, suits⟩ := fits.target
  have hflag := fits.flagOf_clear hf clear (outerOf around) initiator .contending
  have hadvance := visits.enters known
  cases hexecutor : t.executor with
  | registry r =>
    rw [hexecutor] at suits hadvance
    simp only [State.enterRegistry, hidentify, hflag,
      enter_won suits.1 fits.known hf outside] at hadvance
    exact ⟨_, who', ⟨[.initializes who' (S.ids f)], hadvance⟩,
      visits.begins fits hf clear outside fits.alive rfl rfl (Setting.suits_opened suits)
        (Nat.le_refl _) rfl⟩
  | table t =>
    rw [hexecutor] at suits hadvance
    have hidle : t.state? s.image.directory (S.ids f) = some slotIdle := by
      rw [suits.2.2.1 f hf, slotOf, if_neg clear, if_neg outside]
    simp only [State.enterTable, hidentify, hflag, hidle,
      SlotTable.isLocked_eq_false.mpr suits.2.2.2,
      claim_won suits.1 fits.known hf outside] at hadvance
    exact ⟨_, who', ⟨[.claims who' (S.ids f)], hadvance⟩,
      visits.begins fits hf clear outside fits.alive rfl rfl (Setting.suits_claimed suits hf clear)
        (Nat.le_refl _) rfl⟩

/-! ## The end of an initializer -/

/-- The innermost initializer is over: its executor no longer holds it, and its flag is set. -/
theorem Fits.ends (fits : Fits S who ((f, c) :: around) set s)
    (alive : s'.violation = none) (flags : s'.flags = (s.completeFlag (S.key f)).flags)
    (target : ∃ t, s'.targets.get? S.place = some t ∧
      S.Suits who around (f :: set) s'.image.directory t.executor)
    (next : s.nextKey ≤ s'.nextKey)
    (calls : ∀ k, k ≠ c → s'.calls.get? k = s.calls.get? k) : Fits S who around (f :: set) s' where
  alive := alive
  identity := fits.identity
  flag g hg := by
    have hf : f ∈ S.flags := fits.known _ List.mem_cons_self
    rw [flags]
    show (s.flags.modify (S.key f) Flag.complete).get? (S.key g) = _
    rw [Store.get?_modify, fits.flag g hg]
    by_cases hfg : f = g
    · subst hfg
      simp [Flag.complete]
    · have hkey : S.key f ≠ S.key g := fun same => hfg (fits.key_inj hf hg same)
      simp [hkey, Ne.symm hfg]
  target := target
  call p hp := by
    rw [calls p.2 (fits.other p hp)]
    exact fits.call p (List.mem_cons_of_mem _ hp)
  older p hp := Nat.lt_of_lt_of_le (fits.older p (List.mem_cons_of_mem _ hp)) next
  unset p hp := by
    obtain ⟨known, unset⟩ := fits.unset p (List.mem_cons_of_mem _ hp)
    exact ⟨known, fun hmem => (List.mem_cons.mp hmem).elim (fits.name_ne hp) unset⟩
  apart := (List.nodup_cons.mp fits.apart).2

theorem Fits.running (fits : Fits S who ((f, c) :: around) set s) : s.phaseOf c = .running := by
  obtain ⟨outer, here⟩ := fits.call _ List.mem_cons_self
  exact State.phaseOf_of_get? here

/-- The state in which the innermost initializer has ended, and nothing else has happened. -/
theorem Fits.finish (fits : Fits S who ((f, c) :: around) set s) (ending : Ending) :
    ∃ outer, s.finish c ending none =
      s.setCall c (S.visit f outer (some who) (.completing ending)) := by
  obtain ⟨outer, here⟩ := fits.call _ List.mem_cons_self
  refine ⟨outer, ?_⟩
  simp only [State.finish, here, Setting.visit]
  cases ending <;> rfl

/-- A call through a slot table settles its slot, sets its flag, and gives up its claim. -/
theorem completes_table {t : Target} {table : SlotTable} {ending : Ending} {flag : Flag}
    (alive : s.violation = none) (known : s.targets.get? S.place = some t)
    (shared : t.executor = .table table) (free : table.guard? = none)
    (here : s.calls.get? c = some (S.visit f outer initiator (.completing ending)))
    (hflag : s.flags.get? (S.key f) = some flag) : ∃ s', Completes c s s' ∧
      s'.violation = none ∧ s'.flags = (s.completeFlag (S.key f)).flags ∧
      s'.targets.get? S.place = some { t with executor := .table (table.disclaim flag.id) } ∧
      s'.image = (s.markSlot table flag.id slotDone).image ∧ s'.nextKey = s.nextKey ∧
      s'.calls.get? c = some (S.visit f outer initiator (.resuming [] ending)) ∧
      ∀ k, k ≠ c → s'.calls.get? k = s.calls.get? k := by
  let visit (phase : Phase Value) := S.visit f outer initiator phase
  let settled := ((s.markSlot table flag.id slotDone).setExecutor S.place
    (.table (table.lock flag.id))).setCall c (visit (.marking ending))
  let marked := (settled.completeFlag (S.key f)).setCall c (visit (.releasing ending))
  let released := (marked.unlock S.place).setCall c (visit (.resuming [] ending))
  have through : s.executorOf (visit (.completing ending)) = some (.table table) := by
    show (s.targets.get? S.place).map _ = _
    rw [known, Option.map_some, shared]
  have hid : s.flagOf (visit (.completing ending)) = flag := by
    show (s.flags.get? (S.key f)).getD default = flag
    rw [hflag, Option.getD_some]
  have hsettles : s.advance c = (settled, []) := by
    simp only [State.advance, alive, here]
    show s.complete c (visit (.completing ending)) ending = _
    simp only [State.complete, through, State.settle, SlotTable.isLocked_eq_false.mpr free, hid]
    rfl
  have settledHere : settled.calls.get? c = some (visit (.marking ending)) :=
    Store.get?_set_self ..
  have hmarks : settled.advance c = (marked, []) := by
    simp only [State.advance, show settled.violation = none from alive, settledHere]
    rfl
  have markedHere : marked.calls.get? c = some (visit (.releasing ending)) :=
    Store.get?_set_self ..
  have hreleases : marked.advance c = (released, []) := by
    simp only [State.advance, show marked.violation = none from alive, markedHere]
    rfl
  have htarget : released.targets.get? S.place =
      some { t with executor := .table (table.disclaim flag.id) } := by
    show ((s.targets.modify S.place _).modify S.place _).get? S.place = _
    rw [Store.get?_modify, if_pos rfl, Store.get?_modify, if_pos rfl, known, Option.map_some,
      Option.map_some, ← SlotTable.unlock_lock flag.id free]
    rfl
  refine ⟨released, ?_, alive, rfl, htarget, rfl, rfl, Store.get?_set_self .., fun k hk => ?_⟩
  · refine ((Completes.rests.step ?_ ⟨[], hsettles⟩ alive).step ?_ ⟨[], hmarks⟩ alive).step ?_
      ⟨[], hreleases⟩ alive
    · rw [State.phaseOf_of_get? here]
      rfl
    · rw [State.phaseOf_of_get? settledHere]
      rfl
    · rw [State.phaseOf_of_get? markedHere]
      rfl
  · show (((s.calls.set c _).set c _).set c _).get? k = _
    rw [Store.get?_set_of_ne _ (Ne.symm hk), Store.get?_set_of_ne _ (Ne.symm hk),
      Store.get?_set_of_ne _ (Ne.symm hk)]

/-- **A call whose initializer has ended** sets its flag, and nobody waits for it. -/
theorem Fits.closes (fits : Fits S who ((f, c) :: around) set s) (ending : Ending) :
    ∃ s' outer, Completes c (s.finish c ending none) s' ∧ Visits S who around (f :: set) c
      (S.visit f outer (some who) (.resuming [] ending)) s' := by
  obtain ⟨outer, hfinish⟩ := fits.finish ending
  rw [hfinish]
  obtain ⟨hf, hclear⟩ := fits.unset _ List.mem_cons_self
  obtain ⟨t, known, suits⟩ := fits.target
  have hexecutorOf : (s.setCall c (S.visit f outer (some who) (.completing ending))).executorOf
      (S.visit f outer (some who) (.completing ending)) = some t.executor :=
    congrArg (Option.map _) known
  have hflag : (s.setCall c (S.visit f outer (some who) (.completing ending))).flagOf
      (S.visit f outer (some who) (.completing ending)) = { id := S.ids f } :=
    fits.flagOf_clear hf hclear ..
  have hcalls (k : Nat) (hk : k ≠ c) (call : Call Value) :
      (s.calls.set c call).get? k = s.calls.get? k := Store.get?_set_of_ne _ (Ne.symm hk) _
  have here : (s.setCall c (S.visit f outer (some who) (.completing ending))).calls.get? c =
      some (S.visit f outer (some who) (.completing ending)) := Store.get?_set_self ..
  cases hexecutor : t.executor with
  | registry r =>
    rw [hexecutor] at suits hexecutorOf
    obtain ⟨r', hretire, hsuits⟩ := Setting.suits_retired suits fits.known
    have hcomplete : (s.setCall c (S.visit f outer (some who) (.completing ending))).advance c =
        (s.setCall c (S.visit f outer (some who) (.completing ending))).complete c
          (S.visit f outer (some who) (.completing ending)) ending := by
      simp only [State.advance, State.setCall, fits.alive, Store.get?_set_self, Setting.visit]
    simp only [State.complete, hexecutorOf, State.retire, hflag, hretire] at hcomplete
    refine ⟨_, outer, Completes.rests.step ?_ ⟨[], hcomplete⟩ fits.alive,
      fits.ends fits.alive rfl ⟨_, get?_setExecutor known _, hsuits⟩ (Nat.le_refl _)
        fun k hk => (Store.get?_set_of_ne _ (Ne.symm hk) _).trans (hcalls k hk _),
      Store.get?_set_self .., fits.other, fits.older _ List.mem_cons_self⟩
    rw [State.phaseOf_of_get? here]
    rfl
  | table t =>
    rw [hexecutor] at suits
    obtain ⟨s', completes, alive, flags, target, image, next, after, calls⟩ :=
      completes_table (s := s.setCall c (S.visit f outer (some who) (.completing ending)))
        fits.alive known hexecutor suits.2.2.2 here (fits.flag f hf)
    have hsuits := Setting.suits_settled suits fits.known fits.apart
    refine ⟨s', outer, completes, fits.ends alive flags ⟨_, target, ?_⟩ (Nat.le_of_eq next.symm)
      fun k hk => (calls k hk).trans (hcalls k hk _), after, fits.other, ?_⟩
    · rw [image]
      exact hsuits
    · rw [next]
      exact fits.older _ List.mem_cons_self

end

end RunOnce.Scenario
