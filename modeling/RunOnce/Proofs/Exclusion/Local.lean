import RunOnce.Proofs.Exclusion.Account

/-!
# One initializer for each flag of a registry

**Theorem (`local_exactly_once`).** Let flags be used through one registry only, by any number of
threads and tasks. Whatever the order of their steps, at most one initializer starts for each flag,
and a call that returns finds its flag set and the one initializer, if there had to be one, ended.

The account of a flag is settled when the flag is set (`Run.account_flag`). Setting the flag and
retiring the operation are one step, so there is no moment at which a call could find neither. The
handles of the flags do not matter for this; a flag that shares its handle with another one can
only lose the race for both.
-/

namespace RunOnce.Protocol

open Function

variable {α : Type} {s₀ s : State α} {past : List (Moment α)} {t f : Nat} {F : Nat → Prop}

/-- The calls for one flag. -/
def forFlag (f : Nat) : Nat → Nat → Bool := fun _ g => decide (g = f)

/-- Calls that want one of some flags go through one target. -/
def UsedThrough (t : Nat) (F : Nat → Prop) (_ : State α) : Action α → Prop
  | .issue call => F call.flag → call.target = t
  | .advance _ | .finish _ _ _ | .abandon _ => True

/-- The target is a registry. -/
def State.IsRegistry (s : State α) (t : Nat) : Prop :=
  ∃ target r, s.targets.get? t = some target ∧ target.executor = .registry r

theorem State.IsRegistry.table? (registry : s.IsRegistry t) : s.board.table? t = none := by
  obtain ⟨target, r, ht, he⟩ := registry
  show (s.targets.get? t).bind (fun target => target.executor.table?) = none
  rw [ht]
  show target.executor.table? = none
  rw [he]
  rfl

theorem Run.used_through (run : Run (UsedThrough t F) s₀ past s) (fresh : s₀.IsFresh) (hf : F f)
    {c : Nat} {card : Card} (hc : s.board.card? c = some card)
    (hp : forFlag f card.target card.flag = true) : card.flag = f ∧ card.target = t := by
  have hflag : card.flag = f := of_decide_eq_true hp
  obtain ⟨call, hcall, rfl⟩ := Option.map_eq_some_iff.mp hc
  have hused := run.calls_admitted (R := fun t' g => F g → t' = t) fresh (fun _ _ _ _ h => h)
    c call hcall
  refine ⟨hflag, hused ?_⟩
  rw [show call.flag = f from hflag]
  exact hf

theorem Run.bare (run : Run (UsedThrough t F) s₀ past s) (fresh : s₀.IsFresh)
    (bare : s₀.board.table? t = none) : s.board.table? t = none := by
  rw [(run.static fresh).1]
  exact bare

/-- All calls for a flag meet in the registry. -/
theorem Run.agree_flag (run : Run (UsedThrough t F) s₀ past s) (fresh : s₀.IsFresh)
    (bare : s₀.board.table? t = none) (hf : F f) :
    s.board.Agree (forFlag f) (.inl t) (((s₀.board.flag? f).map Flag.id).getD default) := by
  intro c card hc hp
  obtain ⟨hflag, htarget⟩ := run.used_through fresh hf hc hp
  obtain ⟨flag, hknown⟩ := (run.board_inv fresh).known c card hc
  refine ⟨?_, flag, hknown, ?_⟩
  · rw [htarget]
    exact Board.site_of_bare (run.bare fresh bare)
  · rw [hflag] at hknown
    rw [← (run.static fresh).2, hknown]
    rfl

/-- The account of a flag that is used through no slot table: it is settled when the flag is set. -/
theorem Run.account_bare (run : Run (UsedThrough t F) s₀ past s) (fresh : s₀.IsFresh)
    (bare : s₀.board.table? t = none) (hf : F f) :
    Account (s₀.isSet f = true) (s.isSet f = true) (s.board.stageOf (forFlag f))
      (s.startedBy (forFlag f) past) (ended past) := by
  induction run with
  | start => exact account_fresh fresh _
  | @step past s a run alive possible admitted ih =>
    have inv := run.board_inv fresh
    have turn := State.turn_act inv alive possible
    have agree := (run.step alive possible admitted).agree_flag fresh bare hf
    have bare := run.bare fresh bare
    refine account_act inv alive possible (run.knows_started fresh) ih agree ?_ ?_
    · intro hout hin hset
      obtain ⟨card, flag, hc, hp, hflag, hguard⟩ := turn.start_of_stageOf inv hout hin
      obtain ⟨rfl, rfl⟩ := run.used_through fresh hf hc hp
      rcases hguard with ⟨-, hunset⟩ | ⟨o, n, htable, -⟩
      · have hset : s.board.isSet card.flag = true := hset
        rw [Board.isSet_of_flag hflag, hunset] at hset
        cases hset
      · rw [bare] at htable
        cases htable
    · constructor
      · intro hset
        rcases turn.isSet_cases hset with hset | ⟨card, flag, hc, rfl, hflag, hguard⟩
        · exact Or.inl hset
        · have hp : forFlag card.flag card.target card.flag = true := decide_eq_true rfl
          obtain ⟨-, rfl⟩ := run.used_through fresh hf hc hp
          rcases hguard with ⟨who, hleaving, -, hnow⟩ | ⟨o, n, htable, -⟩
          · refine Or.inr ⟨⟨who, ?_⟩, ?_⟩
            · rw [Board.stageOf_of_card hc hp]
              exact hleaving
            · rw [Board.stageOf_of_card hnow hp]
              rfl
          · rw [bare] at htable
            cases htable
      · rintro (hset | ⟨⟨who, hleaving⟩, hout⟩)
        · exact turn.isSet_mono hset
        · obtain ⟨card, flag, hc, hp, -, how⟩ := turn.leave_of_stageOf inv hleaving hout
          obtain ⟨rfl, rfl⟩ := run.used_through fresh hf hc hp
          rcases how with ⟨-, hset⟩ | ⟨o, n, htable, -⟩
          · exact hset
          · rw [bare] at htable
            cases htable

/-- The account of a flag, which is settled when the flag is set. -/
theorem Run.account_flag (run : Run (UsedThrough t F) s₀ past s) (fresh : s₀.IsFresh)
    (registry : s₀.IsRegistry t) (hf : F f) :
    Account (s₀.isSet f = true) (s.isSet f = true) (s.board.stageOf (forFlag f))
      (s.startedBy (forFlag f) past) (ended past) := run.account_bare fresh registry.table? hf

/-- **One initializer for each flag.** However the steps of threads and tasks that use flags through
one registry are interleaved, at most one initializer starts for a flag. A call that returns finds
its flag set; unless it was set from the beginning, one initializer has started and has ended. -/
theorem local_exactly_once (run : Run (UsedThrough t F) s₀ past s) (fresh : s₀.IsFresh)
    (registry : s₀.IsRegistry t) :
    (∀ f, F f → (s.startedBy (forFlag f) past).length ≤ 1) ∧
    ∀ c call, s.calls.get? c = some call → F call.flag → call.phase = .ended (.ok none) →
      s.isSet call.flag = true ∧ (s₀.isSet call.flag = false →
        ∃ w, s.startedBy (forFlag call.flag) past = [w] ∧ w ∈ ended past) := by
  refine ⟨fun f hf => (run.account_flag fresh registry hf).length_le_one, ?_⟩
  intro c call hc hf hp
  have hset : s.isSet call.flag = true := run.isSet_of_returned fresh hc hp
  refine ⟨hset, fun hunset => ?_⟩
  refine (run.account_flag fresh registry hf).settled hset ?_
  rw [hunset]
  exact Bool.false_ne_true

/-- A registry and a flag. -/
def raceStart : State Unit where
  flags := ⟨[(1, { id := ⟨0⟩ })]⟩
  targets := ⟨[(0, Target.inProcess)]⟩
  image := { self := 1, isAlive := fun _ => true }
  nextKey := 2

/-- A thread wins the flag, and a task that came with it waits and is resumed. -/
def raceActions : List (Action Unit) :=
  [.issue { flavour := .blocking, thread := "main", target := 0, flag := 1, phase := .arriving },
    .issue { flavour := .async, thread := "main", target := 0, flag := 1, phase := .arriving },
    .advance 2, .advance 3, .advance 2, .advance 3, .finish 2 .returned none, .advance 2,
    .advance 2, .advance 2, .advance 2, .advance 3, .advance 3]

theorem race_isFresh : raceStart.IsFresh := by
  refine State.isFresh_of_registries (fun _ => rfl) (fun t target ht => ?_) rfl
  simp only [raceStart, Store.get?, Store.lookup] at ht
  split at ht
  · cases ht
    rfl
  · cases ht

theorem race_allowed : raceStart.Allows (UsedThrough 0 (· = 1)) raceActions :=
  ⟨rfl, ⟨Or.inr rfl, rfl, ⟨_, rfl⟩, ⟨_, rfl⟩, nofun⟩, fun _ => rfl,
    rfl, ⟨Or.inr rfl, rfl, ⟨_, rfl⟩, ⟨_, rfl⟩, nofun⟩, fun _ => rfl,
    rfl, rfl, trivial, rfl, rfl, trivial, rfl, rfl, trivial, rfl, rfl, trivial,
    rfl, nofun, trivial, rfl, rfl, trivial, rfl, rfl, trivial, rfl, rfl, trivial,
    rfl, rfl, trivial, rfl, rfl, trivial, rfl, rfl, trivial, trivial⟩

/-- The task that was resumed returns after the initializer of the thread. -/
theorem local_exactly_once_race :
    ((raceStart.acts raceActions).startedBy (forFlag 1)
      (raceStart.moments raceActions)).length ≤ 1 ∧
    (raceStart.acts raceActions).phaseOf 3 = .ended (.ok none) ∧
    (raceStart.acts raceActions).isSet 1 = true ∧
    ∃ w, (raceStart.acts raceActions).startedBy (forFlag 1) (raceStart.moments raceActions) = [w] ∧
      w ∈ ended (raceStart.moments raceActions) := by
  obtain ⟨hstarted, hreturned⟩ := local_exactly_once (t := 0) (F := fun g => g = 1)
    (Run.of_allows race_allowed) race_isFresh ⟨_, _, rfl, rfl⟩
  obtain ⟨call, hc, hflag, hphase⟩ : ∃ call, (raceStart.acts raceActions).calls.get? 3 = some call ∧
      call.flag = 1 ∧ call.phase = .ended (.ok none) := ⟨_, rfl, rfl, rfl⟩
  obtain ⟨hset, hone⟩ := hreturned 3 call hc hflag hphase
  rw [hflag] at hset hone
  exact ⟨hstarted 1 rfl, rfl, hset, hone rfl⟩

end RunOnce.Protocol
