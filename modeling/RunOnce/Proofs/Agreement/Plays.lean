import RunOnce.Proofs.Agreement.View

/-!
# Programs do what their plays say

**Playing** (`Setting.Plays`). Frames on top of a stack do what a play says if from every state that
fits the machine comes to leave them: it goes on below them as the play ends, it has told what the
play tells, and the state fits the flags that the play sets.

**Calls.** A call for a set flag passes (`plays_passed`). One that meets its own initializer is
refused (`plays_refused`). Any other one plays its body between the begin and the end of its
initializer (`plays_through`).

**Theorem (`Program.plays`).** A program does what its play says, whatever the setting, whatever
initializers run around it and whatever frames are below. The proof is by induction on the program.
What comes after a part is added by `Setting.Plays.andThen`; the body of a call runs in states that
fit one more initializer.
-/

namespace RunOnce.Scenario

open Protocol Region

/-- From every state that fits, these frames do what a play says, and leave the ones below. -/
def Setting.Plays (S : Setting) (around : List (String × Nat)) (set : List String)
    (frames rest : List Frame) (play : Play) : Prop :=
  ∀ who s told, Fits S who around set s → ∃ who' s', Fits S who' around play.set s' ∧
    Reaches S.toScene ⟨frames, .go, s, told, none⟩
      ⟨rest, play.control, s', told ++ play.told, none⟩

section

variable {S : Setting} {who : Initiator} {around : List (String × Nat)} {set : List String}
  {s s' : State Value} {told : List Happening} {f : String} {c : Nat} {kind : Flavour}
  {rest frames : List Frame} {more body : List Step} {handling : Handling}
  {outer : Option Nat} {initiator : Option Initiator} {text : String}

/-! ## Programs without calls -/

theorem plays_done : S.Plays around set (.steps [] kind :: rest) rest { set } := by
  intro who s told fits
  refine ⟨who, s, fits, ?_⟩
  rw [List.append_nil]
  exact reaches_end

theorem plays_panic (text : String) :
    S.Plays around set (.steps (.panic text :: more) kind :: rest) rest
      { panic := some text, set } := by
  intro who s told fits
  refine ⟨who, s, fits, ?_⟩
  rw [List.append_nil]
  exact reaches_panic.trans reaches_outward

/-- What comes next is played unless there was a panic. -/
theorem Setting.Plays.andThen {first : Play} {next : List String → Play}
    (here : S.Plays around set frames (.steps more kind :: rest) first)
    (later : S.Plays around first.set (.steps more kind :: rest) rest (next first.set)) :
    S.Plays around set frames rest (first.andThen next) := by
  intro who s told fits
  obtain ⟨who₁, s₁, fits₁, reaches₁⟩ := here who s told fits
  unfold Play.control at reaches₁
  unfold Play.andThen
  cases hpanic : first.panic with
  | some text =>
    rw [hpanic] at reaches₁
    refine ⟨who₁, s₁, fits₁, ?_⟩
    rw [Play.control, hpanic]
    exact reaches₁.trans reaches_outward
  | none =>
    rw [hpanic] at reaches₁
    obtain ⟨who₂, s₂, fits₂, reaches₂⟩ := later who₁ s₁ (told ++ first.told) fits₁
    refine ⟨who₂, s₂, fits₂, ?_⟩
    rw [← List.append_assoc]
    exact (reaches₁.trans reaches_more).trans reaches₂

/-- A part at which panics stop. -/
theorem Setting.Plays.attempted {part : Play}
    (inside : S.Plays around set
      (.steps body .async :: .poll trialTask :: .steps more kind :: rest)
      (.poll trialTask :: .steps more kind :: rest) part) :
    S.Plays around set
      (.steps (.task trialTask body :: .poll trialTask :: more) kind :: rest)
      (.steps more kind :: rest) part.attempted := by
  intro who s told fits
  obtain ⟨who', s', fits', reaches⟩ := inside who s told fits
  refine ⟨who', s', fits', ?_⟩
  have hended := reaches.trans (reaches_attempted part)
  rw [List.append_assoc] at hended
  exact reaches_attempt.trans hended

/-! ## Calls -/

/-- A call is issued and looks at its flag. -/
theorem reaches_loaded (hf : f ∈ S.flags)
    (enclosing : Machine.enclosingCall? rest = outerOf around) (fits : Fits S who around set s) :
    ∃ c s', Visits S who around set c
      (S.visit f (outerOf around) none (if f ∈ set then .concluding else .contending)) s' ∧
      Reaches S.toScene
        ⟨.steps (.exec S.flavour S.target f body handling :: more) kind :: rest, .go, s, told, none⟩
        ⟨S.frame f handling body c false :: .steps more kind :: rest, .go, s', told, none⟩ := by
  have hissued := fits.issue (S.visit f (outerOf around) none .arriving)
  obtain ⟨s', goes, visits⟩ := hissued.loads hf
  exact ⟨_, s', visits, (reaches_issue hf enclosing).trans
    (reaches_advance goes visits.fits.alive (by rw [hissued.phaseOf]; rfl))⟩

/-- A call for a set flag goes on to its end, and its caller sees it. -/
theorem reaches_concluded (hf : f ∈ S.flags) (done : f ∈ set)
    (visits : Visits S who around set c (S.visit f outer initiator .concluding) s) :
    ∃ s', Fits S who around set s' ∧ ∀ {handling body entered rest told}, Reaches S.toScene
      ⟨S.frame f handling body c entered :: rest, .go, s, told, none⟩
      ⟨rest, .returned, s', told ++ [.called .exec f (.ok none)], none⟩ := by
  obtain ⟨s', goes, ended⟩ := visits.concludes hf done
  exact ⟨_, ended.forget, (reaches_advance goes ended.fits.alive
    (by rw [visits.phaseOf]; rfl)).trans (reaches_passed hf ended.here)⟩

theorem plays_passed (hf : f ∈ S.flags) (enclosing : Machine.enclosingCall? rest = outerOf around)
    (done : f ∈ set) : S.Plays around set
      (.steps (.exec S.flavour S.target f body handling :: more) kind :: rest)
      (.steps more kind :: rest) (Play.passed f set) := by
  intro who s told fits
  obtain ⟨c, s₁, visits, hloaded⟩ := reaches_loaded hf enclosing fits
  rw [if_pos done] at visits
  obtain ⟨s₂, fits₂, hconcluded⟩ := reaches_concluded hf done visits
  exact ⟨who, s₂, fits₂, hloaded.trans hconcluded⟩

theorem plays_refused (hf : f ∈ S.flags) (enclosing : Machine.enclosingCall? rest = outerOf around)
    (clear : f ∉ set) (inside : f ∈ around.map (·.1)) : S.Plays around set
      (.steps (.exec S.flavour S.target f body handling :: more) kind :: rest)
      (.steps more kind :: rest) (Play.refused (S.ids f) f handling set) := by
  intro who s told fits
  obtain ⟨c, s₁, visits, hloaded⟩ := reaches_loaded hf enclosing fits
  rw [if_neg clear] at visits
  obtain ⟨s₂, who₂, initiator, goes, ended⟩ := visits.refused hf inside
  refine ⟨who₂, s₂.forget c, ended.forget, ?_⟩
  rw [Play.control_refused]
  exact (hloaded.trans (reaches_advance goes ended.fits.alive (by rw [visits.phaseOf]; rfl))).trans
    (reaches_refused hf ended.here)

/-- The initializer of a call begins. -/
theorem reaches_opened (hf : f ∈ S.flags) (enclosing : Machine.enclosingCall? rest = outerOf around)
    (clear : f ∉ set) (outside : f ∉ around.map (·.1)) (fits : Fits S who around set s) :
    ∃ c s' who', Fits S who' ((f, c) :: around) set s' ∧ Reaches S.toScene
      ⟨.steps (.exec S.flavour S.target f body handling :: more) kind :: rest, .go, s, told, none⟩
      ⟨.steps body S.flavour :: S.frame f handling body c true :: .steps more kind :: rest, .go,
        s', told ++ [.enter f], none⟩ := by
  obtain ⟨c, s₁, visits, hloaded⟩ := reaches_loaded hf enclosing fits
  rw [if_neg clear] at visits
  obtain ⟨s₂, who₂, goes, opened⟩ := visits.opens hf clear outside
  exact ⟨c, s₂, who₂, opened, (hloaded.trans (reaches_advance goes opened.alive
    (by rw [visits.phaseOf]; rfl))).trans (reaches_enter opened.running)⟩

/-- An initializer that returned: its flag is set, and the call passes. -/
theorem reaches_returned (fits : Fits S who ((f, c) :: around) set s) :
    ∃ s', Fits S who around (f :: set) s' ∧ ∀ {handling body rest told}, Reaches S.toScene
      ⟨S.frame f handling body c true :: rest, .returned, s, told, none⟩
      ⟨rest, .returned, s', told ++ [.leave f, .called .exec f (.ok none)], none⟩ := by
  have hf : f ∈ S.flags := fits.known _ List.mem_cons_self
  obtain ⟨s₁, outer, completes, resuming⟩ := fits.closes .returned
  obtain ⟨s₂, goes₂, concluding⟩ := resuming.resumes
  obtain ⟨s₃, fits₃, hconcluded⟩ := reaches_concluded hf List.mem_cons_self concluding
  have hclosed {handling : Handling} {body rest told} : Reaches S.toScene
      ⟨S.frame f handling body c true :: rest, .returned, s, told, none⟩
      ⟨S.frame f handling body c true :: rest, .go, s₂, told ++ [.leave f], none⟩ :=
    (reaches_leave.trans (reaches_completes completes)).trans
      (reaches_advance goes₂ concluding.fits.alive (by rw [resuming.phaseOf]; rfl))
  refine ⟨s₃, fits₃, fun {_ _ _ told} => ?_⟩
  have htold : told ++ [.leave f, .called .exec f (.ok none)] =
      told ++ [.leave f] ++ [.called .exec f (.ok none)] := by simp
  rw [htold]
  exact hclosed.trans hconcluded

/-- An initializer that panicked: its flag is set, and the caller sees the panic. -/
theorem reaches_unwound (fits : Fits S who ((f, c) :: around) set s) :
    ∃ s', Fits S who around (f :: set) s' ∧ ∀ {handling body rest told text}, Reaches S.toScene
      ⟨S.frame f handling body c true :: rest, .raised text, s, told, none⟩
      ⟨rest, if handling.catches then .returned else .raised text, s',
        told ++ [.called .exec f (.panicked text)], none⟩ := by
  have hf : f ∈ S.flags := fits.known _ List.mem_cons_self
  obtain ⟨s₁, outer, completes, resuming⟩ := fits.closes .unwound
  obtain ⟨s₂, goes₂, ended⟩ := resuming.resumes
  have hclosed {handling : Handling} {body rest told text} : Reaches S.toScene
      ⟨S.frame f handling body c true :: rest, .raised text, s, told, none⟩
      ⟨S.frame f handling body c true :: rest, .raised text, s₂, told, none⟩ :=
    ((reaches_unwind fits.running).trans (reaches_completes_raised completes)).trans
      (reaches_advance_raised goes₂ ended.fits.alive (by rw [resuming.phaseOf]; rfl))
  exact ⟨_, ended.forget, hclosed.trans (reaches_panicked hf ended.here)⟩

/-- A call that runs its body. -/
theorem plays_through {part : Play} (hf : f ∈ S.flags)
    (enclosing : Machine.enclosingCall? rest = outerOf around) (clear : f ∉ set)
    (outside : f ∉ around.map (·.1))
    (inside : ∀ c, S.Plays ((f, c) :: around) set
      (.steps body S.flavour :: S.frame f handling body c true :: .steps more kind :: rest)
      (S.frame f handling body c true :: .steps more kind :: rest) part) :
    S.Plays around set
      (.steps (.exec S.flavour S.target f body handling :: more) kind :: rest)
      (.steps more kind :: rest) (part.through f handling) := by
  intro who s told fits
  obtain ⟨c, s₁, who₁, fits₁, hopened⟩ := reaches_opened hf enclosing clear outside fits
  obtain ⟨who₂, s₂, fits₂, hinside⟩ := inside c who₁ s₁ (told ++ [.enter f]) fits₁
  unfold Play.control at hinside
  unfold Play.through
  cases hpanic : part.panic with
  | none =>
    rw [hpanic] at hinside
    obtain ⟨s₃, fits₃, hreturned⟩ := reaches_returned fits₂
    refine ⟨who₂, s₃, fits₃, ?_⟩
    have hplayed := (hopened.trans hinside).trans hreturned
    simp only [List.append_assoc, List.singleton_append] at hplayed
    exact hplayed
  | some text =>
    rw [hpanic] at hinside
    obtain ⟨s₃, fits₃, hunwound⟩ := reaches_unwound fits₂
    refine ⟨who₂, s₃, fits₃, ?_⟩
    have hplayed := (hopened.trans hinside).trans hunwound
    simp only [List.append_assoc, List.singleton_append] at hplayed
    cases hcatches : handling.catches <;> rw [hcatches] at hplayed <;> exact hplayed

/-! ## Programs -/

/-- **A program does what its play says**, wherever it runs: in either flavour, through a registry
or a slot table, and above whatever frames. -/
theorem Program.plays (p : Program) : ∀ {around : List (String × Nat)} {set : List String}
    {kind : Flavour} {rest : List Frame}, (∀ f ∈ p.flags, f ∈ S.flags) →
    Machine.enclosingCall? rest = outerOf around →
    S.Plays around set (.steps (p.steps S.flavour S.target) kind :: rest) rest
      (p.play S.ids (around.map (·.1)) set) := by
  induction p with
  | done =>
    intro around set kind rest _ _
    exact plays_done
  | panic text =>
    intro around set kind rest _ _
    exact plays_panic text
  | attempt body next ihBody ihNext =>
    intro around set kind rest named enclosing
    have hbody := fun f hf => named f (List.mem_append_left _ hf)
    have hnext := fun f hf => named f (List.mem_append_right _ hf)
    exact (Setting.Plays.attempted (ihBody hbody enclosing)).andThen (ihNext hnext enclosing)
  | call flag handling body next ihBody ihNext =>
    intro around set kind rest named enclosing
    have hf : flag ∈ S.flags := named flag List.mem_cons_self
    have hbody := fun f hf => named f (List.mem_cons_of_mem _ (List.mem_append_left _ hf))
    have hnext := fun f hf => named f (List.mem_cons_of_mem _ (List.mem_append_right _ hf))
    have hlater (set : List String) : S.Plays around set
        (.steps (next.steps S.flavour S.target) kind :: rest) rest
        (next.play S.ids (around.map (·.1)) set) := ihNext hnext enclosing
    refine Setting.Plays.andThen ?_ (hlater _)
    split
    next done => exact plays_passed hf enclosing done
    next clear =>
      split
      next inside => exact plays_refused hf enclosing clear inside
      next outside =>
        -- The frame of the call encloses its body, which runs while one more initializer does.
        refine plays_through hf enclosing clear outside fun c => ?_
        exact ihBody hbody rfl

end

end RunOnce.Scenario
