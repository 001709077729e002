import Mathlib.Tactic.FinCases
import RunOnce.Proofs.Agreement.Plays
import RunOnce.Scenario.Run

/-!
# The entry points agree

A program of nested calls can be run through a context for one process or through a context over a
slot table, and with calls that block or calls that are asynchronous.

**Theorem (`entry_points_agree`).** All four do what the play of the program says, which mentions
neither flavour nor target. So in all of them the same initializers begin and return in the same
order, every call has the same result, the program returns or panics alike, and the same flags are
set at the end. No call is ever suspended.

What is asked of the machine (`Machine.Ready`) is that nothing is in flight through the target and
that the flags are not set. A slot table must have an idle slot for each of them; no two of them
have one handle.
-/

namespace RunOnce.Scenario

open Protocol Region

/-! ## Runs of a program -/

/-- Nothing is in flight through an executor, and in a slot table the flags have idle slots and the
lock is free. -/
def IsVacant (ids : String → FlagId) (flags : List String) (d : Directory) : Executor → Prop
  | .registry r => r.operations = []
  | .table t =>
    t.claims = [] ∧ (∃ object, d.objects.get? t.mapping.object = some object) ∧
      (∀ f ∈ flags, t.state? d (ids f) = some slotIdle) ∧ t.guard? = none

namespace Machine

/-- A machine is about to run a program on the thread that runs, outside of all initializers. The
flags are not set, and nothing is in flight through the target. No other thread is there to go on
when the main one settles, and no task has the name of those that attempts are made of. -/
structure Ready (m : Machine) (ids : String → FlagId) (flags : List String) (target : String) :
    Prop where
  halt : m.halt = none
  alone : m.strand = none → m.threads = {}
  outside : enclosingCall? m.stack = none
  trial : (m.tasks.get? trialTask).bind (·.future) = none
  alive : m.protocol.violation = none
  unset : ∀ f ∈ flags, m.flagNamed? f = some { id := ids f }
  vacant : ∃ t, m.targetNamed? target = some t ∧ IsVacant ids flags m.directory t.executor

/-- The machine with the steps of a script on top of its stack. -/
def load (m : Machine) (script : List Step) (kind : Flavour) : Machine :=
  { m with stack := .steps script kind :: m.stack, control := .go }

/-- A machine is done with a program that did what a play says. -/
structure Played (m e : Machine) (ids : String → FlagId) (flags : List String) (play : Play) :
    Prop where
  halt : e.halt = none
  strand : e.strand = m.strand
  stack : e.stack = m.stack
  control : e.control = play.control
  told : e.told = m.told ++ play.told
  set : ∀ f ∈ flags, e.flagNamed? f = some { id := ids f, isDone := decide (f ∈ play.set) }

variable {m : Machine} {ids : String → FlagId} {flags : List String} {target : String}

/-- The setting in which a machine runs a program. -/
def Ready.setting (ready : m.Ready ids flags target)
    (distinct : ∀ f ∈ flags, ∀ g ∈ flags, ids f = ids g → f = g) (flavour : Flavour) :
    Setting where
  names := m.names
  strand := m.strand
  flags := flags
  ids := ids
  key f := (m.names.flags.get? f).getD 0
  target := target
  place := (m.targetKey? target).getD 0
  flavour := flavour
  named f hf := by
    obtain ⟨key, hkey, -⟩ := Option.bind_eq_some_iff.mp (ready.unset f hf)
    rw [hkey]
    rfl
  distinct := distinct
  known := by
    obtain ⟨t, hnamed, -⟩ := ready.vacant
    obtain ⟨key, hkey, -⟩ := Option.bind_eq_some_iff.mp hnamed
    rw [hkey]
    exact hkey

/-- Before the first step no initializer runs, and no flag is set. -/
theorem Ready.fits (ready : m.Ready ids flags target)
    (distinct : ∀ f ∈ flags, ∀ g ∈ flags, ids f = ids g → f = g) (flavour : Flavour) :
    ∃ who, Fits (ready.setting distinct flavour) who [] [] m.protocol := by
  obtain ⟨who, allowed⟩ : ∃ who, (ready.setting distinct flavour).Allows who := by
    cases flavour with
    | blocking => exact ⟨.thread m.thread, rfl⟩
    | async => exact ⟨.scope 0, 0, rfl⟩
  refine ⟨who, ready.alive, allowed, fun f hf => ?_, ?_, fun p hp => absurd hp List.not_mem_nil,
    fun p hp => absurd hp List.not_mem_nil, fun p hp => absurd hp List.not_mem_nil,
    List.nodup_nil⟩
  · obtain ⟨key, hkey, hflag⟩ := Option.bind_eq_some_iff.mp (ready.unset f hf)
    show m.protocol.flags.get? ((m.names.flags.get? f).getD 0) = _
    rw [hkey]
    exact hflag
  · obtain ⟨t, hnamed, vacant⟩ := ready.vacant
    obtain ⟨key, hkey, htarget⟩ := Option.bind_eq_some_iff.mp hnamed
    refine ⟨t, ?_, ?_⟩
    · show m.protocol.targets.get? ((m.targetKey? target).getD 0) = _
      rw [hkey]
      exact htarget
    · cases hexecutor : t.executor with
      | registry r =>
        rw [hexecutor] at vacant
        have hempty : r.operations = [] := vacant
        refine ⟨?_, ?_⟩ <;> simp [Registry.held, Setting.held, hempty]
      | table t =>
        rw [hexecutor] at vacant
        obtain ⟨hempty, mapped, slots, free⟩ := vacant
        refine ⟨?_, mapped, slots, free⟩
        simp [Setting.held, hempty]

end Machine

/-- **The entry points agree.** A program does what its play says, whether its calls block or are
asynchronous, and whether they go through a registry or a slot table: the same initializers begin
and return in the same order, the same calls return, are refused and panic, the program ends in the
same way, and the same flags are set then. -/
theorem entry_points_agree (p : Program) {ids : String → FlagId} {flags : List String}
    (named : ∀ f ∈ p.flags, f ∈ flags)
    (distinct : ∀ f ∈ flags, ∀ g ∈ flags, ids f = ids g → f = g) {m : Machine} {target : String}
    (ready : m.Ready ids flags target) (flavour kind : Flavour) :
    ∃ n, m.Played (Machine.step^[n] (m.load (p.steps flavour target) kind)) ids flags
      (p.play ids [] []) := by
  obtain ⟨who, fits⟩ := ready.fits distinct flavour
  have hplays : (ready.setting distinct flavour).Plays [] []
      (.steps (p.steps flavour target) kind :: m.stack) m.stack (p.play ids [] []) :=
    p.plays named ready.outside
  obtain ⟨who', s', fits', reaches⟩ := hplays who m.protocol m.told fits
  have hloaded : (m.load (p.steps flavour target) kind).Shows ⟨m.names, m.strand⟩
      ⟨.steps (p.steps flavour target) kind :: m.stack, .go, m.protocol, m.told, none⟩ :=
    ⟨ready.halt, rfl, rfl, ready.alone, rfl, rfl, rfl, rfl, ready.trial⟩
  obtain ⟨n, hn⟩ := reaches _ hloaded
  refine ⟨n, hn.halt, hn.strand, hn.stack, hn.control, hn.told, fun f hf => ?_⟩
  rw [Machine.flagNamed?, hn.names, hn.protocol]
  exact Option.bind_eq_some_iff.mpr
    ⟨_, (ready.setting distinct flavour).named f hf, fits'.flag f hf⟩

/-! ## One program through the four entry points -/

/-- A table of two slots. -/
def twoSlots : SlotTable where
  mapping := { object := 0, size := regionSize 2, name := "/once_1", isOwner := true }
  slotCount := 2
  pollSpins := 0

/-- A machine with two flags, a context for one process, and one over a table of two slots. -/
def twoContexts (stack : List Frame) : Machine where
  protocol :=
    { flags := ⟨[(1, { id := ⟨0⟩ }), (2, { id := ⟨1⟩ })]⟩
      targets := ⟨[(3, .localContext), (4,
        { executor := .table twoSlots, capabilities := some Capabilities.crossImage })]⟩
      image := { system 1 with directory := { objects := ⟨[(0, { size := 12 })]⟩ } }
      nextKey := 5 }
  names :=
    { flags := ⟨[("a", 1), ("b", 2)]⟩
      targets := ⟨[("own", 3), ("shared", 4)]⟩ }
  stack

/-- The handles of its flags. -/
def twoIds (name : String) : FlagId := if name = "a" then ⟨0⟩ else ⟨1⟩

theorem twoContexts_ready {stack : List Frame} {target : String}
    (outside : Machine.enclosingCall? stack = none) (known : target = "own" ∨ target = "shared") :
    (twoContexts stack).Ready twoIds ["a", "b"] target where
  halt := rfl
  alone _ := rfl
  outside := outside
  trial := rfl
  alive := rfl
  unset := by
    intro f hf
    fin_cases hf <;> rfl
  vacant := by
    rcases known with rfl | rfl
    · exact ⟨_, rfl, rfl⟩
    · refine ⟨_, rfl, rfl, ⟨_, rfl⟩, fun f hf => ?_, rfl⟩
      fin_cases hf <;> rfl

/-- The initializer of the one flag meets itself, then calls for the other flag, whose initializer
panics; the panic stops at an attempt, and the other flag is called for again. -/
def nestedCalls : Program :=
  .attempt
    (.call "a" { catches := false }
      (.call "a" {} .done (.call "b" { catches := false } (.panic "boom") .done)) .done)
    (.call "b" {} .done .done)

/-- What these calls do. -/
def nestedPlay : Play where
  set := ["a", "b"]
  told :=
    [.enter "a", .called .exec "a" (.refused (.reentrant ⟨0⟩)), .enter "b",
      .called .exec "b" (.panicked "boom"), .called .exec "a" (.panicked "boom"),
      .polled trialTask (.panicked "boom"), .called .exec "b" (.ok none)]

theorem entry_points_agree_nested :
    (∃ n, (twoContexts []).Played (Machine.step^[n]
      ((twoContexts []).load (nestedCalls.steps .blocking "own") .blocking))
      twoIds ["a", "b"] nestedPlay) ∧
    (∃ n, (twoContexts []).Played (Machine.step^[n]
      ((twoContexts []).load (nestedCalls.steps .blocking "shared") .blocking))
      twoIds ["a", "b"] nestedPlay) ∧
    (∃ n, (twoContexts [.poll "t"]).Played (Machine.step^[n]
      ((twoContexts [.poll "t"]).load (nestedCalls.steps .async "own") .async))
      twoIds ["a", "b"] nestedPlay) ∧
    (∃ n, (twoContexts [.poll "t"]).Played (Machine.step^[n]
      ((twoContexts [.poll "t"]).load (nestedCalls.steps .async "shared") .async))
      twoIds ["a", "b"] nestedPlay) := by
  have named : ∀ f ∈ nestedCalls.flags, f ∈ ["a", "b"] := by decide
  have distinct : ∀ f ∈ ["a", "b"], ∀ g ∈ ["a", "b"], twoIds f = twoIds g → f = g := by decide
  have hplay : nestedCalls.play twoIds [] [] = nestedPlay := by rfl
  rw [← hplay]
  exact ⟨entry_points_agree nestedCalls named distinct (twoContexts_ready rfl (.inl rfl)) _ _,
    entry_points_agree nestedCalls named distinct (twoContexts_ready rfl (.inr rfl)) _ _,
    entry_points_agree nestedCalls named distinct (twoContexts_ready rfl (.inl rfl)) _ _,
    entry_points_agree nestedCalls named distinct (twoContexts_ready rfl (.inr rfl)) _ _⟩

end RunOnce.Scenario
