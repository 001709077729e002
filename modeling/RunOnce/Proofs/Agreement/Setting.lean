import RunOnce.Proofs.Registry
import RunOnce.Scenario.Machine

/-!
# Executors while initializers run around each other

**The setting** (`Setting`) of a run fixes what the entry points differ in: the target through which
all calls go, and their flavour. Flags that differ have handles that differ.

**An executor suits** (`Setting.Suits`) the initializers that run around each other, and the flags
that are set, in one of two ways. A registry holds one operation for each of these initializers, and
nobody waits. A slot table has one claim for each, its slots say which flags run and which are done,
and its lock is free. All of it is under one identity: in the blocking flavour that of the thread,
in the asynchronous one the token that the outermost call drew.

**Locked sections.** A call that meets its own initializer is refused, and any other one wins: the
registry answers so (`enter_reentrant`, `enter_won`), and so does the table (`claim_reentrant`,
`claim_won`). Afterwards the executor suits again, and so it does when the innermost initializer has
ended (`Setting.suits_opened`, `Setting.suits_claimed`, `Setting.suits_retired`,
`Setting.suits_settled`).
-/

namespace RunOnce

open Region

/-! ## Slots -/

/-- The state of a slot after another one was marked. -/
theorem SlotTable.state?_mark (t : SlotTable) (d : Directory) {object : Object}
    (mapped : d.objects.get? t.mapping.object = some object) {id : FlagId}
    (within : id.index < t.slotCount) (v : UInt32) (id' : FlagId) :
    t.state? (t.mark d id v) id' =
      if id = id' then some v else t.state? d id' := by
  have hmark : t.mark d id v =
      d.writeWord t.mapping.object (headerWords + id.index.toNat) v := by
    simp [mark, wordOf?, within]
  have hread (word : Nat) : (t.mark d id v).readWord t.mapping.object word =
      (object.write (headerWords + id.index.toNat) v).read word := by
    rw [hmark, Directory.readWord, Directory.writeWord, Store.get?_modify, if_pos rfl, mapped]
    rfl
  by_cases hid : id = id'
  · subst hid
    simp [state?, wordOf?, within, hread]
  · have hword : headerWords + id.index.toNat ≠ headerWords + id'.index.toNat := by
      intro he
      have hindex : id.index = id'.index := UInt32.toNat_inj.mp (by omega)
      exact hid (by cases id; cases id'; simp_all)
    rw [if_neg hid]
    by_cases hin : id'.index < t.slotCount
    · simp only [state?, wordOf?, if_pos hin, Option.map_some]
      rw [hread, Object.read_write_of_ne _ hword, Directory.readWord, mapped]
      rfl
    · simp only [state?, wordOf?, if_neg hin, Option.map_none]

/-- Marking a slot keeps the object of its table. -/
theorem SlotTable.mapped_mark (t : SlotTable) (d : Directory) {object : Object}
    (mapped : d.objects.get? t.mapping.object = some object) (id : FlagId) (v : UInt32) :
    ∃ object, (t.mark d id v).objects.get? t.mapping.object = some object := by
  unfold mark
  split
  · exact ⟨_, by rw [Directory.writeWord, Store.get?_modify, if_pos rfl, mapped]; rfl⟩
  · exact ⟨object, mapped⟩

end RunOnce

namespace RunOnce.Scenario

open Protocol Region

/-- What does not change while a program runs on one thread. -/
structure Scene where
  names : Names
  /-- The thread that runs, unless it is the main one. -/
  strand : Option String

/-- The name of the thread. -/
def Scene.thread (scene : Scene) : String := scene.strand.getD mainThread

/-- Where a program runs. -/
structure Setting extends Scene where
  /-- The flags that the program may name. -/
  flags : List String
  ids : String → FlagId
  key : String → Nat
  target : String
  /-- The key of the target. -/
  place : Nat
  flavour : Flavour
  named : ∀ f ∈ flags, names.flags.get? f = some (key f)
  distinct : ∀ f ∈ flags, ∀ g ∈ flags, ids f = ids g → f = g
  known : (if target = globalName then some globalKey else names.targets.get? target) = some place

/-- The state of the slot of a flag, while initializers run and flags are set. -/
def slotOf (around : List (String × Nat)) (set : List String) (f : String) : UInt32 :=
  if f ∈ set then slotDone else if f ∈ around.map (·.1) then slotRunning else slotIdle

namespace Setting

variable (S : Setting)

/-- A call for a flag. -/
def visit (f : String) (outer : Option Nat) (who : Option Initiator) (phase : Phase Value) :
    Call Value :=
  { flavour := S.flavour, thread := S.thread, enclosing := outer, target := S.place,
    flag := S.key f, initiator := who, phase }

/-- The identities under which calls can be made. -/
def Allows (who : Initiator) : Prop :=
  match S.flavour with
  | .blocking => who = .thread S.thread
  | .async => ∃ token, who = .scope token

/-- What an executor holds while initializers run. -/
def held (who : Initiator) (around : List (String × Nat)) : List (FlagId × Initiator) :=
  around.map fun p => (S.ids p.1, who)

/-- An executor agrees with the initializers that run and the flags that are set. -/
def Suits (who : Initiator) (around : List (String × Nat)) (set : List String) (d : Directory) :
    Executor → Prop
  | .registry r => r.held.Perm (S.held who around) ∧ ∀ op ∈ r.operations, op.waiters = []
  | .table t =>
    t.claims.Perm (S.held who around) ∧
      (∃ object, d.objects.get? t.mapping.object = some object) ∧
      (∀ f ∈ S.flags, t.state? d (S.ids f) = some (slotOf around set f)) ∧ t.guard? = none

end Setting

section

variable {S : Setting} {who : Initiator} {around : List (String × Nat)} {set : List String}
  {s s' : State Value} {f : String} {c : Nat} {outer : Option Nat} {initiator : Option Initiator}
  {d : Directory} {r : Registry Nat} {t : SlotTable}

/-! ## What executors answer -/

/-- What is held for a flag is held under the one identity, while its initializer runs. -/
theorem Setting.mem_held (flags : ∀ p ∈ around, p.1 ∈ S.flags) (hf : f ∈ S.flags)
    (w : Initiator) : (S.ids f, w) ∈ S.held who around ↔ w = who ∧ f ∈ around.map (·.1) := by
  constructor
  · intro hmem
    obtain ⟨p, hp, he⟩ := List.mem_map.mp hmem
    obtain ⟨hid, rfl⟩ := Prod.mk.inj he
    obtain rfl := S.distinct _ (flags p hp) _ hf hid
    exact ⟨rfl, List.mem_map_of_mem hp⟩
  · rintro ⟨rfl, hmem⟩
    obtain ⟨p, hp, rfl⟩ := List.mem_map.mp hmem
    exact List.mem_map.mpr ⟨p, hp, rfl⟩

theorem enter_reentrant (held : r.held.Perm (S.held who around))
    (flags : ∀ p ∈ around, p.1 ∈ S.flags) (hf : f ∈ S.flags) (inside : f ∈ around.map (·.1)) :
    r.enter { id := S.ids f } who c = (.reentrant, r) := by
  have hown : (S.ids f, who) ∈ r.held :=
    held.mem_iff.mpr ((S.mem_held flags hf who).mpr ⟨rfl, inside⟩)
  rcases r.enter_cases { id := S.ids f } who c with
    ⟨done, -⟩ | ⟨-, -, h⟩ | ⟨-, ⟨op, found, stranger⟩, -⟩ | ⟨-, free, -⟩
  · cases done
  · exact h
  · have hop := held.mem_iff.mp (Registry.mem_held_of_find? found)
    exact absurd ((S.mem_held flags hf _).mp hop).1 stranger
  · exact absurd hown (Registry.find?_eq_none.mp free who)

theorem enter_won (held : r.held.Perm (S.held who around))
    (flags : ∀ p ∈ around, p.1 ∈ S.flags) (hf : f ∈ S.flags) (outside : f ∉ around.map (·.1)) :
    r.enter { id := S.ids f } who c =
      (.won, ⟨r.operations ++ [{ flag := S.ids f, initiator := who }]⟩) := by
  have hfree : r.find? (S.ids f) = none := Registry.find?_eq_none.mpr fun w hmem =>
    outside ((S.mem_held flags hf w).mp (held.mem_iff.mp hmem)).2
  simp [Registry.enter, hfree]

theorem claim_reentrant (held : t.claims.Perm (S.held who around))
    (flags : ∀ p ∈ around, p.1 ∈ S.flags) (hf : f ∈ S.flags) (inside : f ∈ around.map (·.1))
    (v : UInt32) : t.claim v (S.ids f) who = (.reentrant, t) := by
  have hown : (S.ids f, who) ∈ t.claims :=
    held.mem_iff.mpr ((S.mem_held flags hf who).mpr ⟨rfl, inside⟩)
  simp [SlotTable.claim, hown]

theorem claim_won (held : t.claims.Perm (S.held who around))
    (flags : ∀ p ∈ around, p.1 ∈ S.flags) (hf : f ∈ S.flags) (outside : f ∉ around.map (·.1)) :
    t.claim slotIdle (S.ids f) who =
      (.won, { t with claims := t.claims ++ [(S.ids f, who)] }) := by
  have hfree : (S.ids f, who) ∉ t.claims := fun hmem =>
    outside ((S.mem_held flags hf who).mp (held.mem_iff.mp hmem)).2
  simp [SlotTable.claim, hfree]

/-! ## Executors after an initializer begins and after it ends -/

theorem slotOf_cons (clear : f ∉ set) (g : String) :
    slotOf ((f, c) :: around) set g = if f = g then slotRunning else slotOf around set g := by
  unfold slotOf
  by_cases hfg : f = g
  · subst hfg
    simp [clear]
  · have hmem : g ∈ ((f, c) :: around).map (·.1) ↔ g ∈ around.map (·.1) := by
      simp [Ne.symm hfg]
    rw [if_neg hfg, if_congr hmem rfl rfl]

theorem slotOf_set (g : String) : slotOf around (f :: set) g =
    if f = g then slotDone else slotOf ((f, c) :: around) set g := by
  unfold slotOf
  by_cases hfg : f = g
  · subst hfg
    simp
  · have hmem : g ∈ ((f, c) :: around).map (·.1) ↔ g ∈ around.map (·.1) := by
      simp [Ne.symm hfg]
    have hset : g ∈ f :: set ↔ g ∈ set := by simp [Ne.symm hfg]
    rw [if_neg hfg, if_congr hmem rfl rfl, if_congr hset rfl rfl]

/-- The slots of flags after the slot of one of them was marked. -/
theorem state?_mark_of_flag {object : Object}
    (mapped : d.objects.get? t.mapping.object = some object)
    (slots : ∀ g ∈ S.flags, t.state? d (S.ids g) = some (slotOf around set g))
    (hf : f ∈ S.flags) (v : UInt32) {g : String} (hg : g ∈ S.flags) :
    t.state? (t.mark d (S.ids f) v) (S.ids g) =
      some (if f = g then v else slotOf around set g) := by
  have within : (S.ids f).index < t.slotCount := by
    by_contra hout
    have hslot := slots f hf
    simp [SlotTable.state?, SlotTable.wordOf?, hout] at hslot
  rw [t.state?_mark d mapped within, slots g hg]
  by_cases hfg : f = g
  · subst hfg
    simp
  · have hids : S.ids f ≠ S.ids g := fun he => hfg (S.distinct f hf g hg he)
    simp [hfg, hids]

theorem Setting.suits_opened (suits : S.Suits who around set d (.registry r)) :
    S.Suits who ((f, c) :: around) set d
      (.registry ⟨r.operations ++ [{ flag := S.ids f, initiator := who }]⟩) := by
  obtain ⟨held, alone⟩ := suits
  refine ⟨?_, fun op hop => ?_⟩
  · have hmore : Registry.held ⟨r.operations ++ [{ flag := S.ids f, initiator := who }]⟩ =
        r.held ++ [(S.ids f, who)] := List.map_append
    rw [hmore]
    exact (List.perm_append_singleton _ _).trans (held.cons _)
  · rcases List.mem_append.mp hop with hop | hop
    · exact alone op hop
    · rw [List.mem_singleton.mp hop]

theorem Setting.suits_claimed (suits : S.Suits who around set d (.table t)) (hf : f ∈ S.flags)
    (clear : f ∉ set) :
    S.Suits who ((f, c) :: around) set (t.mark d (S.ids f) slotRunning)
      (.table { t with claims := t.claims ++ [(S.ids f, who)] }) := by
  obtain ⟨held, ⟨object, mapped⟩, slots, free⟩ := suits
  refine ⟨(List.perm_append_singleton _ _).trans (held.cons _), t.mapped_mark d mapped _ _,
    fun g hg => ?_, free⟩
  rw [slotOf_cons clear]
  exact state?_mark_of_flag mapped slots hf slotRunning hg

/-- The operation of the innermost initializer is retired, and nobody waited for it. -/
theorem Setting.suits_retired (suits : S.Suits who ((f, c) :: around) set d (.registry r))
    (flags : ∀ p ∈ (f, c) :: around, p.1 ∈ S.flags) :
    ∃ r', r.retire (S.ids f) = some ([], r') ∧
      S.Suits who around (f :: set) d (.registry r') := by
  obtain ⟨held, alone⟩ := suits
  have hheld {w : Initiator} : (S.ids f, w) ∈ r.held ↔ w = who := by
    rw [held.mem_iff, S.mem_held flags (flags _ List.mem_cons_self)]
    simp
  cases hretire : r.retire (S.ids f) with
  | none => exact absurd (hheld.mpr rfl) (Registry.retire_eq_none hretire who)
  | some taken =>
    obtain ⟨waiters, r'⟩ := taken
    obtain ⟨op, -, rfl, operations⟩ := Registry.retire_eq_some hretire
    obtain ⟨w, rest⟩ := Registry.held_retire hretire
    have hw : w = who := hheld.mp (rest.mem_iff.mpr List.mem_cons_self)
    subst hw
    refine ⟨r', ?_, (rest.symm.trans held).cons_inv, fun other hother => ?_⟩
    · rw [alone op (operations.mem_iff.mpr List.mem_cons_self)]
    · exact alone other (operations.mem_iff.mpr (List.mem_cons_of_mem _ hother))

theorem Setting.suits_settled (suits : S.Suits who ((f, c) :: around) set d (.table t))
    (flags : ∀ p ∈ (f, c) :: around, p.1 ∈ S.flags)
    (apart : (((f, c) :: around).map (·.1)).Nodup) :
    S.Suits who around (f :: set) (t.mark d (S.ids f) slotDone)
      (.table (t.disclaim (S.ids f))) := by
  obtain ⟨held, ⟨object, mapped⟩, slots, free⟩ := suits
  have hf : f ∈ S.flags := flags _ List.mem_cons_self
  refine ⟨?_, t.mapped_mark d mapped _ _, fun g hg => ?_, free⟩
  · have hrest : (S.held who around).filter (fun p => !decide (p.1 = S.ids f)) =
        S.held who around := by
      refine List.filter_eq_self.mpr fun p hp => ?_
      obtain ⟨q, hq, rfl⟩ := List.mem_map.mp hp
      have hne : S.ids q.1 ≠ S.ids f := by
        intro he
        have hname := S.distinct _ (flags q (List.mem_cons_of_mem _ hq)) _ hf he
        have hmem : q.1 ∈ around.map (·.1) := List.mem_map_of_mem hq
        rw [hname] at hmem
        exact (List.nodup_cons.mp apart).1 hmem
      simp [hne]
    have hfilter := held.filter (fun p => !decide (p.1 = S.ids f))
    rw [Setting.held, List.map_cons, List.filter_cons_of_neg (by simp)] at hfilter
    rw [← hrest]
    exact hfilter
  · rw [slotOf_set (c := c)]
    exact state?_mark_of_flag mapped slots hf slotDone hg

end

end RunOnce.Scenario
