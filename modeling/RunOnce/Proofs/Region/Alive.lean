import RunOnce.Proofs.Region.Listing

/-!
# Which creators count as alive

**The system** (`System`) knows its processes by signed numbers of 32 bits, and answers whoever sends
the null signal to a number. To a positive number the answer tells whether there is such a process,
even one that may not be signalled. Zero stands for the sender's own group, and the answer is that
the signal is delivered, whatever processes there are (`System.Lawful`).

**Theorem (`live_iff`).** The id in the name of a region may be any number of 32 bits. A region of
this process is live if and only if its name is owned here. One of another process is live if and
only if there is this process, or the id is zero: so the classification is right for every id but
zero, and for zero if there is a process of this id. Otherwise a region with this id is live for
good: no cleanup removes it, and its tag gets no other region.

An id that is too large for the system's signed type is not asked about, and no process has it.
-/

namespace RunOnce.Region

/-- What a system answers to whoever sends the null signal: it is delivered, or the sender may not
signal the process, or there is none. -/
inductive Answer
  | delivered
  | forbidden
  | missing
deriving DecidableEq

/-- Whether the answer tells of a process. -/
def Answer.isPresent : Answer → Bool
  | .delivered | .forbidden => true
  | .missing => false

/-- The processes of a system, and its answers. -/
structure System where
  HasProcess : Int32 → Prop
  answer : Int32 → Answer

namespace System

/-- Whether there is a process with the id. -/
def Runs (s : System) (pid : UInt32) : Prop := ∃ p : Int32, p.toInt = pid.toNat ∧ s.HasProcess p

/-- Positive numbers name processes, and zero names the sender's own group. -/
structure Lawful (s : System) : Prop where
  process : ∀ p : Int32, 0 < p → ((s.answer p).isPresent = true ↔ s.HasProcess p)
  group : s.answer 0 = .delivered

variable {s : System} {pid : UInt32}

/-- The signed number of an id that is not too large. -/
theorem runs_iff (small : pid.toNat < 0x80000000) :
    s.Runs pid ↔ s.HasProcess (Int32.ofNat pid.toNat) := by
  have hvalue : (Int32.ofNat pid.toNat).toInt = pid.toNat := Int32.toInt_ofNat_of_lt small
  constructor
  · rintro ⟨p, hp, hprocess⟩
    rwa [← Int32.toInt_inj.mp (hp.trans hvalue.symm)]
  · exact fun hprocess => ⟨_, hvalue, hprocess⟩

theorem signed_inj {other : UInt32} (small : pid.toNat < 0x80000000)
    (small' : other.toNat < 0x80000000) :
    Int32.ofNat pid.toNat = Int32.ofNat other.toNat ↔ pid = other := by
  rw [← Int32.toInt_inj, Int32.toInt_ofNat_of_lt small, Int32.toInt_ofNat_of_lt small',
    ← UInt32.toNat_inj]
  omega

/-- Larger ids are those of no process. -/
theorem not_runs (large : 0x80000000 ≤ pid.toNat) : ¬s.Runs pid := by
  rintro ⟨p, hp, -⟩
  have hp' := p.toInt_lt
  omega

end System

namespace Image

variable {i : Image} {s : System} {name tag : String} {pid : UInt32} {size : Nat}

/-- What counts as alive in the image is what the system answers. -/
def Probes (i : Image) (s : System) : Prop :=
  ∀ pid : UInt32, pid.toNat < 0x80000000 →
    i.isAlive pid = (s.answer (Int32.ofNat pid.toNat)).isPresent

/-- A process is taken to exist if there is one, or if its id is zero. -/
theorem processExists_iff (probes : i.Probes s) (lawful : s.Lawful) :
    i.processExists pid = true ↔ pid = 0 ∨ s.Runs pid := by
  unfold processExists
  by_cases small : pid.toNat < 0x80000000
  · rw [decide_eq_true small, Bool.true_and, probes pid small]
    by_cases hzero : pid = 0
    · subst hzero
      simp [lawful.group, Answer.isPresent]
    · have hpos : (0 : Int32) < Int32.ofNat pid.toNat := by
        have hne : pid.toNat ≠ 0 := fun h => hzero (UInt32.toNat_inj.mp h)
        rw [Int32.lt_iff_toInt_lt, Int32.toInt_ofNat_of_lt small, Int32.toInt_zero]
        omega
      rw [lawful.process _ hpos, System.runs_iff small, or_iff_right hzero]
  · have hlarge := Nat.le_of_not_lt small
    have hzero : pid ≠ 0 := by
      rintro rfl
      exact small (by decide)
    simp [small, hzero, System.not_runs hlarge]

/-- A region of this process is live if it is owned here, and one of another process if this process
is taken to exist. -/
theorem isStale_eq_false_iff : i.isStale name pid = false ↔
    pid = i.self ∧ name ∈ i.owned ∨ pid ≠ i.self ∧ i.processExists pid = true := by
  unfold isStale
  by_cases hself : pid = i.self
  · simp [hself]
  · simp [hself]

/-! ## A live region stays -/

/-- Where there is a live region a scan comes to something: it finds one, or it fails. -/
theorem mapFirst_ne_none {failure : Option RegionError} {regions : List (String × UInt32)}
    (linked : ∀ e ∈ regions, i.directory.find? (fileOf e.1) ≠ none)
    (met : failure ≠ none ∨ i.lively regions ≠ []) :
    (i.mapFirst size failure regions).1 ≠ .ok none := by
  induction regions generalizing failure with
  | nil =>
    obtain ⟨e, rfl⟩ := Option.ne_none_iff_exists'.mp (met.resolve_right fun h => h rfl)
    simp [mapFirst]
  | cons e rest ih =>
    have hlinked := List.forall_mem_cons.mp linked
    rw [lively_cons] at met
    rw [mapFirst]
    by_cases stale : i.isStale e.1 e.2 = true
    · rw [if_pos stale] at met ⊢
      exact ih hlinked.2 met
    · rw [if_neg stale]
      rcases serves_or_refuses hlinked.1 size with ⟨m, serves⟩ | ⟨error, refuses⟩
      · rw [serves.mapExisting]
        simp
      · rw [refuses.mapExisting]
        exact ih hlinked.2 (.inl (Option.some_ne_none _))

/-- A tag with a live region gets no other one. -/
theorem openOrCreate_guest (listed : (name, pid) ∈ i.list tag) (live : i.isStale name pid = false)
    {m : Mapping} (h : (i.openOrCreate tag size).1 = .ok m) : m.isOwner = false := by
  unfold openOrCreate at h
  cases lock : i.lock tag with
  | error e =>
    rw [lock] at h
    cases h
  | ok locked =>
    have hsame := takesLock lock
    replace listed := mem_list_lock lock listed
    rw [← isStale_congr i locked hsame.self hsame.isAlive (by rw [hsame.owned])] at live
    have hlively : locked.lively (locked.list tag) ≠ [] :=
      List.ne_nil_of_mem (List.mem_filter.mpr ⟨listed, by simp [live]⟩)
    have hseek : (locked.seek tag size).1 ≠ .ok none :=
      mapFirst_ne_none (fun e he => find?_of_mem_list he) (.inr hlively)
    simp only [lock] at h
    cases hresult : locked.seek tag size with
    | mk result records =>
      rw [hresult] at h hseek
      rcases result with e | (_ | m')
      · cases h
      · exact absurd rfl hseek
      · cases h
        exact isOwner_seek (congrArg Prod.fst hresult)

/-- A cleanup leaves what is listed and live. -/
theorem find?_cleanup (listed : (name, pid) ∈ i.list tag) (live : i.isStale name pid = false) :
    (i.cleanup tag).2.1.directory.find? (fileOf name) = i.directory.find? (fileOf name) := by
  obtain ⟨node, hnode⟩ := Option.ne_none_iff_exists'.mp (find?_of_mem_list listed)
  obtain ⟨file, -, hcreator, rfl⟩ := mem_list.mp listed
  have hspared : i.discards tag (fileOf ("/" ++ file), node) = false := by
    rw [Bool.eq_false_iff, fileOf_slash]
    intro hdiscards
    obtain ⟨_, pid', hfile, hcreator', hstale, -⟩ := discards_iff.mp hdiscards
    cases hfile
    obtain rfl : pid' = pid := Option.some.inj (hcreator'.symm.trans hcreator)
    cases live.symm.trans hstale
  rw [hnode]
  exact (Holdings.Operation.cleanup tag).find?_answer nofun hnode hspared

/-- **A region is live if its creator is there, or if the id of its creator is zero.** So liveness is
judged rightly for every id, unless it is zero and there is no such process. Then the region stays
for good, and its tag gets no other one. -/
theorem live_iff (probes : i.Probes s) (lawful : s.Lawful) (name : String) (pid : UInt32) :
    (i.isStale name pid = false ↔
      pid = i.self ∧ name ∈ i.owned ∨ pid ≠ i.self ∧ (pid = 0 ∨ s.Runs pid)) ∧
    ((i.isStale name pid = false ↔
        pid = i.self ∧ name ∈ i.owned ∨ pid ≠ i.self ∧ s.Runs pid) ↔
      (pid = 0 → i.self = 0 ∨ s.Runs 0)) ∧
    (pid = 0 → i.self ≠ 0 → ∀ tag, (name, pid) ∈ i.list tag →
      (i.cleanup tag).2.1.directory.find? (fileOf name) = i.directory.find? (fileOf name) ∧
      ∀ size m, (i.openOrCreate tag size).1 = .ok m → m.isOwner = false) := by
  have hlive : i.isStale name pid = false ↔
      pid = i.self ∧ name ∈ i.owned ∨ pid ≠ i.self ∧ (pid = 0 ∨ s.Runs pid) := by
    rw [isStale_eq_false_iff, processExists_iff probes lawful]
  refine ⟨hlive, ?_, fun hzero hself tag listed => ?_⟩
  · rw [hlive]
    by_cases hzero : pid = 0
    · subst hzero
      by_cases hself : 0 = i.self
      · simp [← hself]
      · simp [hself, Ne.symm hself]
    · simp [hzero]
  · have live := hlive.mpr (.inr ⟨fun h => hself (h.symm.trans hzero), .inl hzero⟩)
    exact ⟨find?_cleanup listed live, fun size m h => openOrCreate_guest listed live h⟩

/-- A system with two processes. One of them may not be signalled. -/
def pair : System where
  HasProcess p := p = 7 ∨ p = 9
  answer p := if p = 0 ∨ p = 7 then .delivered else if p = 9 then .forbidden else .missing

theorem pair_lawful : pair.Lawful where
  process p pos := by
    have hzero : p ≠ 0 := by
      rintro rfl
      exact absurd pos (by decide)
    by_cases hfirst : p = 7
    · simp [pair, hfirst, Answer.isPresent]
    · by_cases hsecond : p = 9 <;> simp [pair, hzero, hfirst, hsecond, Answer.isPresent]
  group := rfl

/-- One of the two processes, and regions with the ids of both, of none, of zero, and of one that is
too large. -/
def haunted : Image where
  self := 7
  isAlive pid := pid = 0 || pid = 7 || pid = 9
  directory :=
    { entries := [(.text "t.lock", .file 0), (.text "t_0", .file 1), (.text "t_5", .file 2),
        (.text "t_7", .file 3), (.text "t_9", .file 4), (.text "t_4294967295", .file 5)]
      nextObject := 6 }
  owned := ["/t_7"]

theorem haunted_probes : haunted.Probes pair := by
  intro pid small
  have hsigned (other : UInt32) (small' : other.toNat < 0x80000000) :=
    System.signed_inj small small'
  have hzero : Int32.ofNat pid.toNat = 0 ↔ pid = 0 := hsigned 0 (by decide)
  have hfirst : Int32.ofNat pid.toNat = 7 ↔ pid = 7 := hsigned 7 (by decide)
  have hsecond : Int32.ofNat pid.toNat = 9 ↔ pid = 9 := hsigned 9 (by decide)
  simp only [haunted, pair, hzero, hfirst, hsecond]
  by_cases h : pid = 0 ∨ pid = 7
  · rcases h with rfl | rfl <;> rfl
  · rw [if_neg h]
    obtain ⟨hne, hne'⟩ := not_or.mp h
    by_cases hlast : pid = 9 <;> simp [hne, hne', hlast, Answer.isPresent]

/-- The region with the id of no process, zero, counts as live, and stays. The others are judged by
who is there. -/
theorem live_iff_haunted : haunted.Probes pair ∧ pair.Lawful ∧ ¬pair.Runs 0 ∧
    haunted.isStale "/t_0" 0 = false ∧
    (haunted.cleanup "t").2.1.directory.find? (.text "t_0") = some (.file 1) ∧
    haunted.isStale "/t_5" 5 = true ∧ haunted.isStale "/t_7" 7 = false ∧
    haunted.isStale "/t_9" 9 = false ∧ haunted.isStale "/t_4294967295" 4294967295 = true := by
  have hjudged (name : String) (pid : UInt32) := live_iff haunted_probes pair_lawful name pid
  have hself : haunted.self = 7 := rfl
  have hnobody : ¬pair.Runs 0 ∧ ¬pair.Runs 5 := by
    rw [System.runs_iff (by decide), System.runs_iff (by decide)]
    exact ⟨by simp [pair], by simp [pair]⟩
  have hother : pair.Runs 9 := (System.runs_iff (by decide)).mpr (.inr rfl)
  have hzero : haunted.isStale "/t_0" 0 = false :=
    (hjudged "/t_0" 0).1.mpr (.inr ⟨by decide, .inl rfl⟩)
  have hkept := (hjudged "/t_0" 0).2.2 rfl (by decide) "t" (by decide)
  refine ⟨haunted_probes, pair_lawful, hnobody.1, hzero, hkept.1.trans rfl, ?_,
    (hjudged "/t_7" 7).1.mpr (.inl ⟨rfl, by decide⟩),
    (hjudged "/t_9" 9).1.mpr (.inr ⟨by decide, .inr hother⟩), ?_⟩
  · rw [← Bool.not_eq_false, (hjudged "/t_5" 5).1]
    simp [hself, hnobody.2]
  · have hlarge : ¬pair.Runs 4294967295 := System.not_runs (by decide)
    rw [← Bool.not_eq_false, (hjudged "/t_4294967295" 4294967295).1]
    simp [hself, hlarge]

end Image

end RunOnce.Region
