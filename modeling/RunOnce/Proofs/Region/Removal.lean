import RunOnce.Proofs.Region.Holdings

/-!
# Why a name is taken away

**Moments** (`moment`). An operation of a process is a number of atomic steps. At each of them a
name may cease to stand for what it stood for (`Removes`).

**Theorem (`Run.accounted`).** Over a whole run, what is owned is what is held, and a name is taken
away for one of three reasons only (`Justified`): it is that of the owner being dropped; it was
linked by the very operation, which then fails; or the region is stale at that moment.

Only three kinds of steps take a name away (`Image.Move.removes`). Which operation comes to such a
step is read off a distance to the stage of an owner, which no step shortens by more than one
(`Image.Move.ahead_le`).
-/

namespace RunOnce.Region

namespace Image.Move

variable {i i' : Image} {s s' : Stage} {file : FileName} {node : Node}

/-- A name goes in a sweep, if it is stale, or when a creation is undone, or when an owner is
dropped. -/
theorem removes (move : Move i s s' i') (found : i.directory.find? file = some node)
    (gone : i'.directory.find? file ≠ some node) :
    (∃ tag name pid, s.lock? = some tag ∧ (name, pid) ∈ i.list tag ∧ fileOf name = file ∧
      i.isStale name pid = true) ∨
    (∃ tag size object e, s = .linked tag size object ∧ s' = .ended (.error e) ∧
      fileOf (regionName tag i.self) = file) ∨
    (∃ tag m, s = .owning tag m ∧ fileOf m.name = file) := by
  have hsweep (tag : String) (h : (i.clean tag).directory.find? file ≠ some node) :
      ∃ name pid, (name, pid) ∈ i.list tag ∧ fileOf name = file ∧ i.isStale name pid = true := by
    rw [clean, find?_sweep] at h
    have hcondemned : i.condemns (i.list tag) file = true := by
      by_contra hspared
      exact h (by rw [if_neg fun hboth => hspared hboth.1, found])
    obtain ⟨⟨name, pid⟩, hmem, hregion⟩ := List.any_eq_true.mp hcondemned
    obtain ⟨hfile, hstale⟩ := Bool.and_eq_true_iff.mp hregion
    exact ⟨name, pid, hmem, of_decide_eq_true hfile, hstale⟩
  have hunlink (name : String) (h : (i.unlink name).2.directory.find? file ≠ some node) :
      fileOf name = file := by
    by_contra hne
    exact h (by rw [find?_unlink, if_neg fun hboth => hne hboth.1, found])
  cases move with
  | lock ok => exact absurd (find?_lock ok found) gone
  | cleanup tag =>
    obtain ⟨name, pid, hstale⟩ := hsweep tag gone
    exact .inl ⟨tag, name, pid, rfl, hstale⟩
  | sweep tag =>
    obtain ⟨name, pid, hstale⟩ := hsweep tag gone
    exact .inl ⟨tag, name, pid, rfl, hstale⟩
  | @link tag size free =>
    refine absurd ?_ gone
    rw [find?_link, if_neg, found]
    rintro rfl
    rw [free] at found
    cases found
  | undo tag size object e => exact .inr (.inl ⟨tag, size, object, e, rfl, rfl, hunlink _ gone⟩)
  | unlink tag m => exact .inr (.inr ⟨tag, m, rfl, hunlink _ gone⟩)
  | _ => exact absurd found gone

/-- What is linked was free just before. -/
theorem free_of_linked {tag : String} {size object : Nat}
    (move : Move i s (.linked tag size object) i') :
    i.directory.find? (fileOf (regionName tag i'.self)) = none := by
  rw [self_move move]
  cases move with
  | link _ free => exact free

/-- Who is about to take a lock arrives, and who holds one has taken it. -/
theorem lock_origin {tag : String} (move : Move i s s' i')
    (h : s'.lock? = some tag ∨ s'.waits? = some tag) :
    s.lock? = some tag ∨ s.waits? = some tag := by
  rcases h with hheld | hwaits
  · exact lock_move move hheld
  · cases move with
    | _ => cases hwaits

end Image.Move

/-- How many atomic steps it takes at least until a request has an owner. One that never gets there
counts as far away as any. -/
def Stage.ahead : Stage → Nat
  | .arriving (.create ..) | .holding (.openOrCreate ..) => 5
  | .holding (.create ..) => 4
  | .swept .. => 3
  | .linked .. => 2
  | .mapped .. => 1
  | .owning .. => 0
  | .arriving _ | .holding _ | .leaving .. | .ended _ => 6

theorem Image.Move.ahead_le {i i' : Image} {s s' : Stage} (move : Move i s s' i') :
    s.ahead ≤ s'.ahead + 1 := by
  cases move with
  | @lock r => cases r <;> simp [Stage.ahead]
  | refuse r => cases r <;> simp [Stage.ahead]
  | release r => cases r <;> simp [Stage.ahead]
  | _ => simp [Stage.ahead]

namespace Holdings.Operation

variable {i : Image} {op : Operation} {n : Nat} {file : FileName} {node : Node}

/-- The stage at which an operation begins. The drop of a mapping that owns nothing is over at
once. -/
def stage : Operation → Stage
  | .create tag size => .arriving (.create tag size)
  | .openOrCreate tag size | .open? tag size => .arriving (.openOrCreate tag size)
  | .cleanup tag => .arriving (.cleanup tag)
  | .drop tag m => if m.isOwner then .owning tag m else .ended (.ok none)

/-- How many atomic steps an operation takes at most. An opening stops where a creation would
begin. -/
def turns : Operation → Nat
  | .create .. => 5
  | .openOrCreate .. => 6
  | .open? .. | .cleanup _ | .drop .. => 2

/-- What an operation has come to after some of its atomic steps. -/
def moment (op : Operation) (i : Image) (n : Nat) : Stage × Image := turn^[n] (op.stage, i)

/-- At the last moment an operation is done. -/
theorem moment_turns (op : Operation) (i : Image) : (op.moment i op.turns).2 = (op.answer i).2 := by
  cases op with
  | create tag size => exact congrArg Prod.snd (i.turns_create tag size)
  | openOrCreate tag size => exact congrArg Prod.snd (i.turns_openOrCreate tag size)
  | open? tag size =>
    simp only [moment, stage, turns, answer, Image.open?, Function.iterate_succ_apply]
    cases hlock : i.lock tag with
    | error e => simp [turn, Image.step, Request.tag, hlock]
    | ok locked =>
      cases hseek : locked.seek tag size with
      | mk result records =>
        simp only [turn, Image.step, Request.tag, hlock, hseek]
        cases result with
        | error e => rfl
        | ok found =>
          cases found with
          | none => rfl
          | some m => rfl
  | cleanup tag => exact i.turns_cleanup tag
  | drop tag m =>
    by_cases owner : m.isOwner = true
    · simp only [moment, stage, turns, answer, owner, if_true, i.turns_release tag owner]
    · simp [moment, stage, turns, answer, owner, Image.release]

theorem move_moment (op : Operation) (i : Image) (n : Nat) :
    (op.moment i n).2.Move (op.moment i n).1 (op.moment i (n + 1)).1 (op.moment i (n + 1)).2 := by
  simp only [moment, Function.iterate_succ_apply']
  exact Image.move_step ..

/-- An operation takes the lock of its own tag only. -/
theorem lock_moment {tag : String} (h : (op.moment i n).1.lock? = some tag) : tag = op.tag := by
  suffices hall : ∀ n, (op.moment i n).1.lock? = some tag ∨ (op.moment i n).1.waits? = some tag →
      tag = op.tag from hall n (.inl h)
  intro n
  induction n with
  | zero =>
    intro h
    cases op with
    | drop t m =>
      by_cases owner : m.isOwner = true
      all_goals simp [moment, stage, owner, Stage.lock?, Stage.waits?] at h
    | _ =>
      rcases h with hheld | hwaits
      · cases hheld
      · cases hwaits
        rfl
  | succ n ih => exact fun h => ih ((move_moment op i n).lock_origin h)

theorem ahead_moment (op : Operation) (i : Image) (n : Nat) :
    op.stage.ahead ≤ (op.moment i n).1.ahead + n := by
  induction n with
  | zero => exact Nat.le_refl _
  | succ n ih =>
    have hstep := (move_moment op i n).ahead_le
    omega

/-- Only creations link anything, and they fail if they end in an error. -/
theorem failed_of_linked {tag : String} {size object : Nat} {e : RegionError} (hn : n < op.turns)
    (linked : (op.moment i n).1 = .linked tag size object)
    (ended : (op.moment i (n + 1)).1 = .ended (.error e)) : ∃ e, (op.answer i).1 = .error e := by
  have hahead := ahead_moment op i n
  rw [linked] at hahead
  have hlast : (op.moment i op.turns).1 = .ended (.error e) := by
    obtain ⟨k, hk⟩ := Nat.exists_eq_add_of_le' hn
    have hsplit : op.moment i op.turns =
        turn^[k] ((op.moment i (n + 1)).1, (op.moment i (n + 1)).2) := by
      rw [hk, moment, Function.iterate_add_apply]
      rfl
    rw [hsplit, ended, turns_ended]
  have hsettled {result : Except RegionError Mapping}
      (h : Stage.settled op.tag result = .ended (.error e)) :
      ∃ e, result.map some = .error e := by
    cases result with
    | error e' => exact ⟨e', rfl⟩
    | ok m =>
      simp only [Stage.settled] at h
      split at h <;> cases h
  cases op with
  | create tag size =>
    exact hsettled ((congrArg Prod.fst (i.turns_create tag size)).symm.trans hlast)
  | openOrCreate tag size =>
    exact hsettled ((congrArg Prod.fst (i.turns_openOrCreate tag size)).symm.trans hlast)
  | open? tag size =>
    simp only [stage, turns, Stage.ahead] at hahead hn
    omega
  | cleanup tag =>
    simp only [stage, turns, Stage.ahead] at hahead hn
    omega
  | drop tag m =>
    obtain rfl | rfl : n = 0 ∨ n = 1 := by
      simp only [turns] at hn
      omega
    all_goals
      by_cases owner : m.isOwner = true
      all_goals simp [moment, stage, owner, turn, Image.step] at linked

/-- An operation that comes upon an owner is the drop of this owner. -/
theorem drop_of_owning {tag : String} {m : Mapping} (hn : n < op.turns)
    (h : (op.moment i n).1 = .owning tag m) :
    op = .drop tag m ∧ m.isOwner = true ∧ (op.moment i n).2 = i := by
  have hahead := ahead_moment op i n
  rw [h] at hahead
  cases op with
  | drop t m' =>
    obtain rfl | rfl : n = 0 ∨ n = 1 := by
      simp only [turns] at hn
      omega
    all_goals
      by_cases owner : m'.isOwner = true
      all_goals simp [moment, stage, owner, turn, Image.step] at h
    obtain ⟨rfl, rfl⟩ := h
    exact ⟨rfl, owner, rfl⟩
  | _ =>
    simp only [stage, turns, Stage.ahead] at hahead hn
    omega

/-- An atomic step of an operation, taken after `n` others, has a name no longer stand for what it
stood for. -/
structure Removes (op : Operation) (i : Image) (n : Nat) (file : FileName) (node : Node) :
    Prop where
  possible : n < op.turns
  found : (op.moment i n).2.directory.find? file = some node
  gone : (op.moment i (n + 1)).2.directory.find? file ≠ some node

/-- Why an operation may take a name away: it is dropping the owner; it has itself linked the name,
and fails; or the region is stale at that moment. -/
inductive Justified (op : Operation) (i : Image) (n : Nat) : FileName → Node → Prop
  | dropped {tag : String} {m : Mapping} (drop : op = .drop tag m) (owner : m.isOwner = true) :
      Justified op i n (fileOf m.name) (.file m.object)
  | failed {file : FileName} {node : Node} {k : Nat} (earlier : k < n)
      (free : (op.moment i k).2.directory.find? file = none)
      (error : ∃ e, (op.answer i).1 = .error e) : Justified op i n file node
  | stale {node : Node} {name : String} {pid : UInt32}
      (listed : (name, pid) ∈ (op.moment i n).2.list op.tag)
      (stale : (op.moment i n).2.isStale name pid = true) : Justified op i n (fileOf name) node

/-- Whatever an operation takes away, it has a reason for. -/
theorem justified (h : op.Removes i n file node)
    (held : ∀ tag m, op = .drop tag m → m.isOwner = true →
      i.directory.find? (fileOf m.name) = some (.file m.object)) : op.Justified i n file node := by
  rcases (move_moment op i n).removes h.found h.gone with
    ⟨tag, name, pid, hlock, hlisted, rfl, hstale⟩ | ⟨tag, size, object, e, hlinked, hended, rfl⟩ |
    ⟨tag, m, howning, rfl⟩
  · rw [lock_moment hlock] at hlisted
    exact .stale hlisted hstale
  · cases n with
    | zero =>
      cases op with
      | drop t m => by_cases owner : m.isOwner <;> simp [moment, stage, owner] at hlinked
      | _ => cases hlinked
    | succ k =>
      have hmove := move_moment op i k
      rw [hlinked] at hmove
      exact .failed (Nat.lt_succ_self k) hmove.free_of_linked
        (failed_of_linked h.possible hlinked hended)
  · obtain ⟨rfl, owner, hsame⟩ := drop_of_owning h.possible howning
    have hfound := h.found
    rw [hsame, held tag m rfl owner] at hfound
    cases hfound
    exact .dropped rfl owner

end Holdings.Operation

/-! ## Whole runs -/

namespace Holdings

variable {h h₀ : Holdings} {past : List (Holdings × Operation)}

/-- **What is owned is what is held, and nothing else is taken away.** After every step of a run the
owned names are those of the live owners, each once; they stand for the objects of these owners, of
which no tag has two. Whatever name an operation of the run has taken away, in any of its atomic
steps, it had a reason for. -/
theorem Run.accounted (run : Run h₀ past h) (fresh : h₀.IsFresh) :
    h.image.owned.Nodup ∧
    h.image.owned = h.owners.map (·.2.name) ∧
    (∀ x ∈ h.owners, x.2.name = regionName x.1 h.image.self ∧
      h.image.directory.find? (fileOf x.2.name) = some (.file x.2.object)) ∧
    (h.owners.map (·.1)).Nodup ∧
    ∀ x ∈ past, (x.2.moment x.1.image x.2.turns).2 = (x.1.perform x.2).image ∧
      ∀ n file node, x.2.Removes x.1.image n file node → x.2.Justified x.1.image n file node := by
  obtain ⟨s, hpast⟩ := run.sound fresh
  refine ⟨s.nodup, s.owned, fun x hx => ⟨s.named x hx, s.linked x hx⟩, s.sole, fun x hx => ?_⟩
  obtain ⟨hsound, hpossible⟩ := hpast x hx
  refine ⟨x.2.moment_turns x.1.image, fun n file node hremoves => Operation.justified hremoves ?_⟩
  intro tag m hdrop owner
  exact hsound.linked (tag, m) (List.mem_filter.mpr ⟨hpossible tag m hdrop, owner⟩)

/-- A process that finds what earlier ones with its own id and with another one have left. -/
def heir : Holdings where
  image :=
    { self := 7
      isAlive := fun _ => false
      directory :=
        { entries := [(.text "t_7", .file 0), (.text "t_8", .file 1)]
          nextObject := 2 } }

/-- The region that it makes. -/
def heirloom : Mapping := { object := 3, size := 64, name := "/t_7", isOwner := true }

/-- The region is made. -/
def settled : Holdings := heir.perform (.create "t" 64)

/-- Another process starts and makes a region of its own. -/
def joined : Holdings where
  image :=
    { settled.image with
      isAlive := fun pid => pid = 9
      directory := (settled.image.directory.linkFile (.text "t_9") 64).2 }
  live := settled.live

/-- An empty region cannot be made, and the first one is dropped. -/
def cleared : Holdings := (joined.perform (.create "u" 0)).perform (.drop "t" heirloom)

theorem run_cleared : Run heir [(heir, .create "t" 64), (joined, .create "u" 0),
    (joined.perform (.create "u" 0), .drop "t" heirloom)] cleared := by
  have hmade : Run heir [(heir, .create "t" 64)] settled := Run.start.perform _ nofun
  have hjoined : Run heir [(heir, .create "t" 64)] joined := by
    refine hmade.others _ _ fun x hx => ?_
    obtain rfl : x = ("t", heirloom) := List.mem_singleton.mp hx
    rfl
  have hrefused := hjoined.perform (.create "u" 0) nofun
  refine hrefused.perform (.drop "t" heirloom) fun tag m hdrop => ?_
  cases hdrop
  exact List.mem_singleton_self _

/-- The leftover of the other process goes as stale, the empty region as a failure, and the region
at its drop. -/
theorem accounted_cleared : cleared.image.owned = [] ∧
    (Operation.create "t" 64).Justified heir.image 1 (.text "t_8") (.file 1) ∧
    (Operation.create "u" 0).Justified joined.image 3 (.text "u_7") (.file 6) ∧
    (Operation.drop "t" heirloom).Justified (joined.perform (.create "u" 0)).image 0 (.text "t_7")
      (.file 3) := by
  obtain ⟨-, howned, -, -, hall⟩ := run_cleared.accounted ⟨rfl, rfl⟩
  refine ⟨howned, (hall _ (.head _)).2 _ _ _ ⟨by decide, rfl, nofun⟩,
    (hall _ (.tail _ (.head _))).2 _ _ _ ⟨by decide, rfl, nofun⟩,
    (hall _ (.tail _ (.tail _ (.head _)))).2 _ _ _ ⟨by decide, rfl, nofun⟩⟩

end Holdings

end RunOnce.Region
