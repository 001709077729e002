import RunOnce.Proofs.Region.Ownership
import Mathlib.Data.List.Nodup

/-!
# What a process holds

**Operations** (`Holdings.Operation`). A process creates regions, opens them, opens or creates them,
cleans up, and drops the mappings that it has, each of these as one step and for any tags and sizes.
In between, others change the directory, and processes start and end; only the names that an owner
here holds are left alone (`Holdings.Run`).

**Theorem (`Holdings.Run.sound`).** At all times of a run the names that are owned are those of the
owners not yet dropped, each once, and every one of them stands for the object of its owner
(`Holdings.Sound`). So no tag has two owners (`Holdings.Sound.sole`).

For this invariant the operations other than drops are all alike (`Outcome`): they spare what is
owned, and hand out at most one new owner.
-/

namespace RunOnce.Region

/-- One image, and the mappings that are not dropped, each with its tag, in the order in which they
were handed out. -/
structure Holdings where
  image : Image
  live : List (String × Mapping) := []

namespace Holdings

/-- What a process does. A mapping is dropped together with its tag. -/
inductive Operation
  | create (tag : String) (size : Nat)
  | openOrCreate (tag : String) (size : Nat)
  | open? (tag : String) (size : Nat)
  | cleanup (tag : String)
  | drop (tag : String) (m : Mapping)

namespace Operation

def tag : Operation → String
  | .create tag _ | .openOrCreate tag _ | .open? tag _ | .cleanup tag | .drop tag _ => tag

/-- What an operation hands out, and the image afterwards. -/
def answer (i : Image) : Operation → Except RegionError (Option Mapping) × Image
  | .create tag size => ((i.create tag size).1.map some, (i.create tag size).2.1)
  | .openOrCreate tag size => ((i.openOrCreate tag size).1.map some, (i.openOrCreate tag size).2.1)
  | .open? tag size => (.ok (i.open? tag size).1, (i.open? tag size).2.1)
  | .cleanup tag => (.ok none, (i.cleanup tag).2.1)
  | .drop _ m => (.ok none, (i.release m).1)

/-- The mappings that an operation leaves. -/
def kept (live : List (String × Mapping)) : Operation → List (String × Mapping)
  | .drop tag m => live.erase (tag, m)
  | _ => live

end Operation

/-- What has been handed out for a tag. -/
def gained (tag : String) : Except RegionError (Option Mapping) → List (String × Mapping)
  | .ok (some m) => [(tag, m)]
  | .ok none | .error _ => []

theorem mem_gained {tag : String} {result : Except RegionError (Option Mapping)}
    {x : String × Mapping} (hx : x ∈ gained tag result) : x.1 = tag ∧ result = .ok (some x.2) := by
  cases result with
  | error e => cases hx
  | ok found =>
    cases found with
    | none => cases hx
    | some m =>
      obtain rfl := List.mem_singleton.mp hx
      exact ⟨rfl, rfl⟩

/-- The owners among the live mappings. -/
def owners (h : Holdings) : List (String × Mapping) := h.live.filter (·.2.isOwner)

/-- The holdings after an operation. -/
def perform (h : Holdings) (op : Operation) : Holdings where
  image := (op.answer h.image).2
  live := op.kept h.live ++ gained op.tag (op.answer h.image).1

/-- Nothing is mapped or owned yet. -/
structure IsFresh (h : Holdings) : Prop where
  live : h.live = []
  owned : h.image.owned = []

/-- The operations between two holdings, each with the holdings on which it is performed. Others may
act at any time. -/
inductive Run (h₀ : Holdings) : List (Holdings × Operation) → Holdings → Prop
  | start : Run h₀ [] h₀
  | perform {past : List (Holdings × Operation)} {h : Holdings} (run : Run h₀ past h)
      (op : Operation) (possible : ∀ tag m, op = .drop tag m → (tag, m) ∈ h.live) :
      Run h₀ (past ++ [(h, op)]) (h.perform op)
  | others {past : List (Holdings × Operation)} {h : Holdings} (run : Run h₀ past h)
      (isAlive : UInt32 → Bool) (directory : Directory)
      (spared : ∀ x ∈ h.owners, directory.find? (fileOf x.2.name) =
        h.image.directory.find? (fileOf x.2.name)) :
      Run h₀ past { h with image := { h.image with isAlive, directory } }

end Holdings

/-! ## Sparing what is owned -/

namespace Image

variable {i locked i' i'' : Image} {tag : String}

/-- The regions that are owned in one image are still there in the other. -/
structure Spares (i i' : Image) : Prop where
  self : i'.self = i.self
  linked : ∀ tag node, regionName tag i.self ∈ i.owned →
    i.directory.find? (fileOf (regionName tag i.self)) = some node →
    i'.directory.find? (fileOf (regionName tag i.self)) = some node

theorem Spares.refl (i : Image) : i.Spares i := ⟨rfl, fun _ _ _ found => found⟩

theorem Spares.trans (h : i.Spares i') (h' : i'.Spares i'') (owned : i'.owned = i.owned) :
    i.Spares i'' where
  self := h'.self.trans h.self
  linked tag node hmem found := by
    have hfound := h.linked tag node hmem found
    rw [← h.self] at hmem hfound ⊢
    exact h'.linked tag node (by rwa [owned]) hfound

theorem lock_owned (h : i.lock tag = .ok locked) : locked.owned = i.owned := by
  rcases lock_cases h with rfl | ⟨_, -, -, rfl⟩ <;> rfl

theorem lock_spares (h : i.lock tag = .ok locked) : i.Spares locked where
  self := by rcases lock_cases h with rfl | ⟨_, -, -, rfl⟩ <;> rfl
  linked _ _ _ found := find?_lock h found

theorem clean_spares (i : Image) (tag : String) : i.Spares (i.clean tag) where
  self := clean_self i tag
  linked _ _ owned found := (find?_clean (.inr owned)).trans found

/-- A new name leaves the others, and so does taking it away again. -/
theorem link_spares (free : i.directory.find? (fileOf (regionName tag i.self)) = none)
    (same : i'.self = i.self)
    (other : ∀ file, fileOf (regionName tag i.self) ≠ file →
      i'.directory.find? file = (i.link (regionName tag i.self)).2.directory.find? file) :
    i.Spares i' where
  self := same
  linked tag' node _ found := by
    have hne : fileOf (regionName tag i.self) ≠ fileOf (regionName tag' i.self) := by
      intro heq
      rw [← heq, free] at found
      cases found
    rw [other _ hne, find?_link, if_neg hne, found]

end Image

/-! ## What operations hand out -/

/-- What an operation other than a drop does: it hands out no owner and leaves the names as they
are, or it hands out a new owner and writes its name down. -/
inductive Outcome (i : Image) (tag : String) : Except RegionError (Option Mapping) → Image → Prop
  | same {result : Except RegionError (Option Mapping)} {i' : Image} (spares : i.Spares i')
      (owned : i'.owned = i.owned) (guest : ∀ m, result = .ok (some m) → m.isOwner = false) :
      Outcome i tag result i'
  | made {m : Mapping} {i' : Image} (spares : i.Spares i') (owner : m.isOwner = true)
      (named : m.name = regionName tag i.self)
      (free : m.name ∈ i.owned → i.directory.find? (fileOf m.name) = none)
      (linked : i'.directory.find? (fileOf m.name) = some (.file m.object))
      (owned : i'.owned = i.owned ++ [m.name]) : Outcome i tag (.ok (some m)) i'

namespace Outcome

variable {i j i' : Image} {tag : String} {result : Except RegionError (Option Mapping)}

/-- What an operation does after steps that spare what is owned. -/
theorem after (outcome : Outcome j tag result i') (spares : i.Spares j)
    (owned : j.owned = i.owned) : Outcome i tag result i' := by
  cases outcome with
  | same spares' owned' guest => exact .same (spares.trans spares' owned) (owned'.trans owned) guest
  | @made m _ spares' owner named free linked owned' =>
    rw [spares.self] at named
    refine .made (spares.trans spares' owned) owner named (fun hmem => ?_) linked
      (by rw [owned', owned])
    have hfree := free (by rwa [owned])
    cases hfind : i.directory.find? (fileOf m.name) with
    | none => rfl
    | some node =>
      rw [named] at hmem hfind hfree
      rw [spares.linked tag node hmem hfind] at hfree
      cases hfree

end Outcome

namespace Image

variable {i locked : Image} {tag : String} {size : Nat}

theorem self_unlink (i : Image) (name : String) : (i.unlink name).2.self = i.self := rfl

theorem owned_unlink (i : Image) (name : String) : (i.unlink name).2.owned = i.owned := rfl

/-- A new name that is taken away again leaves everything as it was. -/
theorem undo_outcome (e : RegionError)
    (free : i.directory.find? (fileOf (regionName tag i.self)) = none) :
    Outcome i tag (.error e)
      ((i.link (regionName tag i.self)).2.unlink (regionName tag i.self)).2 := by
  refine .same (link_spares free (self_unlink ..) fun file hne => ?_) (owned_unlink ..) nofun
  rw [find?_unlink, if_neg fun h => hne h.1]

/-- A new name that stays is the one of a new owner. -/
theorem link_outcome (size : Nat)
    (free : i.directory.find? (fileOf (regionName tag i.self)) = none) :
    Outcome i tag
      (.ok (some { object := (i.link (regionName tag i.self)).1, size
                   name := regionName tag i.self, isOwner := true }))
      ({ (i.link (regionName tag i.self)).2 with
        directory := (i.link (regionName tag i.self)).2.directory.resize
          (i.link (regionName tag i.self)).1 size }.own (regionName tag i.self)) := by
  refine .made (link_spares free rfl fun _ _ => rfl) rfl rfl (fun _ => free) ?_ rfl
  exact (find?_link ..).trans (if_pos rfl)

/-- How making a region ends, and what becomes of the image: it is refused, or the name is taken, or
the new name is taken away again, or it stands for a new object. -/
inductive Makes (i : Image) (tag : String) (size : Nat) : Except RegionError Mapping → Image → Prop
  | refused (e : RegionError) : Makes i tag size (.error e) i
  | taken (e : RegionError) : Makes i tag size (.error e) (i.clean tag)
  | undone (e : RegionError)
      (free : (i.clean tag).directory.find? (fileOf (regionName tag i.self)) = none) :
      Makes i tag size (.error e)
        (((i.clean tag).link (regionName tag i.self)).2.unlink (regionName tag i.self)).2
  | made {object : Nat} {linked : Image}
      (link : (i.clean tag).link (regionName tag i.self) = (object, linked))
      (free : (i.clean tag).directory.find? (fileOf (regionName tag i.self)) = none) :
      Makes i tag size
        (.ok { object, size, name := regionName tag i.self, isOwner := true })
        ({ linked with directory := linked.directory.resize object size }.own
          (regionName tag i.self))

theorem make_makes (i : Image) (tag : String) (size : Nat) :
    i.Makes tag size (i.make tag size).1 (i.make tag size).2.1 := by
  have hresult := congrArg Prod.fst (make_eq i tag size)
  have himage := congrArg Prod.snd (make_eq i tag size)
  dsimp only at hresult himage
  rw [hresult, himage]
  cases i.nameFault? tag with
  | some e => exact .refused e
  | none =>
    dsimp only
    cases hfree : (i.clean tag).directory.find? (fileOf (regionName tag i.self)) with
    | some node => exact .taken _
    | none =>
      cases hlink : (i.clean tag).link (regionName tag i.self) with
      | mk object linked =>
        dsimp only
        cases hequip : linked.equip (regionName tag i.self) object size with
        | mk result image =>
          cases result with
          | error e =>
            obtain rfl := equip_error hequip
            have hundone : i.Makes tag size (.error e) _ := .undone e hfree
            rwa [hlink] at hundone
          | ok m =>
            obtain ⟨rfl, rfl⟩ := equip_ok hequip
            exact .made hlink hfree

/-- Making a region either fails or hands out a new owner. -/
theorem make_outcome (i : Image) (tag : String) (size : Nat) :
    Outcome i tag ((i.make tag size).1.map some) (i.make tag size).2.1 := by
  have hspares := clean_spares i tag
  have howned := clean_owned i tag
  have hself := clean_self i tag
  have makes := make_makes i tag size
  generalize (i.make tag size).1 = result at makes ⊢
  generalize (i.make tag size).2.1 = i' at makes ⊢
  cases makes with
  | refused e => exact .same (.refl i) rfl nofun
  | taken e => exact .same hspares howned nofun
  | undone e free =>
    rw [← hself] at free ⊢
    exact (undo_outcome e free).after hspares howned
  | made link free =>
    rw [← hself] at link free ⊢
    have houtcome := (link_outcome size free).after hspares howned
    rwa [link] at houtcome

theorem create_outcome (i : Image) (tag : String) (size : Nat) :
    Outcome i tag ((i.create tag size).1.map some) (i.create tag size).2.1 := by
  unfold create
  cases hlock : i.lock tag with
  | error e => exact .same (.refl i) rfl nofun
  | ok locked => exact (make_outcome locked tag size).after (lock_spares hlock) (lock_owned hlock)

/-- What is found is mapped, not owned. -/
theorem isOwner_seek {m : Mapping} (h : (i.seek tag size).1 = .ok (some m)) : m.isOwner = false :=
  isOwner_mapFirst h

theorem openOrCreate_outcome (i : Image) (tag : String) (size : Nat) :
    Outcome i tag ((i.openOrCreate tag size).1.map some) (i.openOrCreate tag size).2.1 := by
  unfold openOrCreate
  cases hlock : i.lock tag with
  | error e => exact .same (.refl i) rfl nofun
  | ok locked =>
    have hspares := lock_spares hlock
    have howned := lock_owned hlock
    dsimp only
    cases hseek : locked.seek tag size with
    | mk result records =>
      match result with
      | .error e => exact .same hspares howned nofun
      | .ok none => exact (make_outcome locked tag size).after hspares howned
      | .ok (some m) =>
        refine .same hspares howned fun m' hm => ?_
        cases hm
        exact isOwner_seek (congrArg Prod.fst hseek)

theorem open?_outcome (i : Image) (tag : String) (size : Nat) :
    Outcome i tag (.ok (i.open? tag size).1) (i.open? tag size).2.1 := by
  unfold open?
  cases hlock : i.lock tag with
  | error e => exact .same (.refl i) rfl nofun
  | ok locked =>
    have hspares := lock_spares hlock
    have howned := lock_owned hlock
    dsimp only
    cases hseek : locked.seek tag size with
    | mk result records =>
      cases result with
      | error e => exact .same hspares howned nofun
      | ok found =>
        refine .same hspares howned fun m hm => ?_
        obtain rfl : found = some m := Except.ok.inj hm
        exact isOwner_seek (congrArg Prod.fst hseek)

theorem cleanup_outcome (i : Image) (tag : String) :
    Outcome i tag (.ok none) (i.cleanup tag).2.1 := by
  unfold cleanup
  cases hlock : i.lock tag with
  | error e => exact .same (.refl i) rfl nofun
  | ok locked =>
    have hspares := lock_spares hlock
    exact .same (hspares.trans (clean_spares locked tag) (lock_owned hlock))
      ((clean_owned locked tag).trans (lock_owned hlock)) nofun

end Image

theorem Holdings.Operation.outcome (i : Image) (op : Operation) (h : ∀ tag m, op ≠ .drop tag m) :
    Outcome i op.tag (op.answer i).1 (op.answer i).2 := by
  cases op with
  | create tag size => exact i.create_outcome tag size
  | openOrCreate tag size => exact i.openOrCreate_outcome tag size
  | open? tag size => exact i.open?_outcome tag size
  | cleanup tag => exact i.cleanup_outcome tag
  | drop tag m => exact absurd rfl (h tag m)

/-! ## What is owned -/

namespace Holdings

variable {h h₀ : Holdings} {tag : String} {m : Mapping}

/-- The names that are owned are those of the owners, and stand for their objects. -/
structure Sound (h : Holdings) : Prop where
  named : ∀ x ∈ h.owners, x.2.name = regionName x.1 h.image.self
  linked : ∀ x ∈ h.owners,
    h.image.directory.find? (fileOf x.2.name) = some (.file x.2.object)
  owned : h.image.owned = h.owners.map (·.2.name)
  nodup : h.image.owned.Nodup

namespace Sound

theorem name_mem (s : h.Sound) {x : String × Mapping} (hx : x ∈ h.owners) :
    x.2.name ∈ h.image.owned := by
  rw [s.owned]
  exact List.mem_map_of_mem hx

/-- No tag has two owners: they would have one name. -/
theorem sole (s : h.Sound) : (h.owners.map (·.1)).Nodup := by
  apply List.Nodup.of_map (regionName · h.image.self)
  rw [List.map_map]
  have hnames : h.owners.map (·.2.name) = h.owners.map ((regionName · h.image.self) ∘ (·.1)) :=
    List.map_congr_left fun x hx => s.named x hx
  rw [← hnames, ← s.owned]
  exact s.nodup

/-- An image in which the owned regions are still there does for the same owners. -/
theorem of_spares {h' : Holdings} (s : h.Sound) (spares : h.image.Spares h'.image)
    (owned : h'.image.owned = h.image.owned) (owners : h'.owners = h.owners) : h'.Sound where
  named x hx := by
    rw [owners] at hx
    rw [spares.self]
    exact s.named x hx
  linked x hx := by
    rw [owners] at hx
    have hmem := s.name_mem hx
    have hfound := s.linked x hx
    rw [s.named x hx] at hmem hfound ⊢
    exact spares.linked x.1 _ hmem hfound
  owned := by rw [owned, owners, s.owned]
  nodup := owned ▸ s.nodup

/-- A new owner is one more. -/
theorem of_made {h' : Holdings} (s : h.Sound) (spares : h.image.Spares h'.image)
    (named : m.name = regionName tag h.image.self)
    (free : m.name ∈ h.image.owned → h.image.directory.find? (fileOf m.name) = none)
    (linked : h'.image.directory.find? (fileOf m.name) = some (.file m.object))
    (owned : h'.image.owned = h.image.owned ++ [m.name])
    (owners : h'.owners = h.owners ++ [(tag, m)]) : h'.Sound where
  named x hx := by
    rw [owners] at hx
    rw [spares.self]
    rcases List.mem_append.mp hx with hold | hnew
    · exact s.named x hold
    · obtain rfl := List.mem_singleton.mp hnew
      exact named
  linked x hx := by
    rw [owners] at hx
    rcases List.mem_append.mp hx with hold | hnew
    · have hmem := s.name_mem hold
      have hfound := s.linked x hold
      rw [s.named x hold] at hmem hfound ⊢
      exact spares.linked x.1 _ hmem hfound
    · obtain rfl := List.mem_singleton.mp hnew
      exact linked
  owned := by rw [owned, owners, List.map_append, s.owned, List.map_singleton]
  nodup := by
    rw [owned]
    refine List.nodup_append.mpr ⟨s.nodup, List.nodup_singleton _, fun a ha b hb => ?_⟩
    rintro rfl
    obtain rfl := List.mem_singleton.mp hb
    -- An owned name stands for something, so nothing new can be linked under it.
    have hfree := free ha
    rw [s.owned] at ha
    obtain ⟨x, hx, hname⟩ := List.mem_map.mp ha
    rw [← hname, s.linked x hx] at hfree
    cases hfree

/-- The owners without one of them are those of other names. -/
theorem erase_owner (s : h.Sound) {x : String × Mapping} (hx : x ∈ h.owners) :
    (h.owners.erase x).map (·.2.name) =
      h.image.owned.filter fun name => !decide (name = x.2.name) := by
  have hnodup : (h.owners.map (·.2.name)).Nodup := s.owned ▸ s.nodup
  rw [hnodup.of_map.erase_eq_filter, s.owned, List.filter_map]
  refine congrArg _ (List.filter_congr fun y hy => ?_)
  have hinj : y = x ↔ y.2.name = x.2.name :=
    ⟨fun heq => congrArg (·.2.name) heq, fun heq => List.inj_on_of_nodup_map hnodup hy hx heq⟩
  simp only [Function.comp_apply, bne, beq_eq_decide, hinj]

/-- What is owned after an owner is dropped. -/
theorem drop_owner (s : h.Sound) (hx : (tag, m) ∈ h.live) (owner : m.isOwner = true) :
    (h.perform (.drop tag m)).Sound := by
  have hmem : (tag, m) ∈ h.owners := List.mem_filter.mpr ⟨hx, owner⟩
  have howners : (h.perform (.drop tag m)).owners = h.owners.erase (tag, m) := by
    simp [owners, perform, Operation.kept, Operation.answer, gained, List.erase_filter]
  have himage : (h.perform (.drop tag m)).image = (h.image.unlink m.name).2.disown m.name := by
    simp [perform, Operation.answer, Image.release, owner]
  have herase := s.erase_owner hmem
  have hleft {x : String × Mapping} (hx : x ∈ h.owners.erase (tag, m)) :
      x ∈ h.owners ∧ x.2.name ≠ m.name := by
    refine ⟨List.mem_of_mem_erase hx, ?_⟩
    have hname : x.2.name ∈ (h.owners.erase (tag, m)).map (·.2.name) := List.mem_map_of_mem hx
    rw [herase] at hname
    simpa using (List.mem_filter.mp hname).2
  exact
    { named := fun x hx => by
        rw [howners] at hx
        rw [himage]
        exact s.named x (hleft hx).1
      linked := fun x hx => by
        rw [howners] at hx
        obtain ⟨hx, hne⟩ := hleft hx
        rw [himage]
        show (h.image.unlink m.name).2.directory.find? (fileOf x.2.name) = _
        rw [Image.find?_unlink, if_neg, s.linked x hx]
        rintro ⟨hfile, -⟩
        rw [s.named x hx, s.named _ hmem, Image.fileOf_regionName_inj] at hfile
        exact hne (by rw [s.named x hx, s.named _ hmem, hfile])
      owned := by
        rw [howners, herase, himage]
        rfl
      nodup := by
        rw [himage]
        exact s.nodup.filter _ }

/-- Every operation keeps the names in order. -/
theorem perform (s : h.Sound) (op : Operation)
    (possible : ∀ tag m, op = .drop tag m → (tag, m) ∈ h.live) : (h.perform op).Sound := by
  by_cases hdrop : ∃ tag m, op = .drop tag m
  · obtain ⟨tag, m, rfl⟩ := hdrop
    by_cases owner : m.isOwner = true
    · exact s.drop_owner (possible tag m rfl) owner
    · refine s.of_spares ?_ ?_ ?_
      · simp [Holdings.perform, Operation.answer, Image.release, owner, Image.Spares.refl]
      · simp [Holdings.perform, Operation.answer, Image.release, owner]
      · simp [owners, Holdings.perform, Operation.kept, Operation.answer, gained,
          ← List.erase_filter, List.erase_of_not_mem, owner]
  · have houtcome := op.outcome h.image fun tag m heq => hdrop ⟨tag, m, heq⟩
    have hlive : (h.perform op).live = h.live ++ gained op.tag (op.answer h.image).1 := by
      cases op with
      | drop tag m => exact absurd ⟨tag, m, rfl⟩ hdrop
      | _ => rfl
    have howners : (h.perform op).owners =
        h.owners ++ (gained op.tag (op.answer h.image).1).filter (·.2.isOwner) := by
      rw [owners, hlive, List.filter_append, ← owners]
    have himage : (h.perform op).image = (op.answer h.image).2 := rfl
    generalize (op.answer h.image).1 = result at houtcome howners
    generalize (op.answer h.image).2 = i' at houtcome himage
    cases houtcome with
    | same spares owned guest =>
      rw [← himage] at spares owned
      refine s.of_spares spares owned (howners.trans ?_)
      rw [List.append_right_eq_self, List.filter_eq_nil_iff]
      intro x hx
      simp [guest x.2 (mem_gained hx).2]
    | made spares owner named free linked owned =>
      rw [← himage] at spares linked owned
      refine s.of_made spares named free linked owned (howners.trans ?_)
      simp [gained, owner]

end Sound

theorem IsFresh.sound (fresh : h.IsFresh) : h.Sound := by
  have howners : h.owners = [] := by rw [owners, fresh.live, List.filter_nil]
  constructor
  · simp [howners]
  · simp [howners]
  · simp [howners, fresh.owned]
  · simp [fresh.owned]

/-- What others do leaves the owners alone. -/
theorem Sound.others (s : h.Sound) (isAlive : UInt32 → Bool) (directory : Directory)
    (spared : ∀ x ∈ h.owners, directory.find? (fileOf x.2.name) =
      h.image.directory.find? (fileOf x.2.name)) :
    Sound { h with image := { h.image with isAlive, directory } } where
  named := s.named
  linked x hx := (spared x hx).trans (s.linked x hx)
  owned := s.owned
  nodup := s.nodup

/-- In a run the names are in order at all times. -/
theorem Run.sound {past : List (Holdings × Operation)} (run : Run h₀ past h) (fresh : h₀.IsFresh) :
    h.Sound ∧ ∀ x ∈ past, x.1.Sound ∧ ∀ tag m, x.2 = .drop tag m → (tag, m) ∈ x.1.live := by
  induction run with
  | start => exact ⟨fresh.sound, nofun⟩
  | perform run op possible ih =>
    refine ⟨ih.1.perform op possible, fun x hx => ?_⟩
    rcases List.mem_append.mp hx with hold | hnew
    · exact ih.2 x hold
    · obtain rfl := List.mem_singleton.mp hnew
      exact ⟨ih.1, possible⟩
  | others run isAlive directory spared ih => exact ⟨ih.1.others isAlive directory spared, ih.2⟩

end Holdings

end RunOnce.Region
