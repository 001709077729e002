import Mathlib.Data.Nat.Digits.Defs
import RunOnce.Proofs.Region.Join
import RunOnce.Proofs.Region.Legal
import RunOnce.Proofs.Settings.Reading
import RunOnce.Target

/-!
# Settings from an environment, and whether a process can attach with them

**Attachable settings** (`Config.Attachable`). There is a slot, the tag may name a region, and the
names of its region, with a creator's id of one digit and with the own one, can name objects.

A tag is looked at in three places. The environment is refused an empty tag, a slash and a NUL.
The check before the lock and the one before a creation look for slashes and at the length of a
name, which depends on the creator's id. The first check does not look at the length.

**Theorem (`attachable_iff_short`).** Settings that come from an environment always have a slot and
a tag, since other values are ignored. They are attachable if and only if the name of the region is
short enough, which the default is for every creator. If it is too long, a context over a slot table
is refused with an invalid name as soon as the lock can be taken and there is no live region.
-/

namespace RunOnce

open Region Text

namespace Config

/-- Settings that are not refused for a name when a process attaches with them. -/
structure Attachable (c : Config) (pid : UInt32) : Prop where
  slots : 0 < c.slotCount
  isTag : isTag c.regionTag = true
  zero : checkName (regionName c.regionTag 0) = .ok ()
  own : checkName (regionName c.regionTag pid) = .ok ()

/-! ## What is taken from an environment -/

theorem fst_readTag (raw : Option String) : (readTag raw).1 = raw.filter isTag := by
  cases raw with
  | none => rfl
  | some tag => by_cases h : isTag tag = true <;> simp [readTag, Option.filter, h]

theorem fst_readNumber (variableName : String) (raw : Option String) :
    (readNumber variableName raw).1 =
      raw.bind fun value => (parseUInt32 (trimBlank value.toList)).toOption := by
  cases raw with
  | none => rfl
  | some value =>
    cases h : parseUInt32 (trimBlank value.toList) <;> simp [readNumber, h, Except.toOption]

theorem fst_positive (variableName : String) (read : Option UInt32 × List Record) :
    (positive variableName read).1 = read.1.filter (· ≠ 0) := by
  obtain ⟨_ | n, records⟩ := read
  · rfl
  · by_cases h : n = 0 <;> simp [positive, Option.filter, h]

theorem regionTag_ofEnvironment (env : Environment) : (ofEnvironment env).1.regionTag =
    ((Environment.text? env.regionTag).filter isTag).getD "once_latch" := by
  rw [← fst_readTag]
  rfl

theorem slotCount_ofEnvironment (env : Environment) : (ofEnvironment env).1.slotCount =
    (((Environment.text? env.slotCount).bind fun value =>
      (parseUInt32 (trimBlank value.toList)).toOption).filter (· ≠ 0)).getD 4096 := by
  rw [← fst_readNumber Environment.slotsVariable, ← fst_positive Environment.slotsVariable]
  rfl

/-- The tag is that of the environment, or it is the default, because there is none or it is no
tag. -/
theorem regionTag_cases (env : Environment) :
    (∃ tag, Environment.text? env.regionTag = some tag ∧ isTag tag = true ∧
      (ofEnvironment env).1.regionTag = tag) ∨
    ((∀ tag, Environment.text? env.regionTag = some tag → isTag tag = false) ∧
      (ofEnvironment env).1.regionTag = "once_latch") := by
  rw [regionTag_ofEnvironment]
  cases htext : Environment.text? env.regionTag with
  | none => exact .inr ⟨nofun, rfl⟩
  | some tag =>
    by_cases h : isTag tag = true
    · exact .inl ⟨tag, rfl, h, by simp [Option.filter, h]⟩
    · refine .inr ⟨fun tag' htag => ?_, by simp [Option.filter, h]⟩
      cases htag
      exact Bool.eq_false_iff.mpr h

theorem isTag_regionTag (env : Environment) : isTag (ofEnvironment env).1.regionTag = true := by
  rcases regionTag_cases env with ⟨tag, -, htag, heq⟩ | ⟨-, heq⟩
  · rw [heq]
    exact htag
  · rw [heq]
    decide

theorem slotCount_pos (env : Environment) : 0 < (ofEnvironment env).1.slotCount := by
  rw [slotCount_ofEnvironment]
  cases h : ((Environment.text? env.slotCount).bind fun value =>
      (parseUInt32 (trimBlank value.toList)).toOption).filter (· ≠ 0) with
  | none => decide
  | some n =>
    have hn : n ≠ 0 := by simpa using (Option.filter_eq_some_iff.mp h).2
    exact UInt32.pos_iff_ne_zero.mpr hn

/-! ## Lengths of names -/

theorem utf8ByteSize_of_digits {cs : List Char} (digits : ∀ c ∈ cs, c.isDigit = true) :
    (String.ofList cs).utf8ByteSize = cs.length := by
  induction cs with
  | nil => rfl
  | cons c rest ih =>
    obtain ⟨hdigit, hdigits⟩ := List.forall_mem_cons.mp digits
    have hbyte : c.utf8Size = 1 := by
      rw [Char.utf8Size_eq_one_iff]
      simp only [Char.isDigit, Bool.and_eq_true, decide_eq_true_eq] at hdigit
      exact UInt32.le_trans hdigit.2 (by decide)
    have hsplit : String.ofList (c :: rest) = String.singleton c ++ String.ofList rest := by
      rw [String.singleton_eq_ofList, ← String.ofList_append]
      rfl
    rw [hsplit, String.utf8ByteSize_append, String.utf8ByteSize_singleton, hbyte, ih hdigits,
      List.length_cons, Nat.add_comm]

/-- A region's name has a byte for each digit of the creator's id. -/
theorem utf8ByteSize_regionName_eq (tag : String) (pid : UInt32) :
    (regionName tag pid).utf8ByteSize =
      tag.utf8ByteSize + 2 + (Nat.toDigits 10 pid.toNat).length := by
  rw [utf8ByteSize_regionName, ← utf8ByteSize_of_digits fun _ => isDigit_of_mem_toDigits]
  rfl

/-- The default tag is short enough for every creator. -/
theorem short_default (pid : UInt32) :
    (regionName "once_latch" pid).utf8ByteSize ≤ maxNameBytes := by
  have hdigits : (Nat.toDigits 10 pid.toNat).length ≤ 10 :=
    Nat.toDigits_length 10 _ 10 (by decide) (Nat.lt_trans pid.toNat_lt (by decide))
  have htag : "once_latch".utf8ByteSize = 10 := rfl
  rw [utf8ByteSize_regionName_eq, htag, maxNameBytes]
  omega

theorem slash_notMem_of_isTag {tag : String} (h : isTag tag = true) : '/' ∉ tag.toList :=
  (isTag_iff.mp h).2.1

/-- Settings with a slot and a tag are attachable if the name of the region is short enough. -/
theorem attachable_iff {c : Config} {pid : UInt32} (slots : 0 < c.slotCount)
    (htag : isTag c.regionTag = true) :
    c.Attachable pid ↔ (regionName c.regionTag pid).utf8ByteSize ≤ maxNameBytes := by
  have hslash := slash_notMem_of_isTag htag
  constructor
  · intro h
    exact (checkName_regionName hslash).mp h.own
  · intro hshort
    refine ⟨slots, htag, (checkName_regionName hslash).mpr ?_,
      (checkName_regionName hslash).mpr hshort⟩
    -- An id has at least the one digit of the id zero.
    have hpos : 0 < (Nat.toDigits 10 pid.toNat).length := List.length_pos_iff.mpr (by simp)
    rw [utf8ByteSize_regionName_eq] at hshort
    rw [utf8ByteSize_regionName_zero]
    omega

end Config

/-! ## What attaching reports -/

namespace Region.Image

variable {i locked : Image} {tag : String} {size : Nat}

theorem not_reported_equip (i : Image) (name : String) (object size : Nat) :
    ¬Reported (i.equip name object size).1 := by
  rintro ⟨text, h⟩
  unfold equip at h
  dsimp only at h
  split at h
  · cases h
  · split at h
    · cases h
    · cases h

/-- Under the lock a creation reports an invalid name if that of the region is too long. -/
theorem reported_make_iff (lockable : Lockable tag) (size : Nat) : Reported (i.make tag size).1 ↔
    maxNameBytes < (regionName tag i.self).utf8ByteSize := by
  have hmake := congrArg Prod.fst (make_eq i tag size)
  rw [nameFault?_eq lockable] at hmake
  by_cases hlong : maxNameBytes < (regionName tag i.self).utf8ByteSize
  · rw [if_pos hlong] at hmake
    exact iff_of_true ⟨_, hmake⟩ hlong
  · rw [if_neg hlong] at hmake
    refine iff_of_false (fun hreported => ?_) hlong
    dsimp only at hmake
    rw [hmake] at hreported
    cases hfind : (i.clean tag).directory.find? (fileOf (regionName tag i.self)) with
    | some node =>
      rw [hfind] at hreported
      obtain ⟨text, h⟩ := hreported
      cases h
    | none =>
      rw [hfind] at hreported
      cases hlink : (i.clean tag).link (regionName tag i.self) with
      | mk object linked =>
        have hequip := not_reported_equip linked (regionName tag i.self) object size
        simp only [hlink] at hreported
        cases hresult : linked.equip (regionName tag i.self) object size with
        | mk result image =>
          rw [hresult] at hequip hreported
          cases result with
          | error e => exact hequip hreported
          | ok m =>
            obtain ⟨text, h⟩ := hreported
            cases h

/-- An opening or creation whose lock is taken reports an invalid name if the scan does, or if there
is no live region and the name of the own one is too long. -/
theorem reported_openOrCreate_of_lock (taken : i.lock tag = .ok locked) (size : Nat) :
    Reported (i.openOrCreate tag size).1 ↔ Reported (locked.seek tag size).1 ∨
      ((locked.seek tag size).1 = .ok none ∧
        maxNameBytes < (regionName tag i.self).utf8ByteSize) := by
  have hself : locked.self = i.self := congrArg (·.self) (lock_eq taken)
  have hmake := reported_make_iff (i := locked) (lock_eq_ok_iff.mp taken).1 size
  rw [hself] at hmake
  simp only [openOrCreate, taken]
  cases hseek : locked.seek tag size with
  | mk result records =>
    rcases result with e | (_ | m)
    · simp [Reported]
    · simpa [Reported] using hmake
    · simp [Reported]

/-- Attaching with a tag reports an invalid name if the tag is too long for the lock, or if the
opening or creation under the lock does. -/
theorem reported_attach_iff {c : Config} (htag : Config.isTag c.regionTag = true) :
    Reported (SlotTable.attach i c).1 ↔ 252 < c.regionTag.utf8ByteSize ∨
      ∃ locked, i.lock c.regionTag = .ok locked ∧
        (Reported (locked.seek c.regionTag (regionSize c.slotCount)).1 ∨
          ((locked.seek c.regionTag (regionSize c.slotCount)).1 = .ok none ∧
            maxNameBytes < (regionName c.regionTag i.self).utf8ByteSize)) := by
  have hattach := congrArg Prod.fst (attach_eq i c)
  dsimp only at hattach
  rw [if_pos htag] at hattach
  have hopen : Reported (SlotTable.attach i c).1 ↔
      Reported (i.openOrCreate c.regionTag (regionSize c.slotCount)).1 := by
    rw [hattach]
    cases (i.openOrCreate c.regionTag (regionSize c.slotCount)).1 <;> simp [Reported]
  have hlock : Reported (i.lock c.regionTag) ↔ 252 < c.regionTag.utf8ByteSize :=
    reported_lock_iff.trans (or_iff_right (Config.slash_notMem_of_isTag htag))
  rw [hopen, ← hlock]
  cases htaken : i.lock c.regionTag with
  | error e => simp [(create_of_refused htaken).2, Reported]
  | ok locked =>
    rw [reported_openOrCreate_of_lock htaken]
    simp [Reported]

theorem reported_context_iff {caps : Capabilities} (cross : caps.isCrossImage = true) (c : Config) :
    Reported (Target.context i caps c).1 ↔ Reported (SlotTable.attach i c).1 := by
  rw [Target.context, if_pos cross]
  cases SlotTable.attach i c with
  | mk result rest => cases result <;> simp [Reported]

end Region.Image

namespace Config

/-- **Whether settings from an environment are attachable.** They have a slot and a tag, and a value
that is no tag is ignored. They are attachable if and only if the tag of the environment, should it
have one, is short enough for the names of regions. A context over a slot table is refused with an
invalid name if and only if the tag has more than 252 bytes, or the lock is taken and either the scan
meets such a name, or there is no live region and the own name is too long. -/
theorem attachable_iff_short (env : Environment) (i : Image) :
    0 < (ofEnvironment env).1.slotCount ∧
    isTag (ofEnvironment env).1.regionTag = true ∧
    (∀ tag, Environment.text? env.regionTag = some tag → isTag tag = false →
      (ofEnvironment env).1.regionTag = "once_latch") ∧
    (∀ pid, (ofEnvironment env).1.Attachable pid ↔
      ∀ tag, Environment.text? env.regionTag = some tag → isTag tag = true →
        (regionName tag pid).utf8ByteSize ≤ maxNameBytes) ∧
    ∀ caps : Capabilities, caps.isCrossImage = true →
      (Reported (Target.context i caps (ofEnvironment env).1).1 ↔
        252 < (ofEnvironment env).1.regionTag.utf8ByteSize ∨
        ∃ locked, i.lock (ofEnvironment env).1.regionTag = .ok locked ∧
          (Reported (locked.seek (ofEnvironment env).1.regionTag
              (regionSize (ofEnvironment env).1.slotCount)).1 ∨
            ((locked.seek (ofEnvironment env).1.regionTag
                (regionSize (ofEnvironment env).1.slotCount)).1 = .ok none ∧
              maxNameBytes <
                (regionName (ofEnvironment env).1.regionTag i.self).utf8ByteSize))) := by
  have htag := isTag_regionTag env
  refine ⟨slotCount_pos env, htag, fun tag htext hno => ?_, fun pid => ?_, fun caps cross => ?_⟩
  · rcases regionTag_cases env with ⟨tag', htext', htag', -⟩ | ⟨-, hdefault⟩
    · cases htext.symm.trans htext'
      cases hno.symm.trans htag'
    · exact hdefault
  · rw [attachable_iff (slotCount_pos env) htag]
    rcases regionTag_cases env with ⟨tag, htext, htag', heq⟩ | ⟨hnone, hdefault⟩
    · rw [heq, htext]
      refine ⟨fun hshort tag' h _ => Option.some.inj h ▸ hshort, fun h => h tag rfl htag'⟩
    · rw [hdefault]
      refine iff_of_true (short_default pid) fun tag htext htag' => ?_
      cases (hnone tag htext).symm.trans htag'
  · rw [Image.reported_context_iff cross, Image.reported_attach_iff htag]

/-- An environment with a tag of so many bytes. -/
def tagged (n : Nat) : Environment := { regionTag := some (Image.plainTag n).toUTF8 }

/-- A tag of 253 bytes passes for one and is taken from the environment. The settings are not
attachable, and a context over a slot table is refused with an invalid name. -/
theorem attachable_iff_short_long :
    isTag (Image.plainTag 253) = true ∧ ¬(ofEnvironment (tagged 253)).1.Attachable 7 ∧
    Reported (Target.context Image.bare .crossImage (ofEnvironment (tagged 253)).1).1 := by
  have htag : isTag (Image.plainTag 253) = true := by
    rw [isTag, Bool.and_eq_true, List.all_eq_true]
    refine ⟨?_, fun c hc => ?_⟩
    · rw [Image.plainTag, String.toList_ofList, List.replicate_succ]
      rfl
    · rw [Image.eq_of_mem_plainTag hc]
      rfl
  have htext : Environment.text? (tagged 253).regionTag = some (Image.plainTag 253) :=
    Environment.text?_toUTF8 _
  obtain ⟨-, -, -, hattachable, hreported⟩ := attachable_iff_short (tagged 253) Image.bare
  refine ⟨htag, fun h => ?_, (hreported .crossImage (by decide)).mpr (.inl ?_)⟩
  · have hshort := (hattachable 7).mp h _ htext htag
    rw [utf8ByteSize_regionName, Image.utf8ByteSize_plainTag] at hshort
    exact absurd hshort (by decide)
  · rw [regionTag_ofEnvironment, htext, Option.filter, if_pos htag, Option.getD_some,
      Image.utf8ByteSize_plainTag]
    decide

end Config

end RunOnce
