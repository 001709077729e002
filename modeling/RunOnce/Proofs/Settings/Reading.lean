import RunOnce.Config
import RunOnce.Proofs.Text.Grammar

/-!
# What is read from an environment

**Texts of a setting.** A tag is taken as it stands if it has a character, no slash and no NUL
(`Names`). A number is taken if the text is a numeral of 32 bits between blanks (`Denotes`); the
number of slots must not be zero.

**Readings** (`Reading`). A variable that is missing or whose bytes are no text is passed over in
silence. A text is taken without a record, or it is refused with one warning that quotes it and
says why.

**Theorem (`ofEnvironment_exact`).** The settings and the log are put together from three readings,
each of one variable and of nothing else. The records stand in the order tag, slots, spins.
-/

namespace RunOnce

open Text

namespace Environment

/-- Bytes have a text exactly if they are its encoding. -/
theorem text?_eq_some_iff {raw : Option ByteArray} {text : String} :
    text? raw = some text ↔ raw = some text.toUTF8 := by
  constructor
  · intro h
    obtain ⟨bytes, rfl, hbytes⟩ := Option.bind_eq_some_iff.mp h
    unfold String.fromUTF8? at hbytes
    split at hbytes
    · cases hbytes
      rfl
    · cases hbytes
  · rintro rfl
    show String.fromUTF8? text.toUTF8 = some text
    rw [String.fromUTF8?, String.toUTF8_eq_toByteArray, dif_pos text.isValidUTF8]
    rfl

theorem text?_toUTF8 (text : String) : text? (some text.toUTF8) = some text :=
  text?_eq_some_iff.mpr rfl

end Environment

namespace Config

/-! ## Texts that are taken, and texts that are refused -/

/-- A text that is taken as a tag, as it stands. -/
structure Names (text tag : String) : Prop where
  verbatim : tag = text
  nonempty : text ≠ ""
  slash : '/' ∉ text.toList
  nul : '\x00' ∉ text.toList

/-- A text that is taken as a number: a numeral of its value between blanks. -/
def Denotes (text : String) (n : UInt32) : Prop :=
  ∃ m : Numeral, Trimmed text.toList m.write ∧ m.value = n.toNat

/-- The record about a text that is no tag. -/
def RefusedTag (text : String) (r : Record) : Prop :=
  r = .ignoredSetting Environment.tagVariable (quote text) "not a valid region tag"

/-- The record about a text that is no number, with the fault of what is left after trimming. -/
def RefusedNumber (variableName text : String) (r : Record) : Prop :=
  ∃ core e, Trimmed text.toList core ∧ Faulty core e ∧
    r = .ignoredSetting variableName (quote text) e.message

/-- The record about a text that is no number of slots: it is no number, or it is zero. -/
def RefusedSlots (text : String) (r : Record) : Prop :=
  RefusedNumber Environment.slotsVariable text r ∨
    (Denotes text 0 ∧ r = .ignoredZero Environment.slotsVariable)

theorem isTag_iff {tag : String} :
    isTag tag = true ↔ tag ≠ "" ∧ '/' ∉ tag.toList ∧ '\x00' ∉ tag.toList := by
  simp only [isTag, Bool.and_eq_true, Bool.not_eq_true', List.isEmpty_eq_false_iff, ne_eq,
    String.toList_eq_nil_iff, List.all_eq_true, decide_eq_true_eq]
  refine and_congr_right fun _ => ⟨fun h => ⟨fun hslash => (h _ hslash).1 rfl,
    fun hnul => (h _ hnul).2 rfl⟩, fun ⟨slash, nul⟩ c hc => ⟨?_, fun hzero => ?_⟩⟩
  · rintro rfl
    exact slash hc
  · obtain rfl : c = '\x00' := Char.toNat_inj.mp hzero
    exact nul hc

theorem names_iff {text tag : String} : Names text tag ↔ isTag text = true ∧ tag = text := by
  rw [isTag_iff]
  exact ⟨fun h => ⟨⟨h.nonempty, h.slash, h.nul⟩, h.verbatim⟩,
    fun ⟨⟨nonempty, slash, nul⟩, verbatim⟩ => ⟨verbatim, nonempty, slash, nul⟩⟩

theorem denotes_iff {text : String} {n : UInt32} :
    Denotes text n ↔ parseUInt32 (trimBlank text.toList) = .ok n := by
  rw [parseUInt32_eq_ok_iff_numeral]
  exact exists_congr fun m => and_congr_left' (trimBlank_eq_iff.symm.trans eq_comm)

/-- A text has at most one value. -/
theorem Denotes.unique {text : String} {n n' : UInt32} (h : Denotes text n)
    (h' : Denotes text n') : n = n' :=
  Except.ok.inj ((denotes_iff.mp h).symm.trans (denotes_iff.mp h'))

/-! ## What comes of a text -/

/-- A text is taken without a record, or it is refused with one warning. -/
inductive Verdict {α : Type} (good : String → α → Prop) (bad : String → Record → Prop)
    (text : String) : Option α × List Record → Prop
  | taken {v : α} (isGood : good text v) : Verdict good bad text (some v, [])
  | refused {r : Record} (noGood : ∀ v, ¬good text v) (isBad : bad text r)
      (warns : r.level = .warn) : Verdict good bad text (none, [r])

theorem verdict_readTag (text : String) : Verdict Names RefusedTag text (readTag (some text)) := by
  by_cases h : isTag text = true
  · simp only [readTag, h, if_true]
    exact .taken (names_iff.mpr ⟨h, rfl⟩)
  · simp only [readTag, h]
    exact .refused (fun tag hnames => h (names_iff.mp hnames).1) rfl rfl

theorem verdict_readNumber (variableName text : String) :
    Verdict Denotes (RefusedNumber variableName) text (readNumber variableName (some text)) := by
  cases h : parseUInt32 (trimBlank text.toList) with
  | ok n =>
    simp only [readNumber, h]
    exact .taken (denotes_iff.mpr h)
  | error e =>
    simp only [readNumber, h]
    refine .refused (fun n hn => ?_)
      ⟨_, e, trimmed_trimBlank _, parseUInt32_eq_error_iff.mp h, rfl⟩ rfl
    cases h.symm.trans (denotes_iff.mp hn)

/-- A number of slots is one that denotes something else than zero. -/
theorem verdict_positive {text : String} {read : Option UInt32 × List Record}
    (h : Verdict Denotes (RefusedNumber Environment.slotsVariable) text read) :
    Verdict (fun text n => Denotes text n ∧ 0 < n) RefusedSlots text
      (positive Environment.slotsVariable read) := by
  cases h with
  | @taken n hn =>
    by_cases hzero : n = 0
    · subst hzero
      refine .refused (fun v hv => ?_) (.inr ⟨hn, rfl⟩) rfl
      rw [← hn.unique hv.1] at hv
      exact absurd hv.2 (by decide)
    · simp only [positive, hzero, if_false]
      exact .taken ⟨hn, UInt32.pos_iff_ne_zero.mpr hzero⟩
  | refused noGood isBad warns => exact .refused (fun v hv => noGood v hv.1) (.inl isBad) warns

/-! ## What comes of a variable -/

/-- What comes of a variable: the value that is taken from it, if any, and what is said about it. -/
structure Reading {α : Type} (good : String → α → Prop) (bad : String → Record → Prop)
    (raw : Option ByteArray) (read : Option α × List Record) : Prop where
  /-- A value is taken exactly if the variable has a text that is good for it. -/
  taken : ∀ v, read.1 = some v ↔ ∃ text, raw = some text.toUTF8 ∧ good text v
  /-- A text that is good for nothing leaves one warning. -/
  refused : ∀ text, raw = some text.toUTF8 → (∀ v, ¬good text v) →
    ∃ r, bad text r ∧ r.level = .warn ∧ read.2 = [r]
  /-- No variable, bytes that are no text, and a text that is good leave nothing in the log. -/
  silent : (∀ text, raw = some text.toUTF8 → ∃ v, good text v) → read.2 = []

/-- A verdict on every text, and silence about everything else, make a reading. -/
theorem reading_of_verdicts {α : Type} {good : String → α → Prop} {bad : String → Record → Prop}
    {read : Option String → Option α × List Record}
    (unique : ∀ text v v', good text v → good text v' → v = v') (silent : read none = (none, []))
    (verdict : ∀ text, Verdict good bad text (read (some text))) (raw : Option ByteArray) :
    Reading good bad raw (read (Environment.text? raw)) := by
  cases htext : Environment.text? raw with
  | none =>
    have hno : ∀ text : String, raw ≠ some text.toUTF8 := fun text hraw => by
      cases htext.symm.trans (Environment.text?_eq_some_iff.mpr hraw)
    rw [silent]
    exact ⟨fun v => iff_of_false nofun fun ⟨text, hraw, _⟩ => hno text hraw,
      fun text hraw => absurd hraw (hno text), fun _ => rfl⟩
  | some text =>
    have honly : ∀ text' : String, raw = some text'.toUTF8 → text' = text := fun text' hraw =>
      Option.some.inj ((Environment.text?_eq_some_iff.mpr hraw).symm.trans htext)
    have hraw := Environment.text?_eq_some_iff.mp htext
    have hverdict := verdict text
    generalize read (some text) = result at hverdict
    cases hverdict with
    | @taken v isGood =>
      refine ⟨fun v' => ⟨fun h => ⟨text, hraw, Option.some.inj h ▸ isGood⟩, ?_⟩,
        fun text' hraw' noGood => ?_, fun _ => rfl⟩
      · rintro ⟨text', hraw', isGood'⟩
        rw [honly text' hraw'] at isGood'
        exact congrArg some (unique text v v' isGood isGood')
      · rw [honly text' hraw'] at noGood
        exact absurd isGood (noGood v)
    | @refused r noGood isBad warns =>
      refine ⟨fun v => iff_of_false nofun ?_, fun text' hraw' _ => ?_, fun hgood => ?_⟩
      · rintro ⟨text', hraw', isGood⟩
        exact noGood v (honly text' hraw' ▸ isGood)
      · exact ⟨r, (honly text' hraw').symm ▸ isBad, warns, rfl⟩
      · obtain ⟨v, isGood⟩ := hgood text hraw
        exact absurd isGood (noGood v)

/-- The tag that the bytes of its variable stand for, and what is said about them. -/
def tagOf (raw : Option ByteArray) : Option String × List Record :=
  readTag (Environment.text? raw)

/-- The number of slots that the bytes of its variable stand for, and what is said about them. -/
def slotsOf (raw : Option ByteArray) : Option UInt32 × List Record :=
  positive Environment.slotsVariable
    (readNumber Environment.slotsVariable (Environment.text? raw))

/-- The yields that the bytes of their variable stand for, and what is said about them. -/
def spinsOf (raw : Option ByteArray) : Option UInt32 × List Record :=
  readNumber Environment.spinsVariable (Environment.text? raw)

theorem reading_tagOf (raw : Option ByteArray) : Reading Names RefusedTag raw (tagOf raw) :=
  reading_of_verdicts (fun _ _ _ h h' => h.verbatim.trans h'.verbatim.symm) rfl verdict_readTag raw

theorem reading_slotsOf (raw : Option ByteArray) :
    Reading (fun text n => Denotes text n ∧ 0 < n) RefusedSlots raw (slotsOf raw) := by
  let read (text : Option String) : Option UInt32 × List Record :=
    positive Environment.slotsVariable (readNumber Environment.slotsVariable text)
  have hverdict (text : String) :
      Verdict (fun text n => Denotes text n ∧ 0 < n) RefusedSlots text (read (some text)) :=
    verdict_positive (verdict_readNumber Environment.slotsVariable text)
  have hunique (text : String) (n n' : UInt32) (h : Denotes text n ∧ 0 < n)
      (h' : Denotes text n' ∧ 0 < n') : n = n' := h.1.unique h'.1
  exact reading_of_verdicts hunique rfl hverdict raw

theorem reading_spinsOf (raw : Option ByteArray) :
    Reading Denotes (RefusedNumber Environment.spinsVariable) raw (spinsOf raw) :=
  reading_of_verdicts (fun _ _ _ h h' => h.unique h') rfl
    (verdict_readNumber Environment.spinsVariable) raw

/-- **What is read from an environment.** The settings and the log are put together from readings
of the three variables, each of which looks at its own variable only. A field is overridden with a
value exactly if its variable has a text that is good for it: a tag, a numeral of 32 bits between
blanks, and for the slots one that is not zero. There is exactly one warning for each text that is
refused and nothing else in the log, in the order tag, slots, spins. -/
theorem ofEnvironment_exact (env : Environment) :
    ofEnvironment env =
      ({ regionTag := (tagOf env.regionTag).1.getD "once_latch"
         slotCount := (slotsOf env.slotCount).1.getD 4096
         pollSpins := (spinsOf env.pollSpins).1.getD 64 },
        (tagOf env.regionTag).2 ++ (slotsOf env.slotCount).2 ++ (spinsOf env.pollSpins).2) ∧
    Reading Names RefusedTag env.regionTag (tagOf env.regionTag) ∧
    Reading (fun text n => Denotes text n ∧ 0 < n) RefusedSlots env.slotCount
      (slotsOf env.slotCount) ∧
    Reading Denotes (RefusedNumber Environment.spinsVariable) env.pollSpins
      (spinsOf env.pollSpins) :=
  ⟨rfl, reading_tagOf env.regionTag, reading_slotsOf env.slotCount, reading_spinsOf env.pollSpins⟩

example : (ofEnvironment { slotCount := some "\u3000+0008 ".toUTF8 }).1.slotCount = 8 := by
  decide

end Config

end RunOnce
