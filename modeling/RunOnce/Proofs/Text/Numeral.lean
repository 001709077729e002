import RunOnce.Text.Numeral
import Mathlib.Data.List.Infix

/-!
# What counts as a numeral

**Spellings** (`Spelling`). A number has one decimal form, its digits without zeros in front. A
spelling of it may have a sign and any number of zeros before these digits; the plain spelling has
neither.

**Theorem (`parseUInt32_eq_ok_iff`).** The texts that are read as a number of 32 bits are exactly
its spellings. No text spells two numbers, and no number has two spellings that look alike
(`Spelling.write_inj`).

Reading goes from the left, so the proof that a text has this form follows the digits: once the
value is not zero, the digits read so far are those of the value (`toDigits_append_of_read`); before
that they are zeros (`exists_zeros_of_read`).
-/

namespace RunOnce.Text

/-! ## Single digits -/

theorem digitValue?_eq_some_iff {c : Char} {d : Nat} :
    digitValue? c = some d ↔ c.isDigit = true ∧ c.toNat - 48 = d := by
  simp [digitValue?, Char.isDigit, Char.le_def, and_comm]

theorem digitValue?_digitChar {d : Nat} (hd : d < 10) : digitValue? d.digitChar = some d := by
  rw [digitValue?_eq_some_iff, Nat.isDigit_digitChar, Nat.toNat_digitChar_sub_48_of_lt_ten hd]
  exact ⟨decide_eq_true hd, rfl⟩

/-- A digit is the one that is written for its value. -/
theorem eq_digitChar {c : Char} {d : Nat} (h : digitValue? c = some d) :
    d < 10 ∧ c = d.digitChar := by
  obtain ⟨hdigit, hvalue⟩ := digitValue?_eq_some_iff.mp h
  have hrange : 48 ≤ c.toNat ∧ c.toNat ≤ 57 := by
    simpa [Char.isDigit, Char.le_def, UInt32.le_iff_toNat_le] using hdigit
  have hd : d < 10 := by omega
  refine ⟨hd, Char.toNat_inj.mp ?_⟩
  rw [Nat.toNat_digitChar_of_lt_ten hd]
  omega

/-! ## Writing, then reading -/

/-- A last digit is read onto the value of the digits before it. -/
theorem readDigits_concat {cs : List Char} {c : Char} {value n d : Nat}
    (hcs : readDigits cs value = .ok n) (hc : digitValue? c = some d)
    (hn : n * 10 + d < UInt32.size) : readDigits (cs ++ [c]) value = .ok (n * 10 + d) := by
  induction cs generalizing value with
  | nil =>
    cases hcs
    simp only [List.nil_append, readDigits, hc]
    rw [if_pos hn]
  | cons a rest ih =>
    simp only [List.cons_append, readDigits] at hcs ⊢
    cases ha : digitValue? a with
    | none => simp [ha] at hcs
    | some e =>
      simp only [ha] at hcs ⊢
      by_cases hlt : value * 10 + e < UInt32.size
      · rw [if_pos hlt] at hcs ⊢
        exact ih hcs
      · rw [if_neg hlt] at hcs
        cases hcs

/-- The digits of a number of 32 bits are read back. -/
theorem readDigits_toDigits (n : Nat) (hn : n < UInt32.size) :
    readDigits (Nat.toDigits 10 n) 0 = .ok n := by
  induction n using Nat.base_induction 10 (by decide) with
  | single d hd =>
    rw [Nat.toDigits_of_lt_base hd]
    simpa using readDigits_concat (rfl : readDigits [] 0 = .ok 0) (digitValue?_digitChar hd)
      (by omega)
  | digit m d hd hm ih =>
    have hdigits := Nat.toDigits_append_toDigits (by decide : 1 < 10) hm hd
    rw [← hdigits, Nat.toDigits_of_lt_base hd, Nat.mul_comm 10 m]
    exact readDigits_concat (ih (by omega)) (digitValue?_digitChar hd) (by omega)

/-- Zeros in front do not change what is read. -/
theorem readDigits_zeros (zeros : Nat) (cs : List Char) :
    readDigits (List.replicate zeros '0' ++ cs) 0 = readDigits cs 0 := by
  induction zeros with
  | zero => rfl
  | succ k ih =>
    have hzero : digitValue? '0' = some 0 := rfl
    have hsmall : (0 * 10 + 0 : Nat) < UInt32.size := by decide
    rw [List.replicate_succ, List.cons_append, readDigits]
    simp only [hzero]
    rw [if_pos hsmall]
    exact ih

/-! ## Reading, then writing -/

/-- What a digit that is read does to the value. -/
theorem read_cons {c : Char} {rest : List Char} {value n : Nat}
    (h : readDigits (c :: rest) value = .ok n) :
    ∃ d, digitValue? c = some d ∧ value * 10 + d < UInt32.size ∧
      readDigits rest (value * 10 + d) = .ok n := by
  simp only [readDigits] at h
  cases hc : digitValue? c with
  | none => simp [hc] at h
  | some d =>
    simp only [hc] at h
    split at h
    next hsmall => exact ⟨d, rfl, hsmall, h⟩
    next => cases h

/-- Digits after a value that is not zero are the last ones of what is read. -/
theorem toDigits_append_of_read {cs : List Char} {value n : Nat} (pos : 0 < value)
    (h : readDigits cs value = .ok n) : Nat.toDigits 10 value ++ cs = Nat.toDigits 10 n := by
  induction cs generalizing value with
  | nil =>
    cases h
    exact List.append_nil _
  | cons c rest ih =>
    obtain ⟨d, hc, -, hrest⟩ := read_cons h
    obtain ⟨hd, rfl⟩ := eq_digitChar hc
    have hvalue := Nat.toDigits_append_toDigits (by decide : 1 < 10) pos hd
    rw [Nat.toDigits_of_lt_base hd] at hvalue
    calc Nat.toDigits 10 value ++ d.digitChar :: rest
        = (Nat.toDigits 10 value ++ [d.digitChar]) ++ rest := by simp
      _ = Nat.toDigits 10 (value * 10 + d) ++ rest := by rw [hvalue, Nat.mul_comm]
      _ = Nat.toDigits 10 n := ih (by omega) hrest

/-- Digits that are read from the start are those of the number, after zeros. -/
theorem exists_zeros_of_read {cs : List Char} {n : Nat} (ne : cs ≠ [])
    (h : readDigits cs 0 = .ok n) :
    ∃ zeros, cs = List.replicate zeros '0' ++ Nat.toDigits 10 n := by
  induction cs with
  | nil => exact absurd rfl ne
  | cons c rest ih =>
    obtain ⟨d, hc, -, hrest⟩ := read_cons h
    obtain ⟨hd, rfl⟩ := eq_digitChar hc
    rw [Nat.zero_mul, Nat.zero_add] at hrest
    rcases Nat.eq_zero_or_pos d with rfl | hpos
    · by_cases hempty : rest = []
      · subst hempty
        cases hrest
        exact ⟨0, rfl⟩
      · obtain ⟨zeros, hzeros⟩ := ih hempty hrest
        refine ⟨zeros + 1, ?_⟩
        rw [hzeros, List.replicate_succ, List.cons_append]
        rfl
    · refine ⟨0, ?_⟩
      have hdigits := toDigits_append_of_read hpos hrest
      rw [Nat.toDigits_of_lt_base hd] at hdigits
      exact hdigits

/-! ## Spellings -/

/-- A way to write numbers: with or without a sign, and with a number of zeros in front. -/
structure Spelling where
  signed : Bool := false
  zeros : Nat := 0
deriving DecidableEq

namespace Spelling

/-- The spelling without a sign and without zeros in front. -/
def plain : Spelling := {}

/-- A number as it is written in a spelling. -/
def write (s : Spelling) (n : UInt32) : List Char :=
  (if s.signed then ['+'] else []) ++ (List.replicate s.zeros '0' ++ Nat.toDigits 10 n.toNat)

@[simp] theorem write_plain (n : UInt32) : plain.write n = Nat.toDigits 10 n.toNat := rfl

end Spelling

theorem parseUInt32_plus {rest : List Char} (ne : rest ≠ []) :
    parseUInt32 ('+' :: rest) = (readDigits rest 0).map UInt32.ofNat := by
  cases rest with
  | nil => exact absurd rfl ne
  | cons c cs => rfl

theorem parseUInt32_unsigned {c : Char} {rest : List Char} (unsigned : c ≠ '+') :
    parseUInt32 (c :: rest) = (readDigits (c :: rest) 0).map UInt32.ofNat := by
  unfold parseUInt32
  split
  next h => cases h
  next h => exact absurd (List.cons.inj h).1 unsigned
  next h => exact absurd (List.cons.inj h).1 unsigned
  next => rfl

/-- What is read has 32 bits. -/
theorem lt_of_read {cs : List Char} {value n : Nat} (small : value < UInt32.size)
    (h : readDigits cs value = .ok n) : n < UInt32.size := by
  induction cs generalizing value with
  | nil =>
    cases h
    exact small
  | cons c rest ih =>
    obtain ⟨d, -, hsmall, hrest⟩ := read_cons h
    exact ih hsmall hrest

/-- What digits are read as, as a number of 32 bits. -/
theorem readDigits_map_eq_ok_iff {cs : List Char} {n : UInt32} (ne : cs ≠ []) :
    (readDigits cs 0).map UInt32.ofNat = .ok n ↔
      ∃ zeros, cs = List.replicate zeros '0' ++ Nat.toDigits 10 n.toNat := by
  constructor
  · intro h
    cases hread : readDigits cs 0 with
    | error e =>
      rw [hread] at h
      cases h
    | ok value =>
      rw [hread] at h
      obtain rfl : UInt32.ofNat value = n := Except.ok.inj h
      rw [UInt32.toNat_ofNat_of_lt' (lt_of_read (by decide) hread)]
      exact exists_zeros_of_read ne hread
  · rintro ⟨zeros, rfl⟩
    rw [readDigits_zeros, readDigits_toDigits n.toNat n.toNat_lt]
    simp [Except.map]

/-- Behind a sign there are digits, and at least one. -/
theorem isDigit_of_mem {zeros value : Nat} {c : Char}
    (h : c ∈ List.replicate zeros '0' ++ Nat.toDigits 10 value) : c.isDigit = true := by
  rcases List.mem_append.mp h with hzero | hdigit
  · rw [(List.mem_replicate.mp hzero).2]
    rfl
  · exact Nat.isDigit_of_mem_toDigits (by decide) (by decide) hdigit

theorem digits_ne_nil (zeros value : Nat) :
    List.replicate zeros '0' ++ Nat.toDigits 10 value ≠ [] := by
  simp

/-- **The numerals of a number are its spellings.** -/
theorem parseUInt32_eq_ok_iff {cs : List Char} {n : UInt32} :
    parseUInt32 cs = .ok n ↔ ∃ s : Spelling, cs = s.write n := by
  constructor
  · intro h
    unfold parseUInt32 at h
    split at h
    · cases h
    · cases h
    next rest hlone =>
      have hne : rest ≠ [] := fun hnil => hlone (by rw [hnil])
      obtain ⟨zeros, rfl⟩ := (readDigits_map_eq_ok_iff hne).mp h
      exact ⟨⟨true, zeros⟩, rfl⟩
    next hne _ _ =>
      obtain ⟨zeros, rfl⟩ := (readDigits_map_eq_ok_iff hne).mp h
      exact ⟨⟨false, zeros⟩, rfl⟩
  · rintro ⟨⟨signed, zeros⟩, rfl⟩
    have hne := digits_ne_nil zeros n.toNat
    have hread := (readDigits_map_eq_ok_iff hne).mpr ⟨zeros, rfl⟩
    cases signed with
    | true => exact (parseUInt32_plus hne).trans hread
    | false =>
      obtain ⟨c, rest, hcons⟩ := List.exists_cons_of_ne_nil hne
      have hdigit : c.isDigit = true := isDigit_of_mem (hcons ▸ List.mem_cons_self)
      have hsign : c ≠ '+' := by
        rintro rfl
        cases hdigit
      rw [hcons] at hread
      rw [Spelling.write, hcons]
      exact (parseUInt32_unsigned hsign).trans hread

theorem parseUInt32_toDigits (n : UInt32) : parseUInt32 (Nat.toDigits 10 n.toNat) = .ok n :=
  parseUInt32_eq_ok_iff.mpr ⟨.plain, rfl⟩

namespace Spelling

variable {s t : Spelling} {n m : UInt32} {c : Char}

theorem parse_write (s : Spelling) (n : UInt32) : parseUInt32 (s.write n) = .ok n :=
  parseUInt32_eq_ok_iff.mpr ⟨s, rfl⟩

/-- There is a sign in front or there is none. -/
theorem signed_iff : s.signed = true ↔ '+' ∈ s.write n := by
  have hdigits : '+' ∉ List.replicate s.zeros '0' ++ Nat.toDigits 10 n.toNat := fun h => by
    cases isDigit_of_mem h
  rw [write, List.mem_append, or_iff_left hdigits]
  cases s.signed <;> simp

/-- No text spells two numbers, and no two spellings of a number are the same text. -/
theorem write_inj : s.write n = t.write m ↔ s = t ∧ n = m := by
  constructor
  · intro h
    have hparse := s.parse_write n
    rw [h, t.parse_write m] at hparse
    obtain rfl := Except.ok.inj hparse
    have hsign : s.signed = t.signed := by
      rw [Bool.eq_iff_iff, signed_iff, h, ← signed_iff]
    obtain ⟨signed, zeros⟩ := s
    obtain ⟨_, zeros'⟩ := t
    obtain rfl : signed = _ := hsign
    have hlength := congrArg List.length h
    simp only [write, List.length_append, List.length_replicate] at hlength
    have hzeros : zeros = zeros' := by omega
    exact ⟨by rw [hzeros], rfl⟩
  · rintro ⟨rfl, rfl⟩
    rfl

theorem underscore_notMem_write (s : Spelling) (n : UInt32) : '_' ∉ s.write n := by
  intro h
  rcases List.mem_append.mp h with hsign | hdigits
  · cases hs : s.signed <;> simp [hs] at hsign
  · cases isDigit_of_mem hdigits

end Spelling

theorem underscore_notMem_of_parse {cs : List Char} {n : UInt32}
    (h : parseUInt32 cs = .ok n) : '_' ∉ cs := by
  obtain ⟨s, rfl⟩ := parseUInt32_eq_ok_iff.mp h
  exact s.underscore_notMem_write n

/-- A numeral ends in a digit. -/
theorem isDigit_getLast_of_parse {cs : List Char} {n : UInt32} (h : parseUInt32 cs = .ok n) :
    ∀ c, cs.getLast? = some c → c.isDigit = true := by
  obtain ⟨s, rfl⟩ := parseUInt32_eq_ok_iff.mp h
  intro c hc
  rw [Spelling.write, List.getLast?_append_of_ne_nil _ (digits_ne_nil _ _)] at hc
  exact isDigit_of_mem (List.mem_of_getLast? hc)

end RunOnce.Text
