import Mathlib.Data.List.TakeWhile
import RunOnce.Proofs.Text.Numeral
import RunOnce.Text.Blank

/-!
# The grammar of a number in a setting

**Trimming** (`Trimmed`). What is left of a text has blanks in front of it and behind it, and
neither begins nor ends with one. There is exactly one such part, and `trimBlank` gives it.

**Numerals** (`Numeral`). An optional sign and one or more ASCII digits, zeros in front included.
Their value has no bound.

**Faults** (`Faulty`). Nothing at all, a lone sign, a character that is no digit behind digits of
less than `2 ^ 32`, or digits of at least `2 ^ 32`, whatever comes behind them.

Every text is a numeral of 32 bits or has one fault, and reading tells which
(`parseUInt32_eq_ok_iff_numeral`, `parseUInt32_eq_error_iff`). Digits are read one by one onto a
value that only grows, so a value that is too large is noticed at the first prefix that has it; a
fault behind this prefix is not looked at (`Reads`).
-/

namespace RunOnce.Text

/-! ## Blanks at both ends -/

/-- `core` is what is left of `cs` without the blanks at both ends. -/
structure Trimmed (cs core : List Char) : Prop where
  padded : ∃ before after, (∀ c ∈ before, isBlank c = true) ∧ (∀ c ∈ after, isBlank c = true) ∧
    cs = before ++ core ++ after
  head : ∀ c, core.head? = some c → isBlank c = false
  last : ∀ c, core.getLast? = some c → isBlank c = false

/-- Blanks in front of a text that does not begin with one are dropped, and no more. -/
theorem dropWhile_blanks {before rest : List Char} (blank : ∀ c ∈ before, isBlank c = true)
    (head : ∀ c, rest.head? = some c → isBlank c = false) :
    (before ++ rest).dropWhile isBlank = rest := by
  rw [List.dropWhile_append_of_pos blank]
  cases rest with
  | nil => rfl
  | cons c rest => exact List.dropWhile_cons_of_neg (by simp [head c rfl])

theorem isBlank_head?_dropWhile {cs : List Char} {c : Char}
    (h : (cs.dropWhile isBlank).head? = some c) : isBlank c = false := by
  have hnot := List.head?_dropWhile_not isBlank cs
  rw [h] at hnot
  simpa using hnot

theorem trimmed_trimBlank (cs : List Char) : Trimmed cs (trimBlank cs) := by
  have hfront : trimBlank cs ++ ((cs.dropWhile isBlank).reverse.takeWhile isBlank).reverse =
      cs.dropWhile isBlank := by
    rw [trimBlank, ← List.reverse_append, List.takeWhile_append_dropWhile, List.reverse_reverse]
  refine ⟨⟨cs.takeWhile isBlank, ((cs.dropWhile isBlank).reverse.takeWhile isBlank).reverse,
    fun c => List.mem_takeWhile_imp, fun c hc => List.mem_takeWhile_imp (List.mem_reverse.mp hc), ?_⟩,
    fun c hc => ?_, fun c hc => ?_⟩
  · rw [List.append_assoc, hfront, List.takeWhile_append_dropWhile]
  · have hhead : (cs.dropWhile isBlank).head? = some c := by
      rw [← hfront, List.head?_append, hc]
      rfl
    exact isBlank_head?_dropWhile hhead
  · rw [trimBlank, List.getLast?_reverse] at hc
    exact isBlank_head?_dropWhile hc

/-- **What is left after trimming.** -/
theorem trimBlank_eq_iff {cs core : List Char} : trimBlank cs = core ↔ Trimmed cs core := by
  constructor
  · rintro rfl
    exact trimmed_trimBlank cs
  · rintro ⟨⟨before, after, hbefore, hafter, rfl⟩, hhead, hlast⟩
    cases core with
    | nil =>
      have hblank : ∀ c ∈ before ++ [] ++ after, isBlank c = true := by
        simpa [or_imp, forall_and] using ⟨hbefore, hafter⟩
      rw [trimBlank, List.dropWhile_eq_nil_iff.mpr hblank]
      rfl
    | cons c rest =>
      have hfront : (before ++ (c :: rest) ++ after).dropWhile isBlank = c :: rest ++ after := by
        rw [List.append_assoc]
        exact dropWhile_blanks hbefore hhead
      have hback : (after.reverse ++ (c :: rest).reverse).dropWhile isBlank = (c :: rest).reverse :=
        dropWhile_blanks (fun a ha => hafter a (List.mem_reverse.mp ha)) fun a ha =>
          hlast a (by rwa [List.head?_reverse] at ha)
      rw [trimBlank, hfront, List.reverse_append, hback, List.reverse_reverse]

/-! ## Digits read one by one -/

/-- What comes of characters that are read onto a value: the value of all of them, or the first
fault. -/
inductive Reads (value : Nat) : List Char → Except NumeralError Nat → Prop
  | all {digits : List Char} (isDigit : ∀ c ∈ digits, c.isDigit = true)
      (small : Nat.ofDigitChars 10 digits value < UInt32.size) :
      Reads value digits (.ok (Nat.ofDigitChars 10 digits value))
  | other {digits rest : List Char} {c : Char} (isDigit : ∀ c ∈ digits, c.isDigit = true)
      (small : Nat.ofDigitChars 10 digits value < UInt32.size) (other : c.isDigit = false) :
      Reads value (digits ++ c :: rest) (.error .invalidDigit)
  | large {digits rest : List Char} (isDigit : ∀ c ∈ digits, c.isDigit = true)
      (large : UInt32.size ≤ Nat.ofDigitChars 10 digits value) :
      Reads value (digits ++ rest) (.error .tooLarge)

theorem digitValue?_of_isDigit {c : Char} (h : c.isDigit = true) :
    digitValue? c = some (c.toNat - '0'.toNat) := digitValue?_eq_some_iff.mpr ⟨h, rfl⟩

theorem isDigit_eq_false_of_digitValue? {c : Char} (h : digitValue? c = none) :
    c.isDigit = false := by
  refine Bool.eq_false_iff.mpr fun hdigit => ?_
  rw [digitValue?_of_isDigit hdigit] at h
  cases h

/-- A digit and what comes of the rest. -/
theorem Reads.cons {value : Nat} {c : Char} {rest : List Char} {result : Except NumeralError Nat}
    (digit : c.isDigit = true) (reads : Reads (10 * value + (c.toNat - '0'.toNat)) rest result) :
    Reads value (c :: rest) result := by
  cases reads with
  | all isDigit small =>
    rw [← Nat.ofDigitChars_cons] at small ⊢
    exact .all (List.forall_mem_cons.mpr ⟨digit, isDigit⟩) small
  | @other digits rest _ isDigit small other =>
    rw [← List.cons_append]
    exact .other (List.forall_mem_cons.mpr ⟨digit, isDigit⟩)
      (by rwa [Nat.ofDigitChars_cons]) other
  | @large digits rest isDigit large =>
    rw [← List.cons_append]
    exact .large (List.forall_mem_cons.mpr ⟨digit, isDigit⟩) (by rwa [Nat.ofDigitChars_cons])

theorem reads_readDigits (cs : List Char) {value : Nat} (small : value < UInt32.size) :
    Reads value cs (readDigits cs value) := by
  induction cs generalizing value with
  | nil => exact .all nofun small
  | cons c rest ih =>
    cases hc : digitValue? c with
    | none =>
      simp only [readDigits, hc]
      have hnone : ∀ a ∈ ([] : List Char), a.isDigit = true := nofun
      exact .other hnone small (isDigit_eq_false_of_digitValue? hc)
    | some d =>
      obtain ⟨hdigit, rfl⟩ : c.isDigit = true ∧ c.toNat - '0'.toNat = d :=
        digitValue?_eq_some_iff.mp hc
      simp only [readDigits, hc, Nat.mul_comm value 10]
      by_cases hsmall : 10 * value + (c.toNat - '0'.toNat) < UInt32.size
      · rw [if_pos hsmall]
        exact (ih hsmall).cons hdigit
      · rw [if_neg hsmall]
        have hdigits : ∀ a ∈ [c], a.isDigit = true := List.forall_mem_singleton.mpr hdigit
        refine .large hdigits ?_
        rw [Nat.ofDigitChars_cons]
        exact Nat.le_of_not_lt hsmall

/-- Digits never make a value smaller. -/
theorem le_ofDigitChars (digits : List Char) (value : Nat) :
    value ≤ Nat.ofDigitChars 10 digits value := by
  rw [Nat.ofDigitChars_eq_ofDigitChars_zero]
  exact Nat.le_add_right_of_le (Nat.le_mul_of_pos_left value (Nat.pow_pos (by decide)))

/-- Digits of 32 bits are read up to what comes behind them. -/
theorem readDigits_append {digits : List Char} {value : Nat}
    (isDigit : ∀ c ∈ digits, c.isDigit = true)
    (small : Nat.ofDigitChars 10 digits value < UInt32.size) (rest : List Char) :
    readDigits (digits ++ rest) value = readDigits rest (Nat.ofDigitChars 10 digits value) := by
  induction digits generalizing value with
  | nil => rfl
  | cons c digits ih =>
    obtain ⟨hc, hdigits⟩ := List.forall_mem_cons.mp isDigit
    rw [Nat.ofDigitChars_cons] at small ⊢
    have hstep : 10 * value + (c.toNat - '0'.toNat) < UInt32.size :=
      Nat.lt_of_le_of_lt (le_ofDigitChars _ _) small
    simp only [List.cons_append, readDigits, digitValue?_of_isDigit hc, Nat.mul_comm value 10]
    rw [if_pos hstep]
    exact ih hdigits small

/-- Digits that are too large are refused at the first that makes them so. -/
theorem readDigits_large {digits : List Char} {value : Nat}
    (isDigit : ∀ c ∈ digits, c.isDigit = true) (small : value < UInt32.size)
    (large : UInt32.size ≤ Nat.ofDigitChars 10 digits value) (rest : List Char) :
    readDigits (digits ++ rest) value = .error .tooLarge := by
  induction digits generalizing value with
  | nil => exact absurd small (Nat.not_lt_of_le large)
  | cons c digits ih =>
    obtain ⟨hc, hdigits⟩ := List.forall_mem_cons.mp isDigit
    rw [Nat.ofDigitChars_cons] at large
    simp only [List.cons_append, readDigits, digitValue?_of_isDigit hc, Nat.mul_comm value 10]
    by_cases hstep : 10 * value + (c.toNat - '0'.toNat) < UInt32.size
    · rw [if_pos hstep]
      exact ih hdigits hstep large
    · rw [if_neg hstep]

theorem readDigits_eq_iff {cs : List Char} {value : Nat} {result : Except NumeralError Nat}
    (start : value < UInt32.size) : readDigits cs value = result ↔ Reads value cs result := by
  constructor
  · rintro rfl
    exact reads_readDigits cs start
  · intro h
    cases h with
    | all isDigit small =>
      have hread := readDigits_append isDigit small []
      rwa [List.append_nil] at hread
    | other isDigit small other =>
      have hnone : ∀ d, digitValue? _ ≠ some d := fun d hd => by
        rw [(digitValue?_eq_some_iff.mp hd).1] at other
        cases other
      rw [readDigits_append isDigit small]
      simp only [readDigits, Option.eq_none_iff_forall_ne_some.mpr hnone]
    | large isDigit large => exact readDigits_large isDigit start large _

/-! ## Numerals and faults -/

/-- A sign, or none. -/
def sign (signed : Bool) : List Char := if signed then ['+'] else []

/-- An optional sign and one or more ASCII digits. -/
structure Numeral where
  signed : Bool
  digits : List Char
  nonempty : digits ≠ []
  isDigit : ∀ c ∈ digits, c.isDigit = true

namespace Numeral

/-- The numeral as it is written. -/
def write (m : Numeral) : List Char := sign m.signed ++ m.digits

/-- The value of the digits. -/
def value (m : Numeral) : Nat := Nat.ofDigitChars 10 m.digits 0

end Numeral

/-- Why a text is no numeral of 32 bits. -/
inductive Faulty : List Char → NumeralError → Prop
  | empty : Faulty [] .empty
  | lone : Faulty ['+'] .invalidDigit
  /-- Without a sign, the character in the place of the first digit is not a sign itself. -/
  | other (signed : Bool) {digits rest : List Char} {c : Char}
      (isDigit : ∀ c ∈ digits, c.isDigit = true)
      (small : Nat.ofDigitChars 10 digits 0 < UInt32.size) (other : c.isDigit = false)
      (first : signed = false → digits = [] → c ≠ '+') :
      Faulty (sign signed ++ (digits ++ c :: rest)) .invalidDigit
  | large (signed : Bool) {digits rest : List Char} (isDigit : ∀ c ∈ digits, c.isDigit = true)
      (large : UInt32.size ≤ Nat.ofDigitChars 10 digits 0) :
      Faulty (sign signed ++ (digits ++ rest)) .tooLarge

/-- Whether something can stand behind a sign, or without one. -/
structure IsBody (signed : Bool) (body : List Char) : Prop where
  nonempty : body ≠ []
  first : signed = false → body.head? ≠ some '+'

/-- A text is empty or a lone sign, or it has something behind its sign or without one. -/
theorem sign_cases (cs : List Char) :
    cs = [] ∨ cs = ['+'] ∨ ∃ signed body, IsBody signed body ∧ cs = sign signed ++ body := by
  rcases cs with _ | ⟨c, rest⟩
  · exact .inl rfl
  · by_cases hc : c = '+'
    · subst hc
      by_cases hrest : rest = []
      · exact .inr (.inl (by rw [hrest]))
      · exact .inr (.inr ⟨true, rest, ⟨hrest, nofun⟩, rfl⟩)
    · exact .inr (.inr ⟨false, c :: rest, ⟨nofun, fun _ h => hc (Option.some.inj h)⟩, rfl⟩)

theorem parseUInt32_sign {signed : Bool} {body : List Char} (h : IsBody signed body) :
    parseUInt32 (sign signed ++ body) = (readDigits body 0).map UInt32.ofNat := by
  cases signed with
  | true => exact parseUInt32_plus h.nonempty
  | false =>
    obtain ⟨c, rest, rfl⟩ := List.exists_cons_of_ne_nil h.nonempty
    exact parseUInt32_unsigned fun hc => h.first rfl (congrArg some hc)

/-- What comes of a text is what comes of the characters behind its sign. -/
theorem parseUInt32_sign_eq_iff {signed : Bool} {body : List Char} (h : IsBody signed body)
    {result : Except NumeralError UInt32} : parseUInt32 (sign signed ++ body) = result ↔
      ∃ read, Reads 0 body read ∧ read.map UInt32.ofNat = result := by
  have hzero : 0 < UInt32.size := by decide
  rw [parseUInt32_sign h]
  constructor
  · intro hresult
    exact ⟨_, reads_readDigits body hzero, hresult⟩
  · rintro ⟨read, hreads, hresult⟩
    rw [(readDigits_eq_iff hzero).mpr hreads, hresult]

/-- Digits can stand behind a sign or without one, whatever comes behind them. -/
theorem isBody_digits {signed : Bool} {digits rest : List Char} (nonempty : digits ≠ [])
    (isDigit : ∀ c ∈ digits, c.isDigit = true) : IsBody signed (digits ++ rest) := by
  obtain ⟨c, digits, rfl⟩ := List.exists_cons_of_ne_nil nonempty
  refine ⟨nofun, fun _ h => ?_⟩
  cases h
  cases isDigit '+' List.mem_cons_self

/-- **The texts that are read as a number are the numerals of its value.** -/
theorem parseUInt32_eq_ok_iff_numeral {cs : List Char} {n : UInt32} :
    parseUInt32 cs = .ok n ↔ ∃ m : Numeral, m.write = cs ∧ m.value = n.toNat := by
  constructor
  · intro h
    obtain rfl | rfl | ⟨signed, body, hbody, rfl⟩ := sign_cases cs
    · cases h
    · cases h
    · obtain ⟨read, hreads, hread⟩ := (parseUInt32_sign_eq_iff hbody).mp h
      cases hreads with
      | all isDigit small =>
        cases hread
        exact ⟨⟨signed, body, hbody.nonempty, isDigit⟩, rfl, (UInt32.toNat_ofNat_of_lt' small).symm⟩
      | other => cases hread
      | large => cases hread
  · rintro ⟨⟨signed, digits, nonempty, isDigit⟩, rfl, hvalue⟩
    have hbody : IsBody signed (digits ++ []) := isBody_digits nonempty isDigit
    have hvalue : Nat.ofDigitChars 10 digits 0 = n.toNat := hvalue
    rw [List.append_nil] at hbody
    refine (parseUInt32_sign_eq_iff hbody).mpr ⟨_, .all isDigit (hvalue ▸ n.toNat_lt), ?_⟩
    rw [hvalue]
    simp [Except.map]

/-- **The texts that are refused, and why.** -/
theorem parseUInt32_eq_error_iff {cs : List Char} {e : NumeralError} :
    parseUInt32 cs = .error e ↔ Faulty cs e := by
  constructor
  · intro h
    obtain rfl | rfl | ⟨signed, body, hbody, rfl⟩ := sign_cases cs
    · cases h
      exact .empty
    · cases h
      exact .lone
    · obtain ⟨read, hreads, hread⟩ := (parseUInt32_sign_eq_iff hbody).mp h
      cases hreads with
      | all => cases hread
      | other isDigit small other =>
        cases hread
        refine .other signed isDigit small other fun hsigned hdigits hc => ?_
        subst hdigits hc
        exact hbody.first hsigned rfl
      | large isDigit large =>
        cases hread
        exact .large signed isDigit large
  · intro h
    cases h with
    | empty => rfl
    | lone => rfl
    | @other signed digits rest c isDigit small other first =>
      have hbody : IsBody signed (digits ++ c :: rest) := by
        by_cases hdigits : digits = []
        · subst hdigits
          exact ⟨nofun, fun hsigned h => first hsigned rfl (Option.some.inj h)⟩
        · exact isBody_digits hdigits isDigit
      exact (parseUInt32_sign_eq_iff hbody).mpr ⟨_, .other isDigit small other, rfl⟩
    | @large signed digits rest isDigit large =>
      -- No digits have the value zero.
      have hdigits : digits ≠ [] := by
        rintro rfl
        exact absurd large (by decide)
      exact (parseUInt32_sign_eq_iff (isBody_digits hdigits isDigit)).mpr
        ⟨_, .large isDigit large, rfl⟩

end RunOnce.Text
