/-
# Lox.Proofs.Numeral -- numerals read back to the numbers they were written for

A numeral is digits, with a point among them or not.  Writing a decimal pads it with zeros
before the point, and leaves out those that its fraction ends in; reading it back gives
another decimal of the same value, and so the same nearest number.

* `nearest_mul` -- the nearest word depends on the value of a quotient only.
* `word_ofNumeral_numeral`, `isNumeral_numeral` -- writing a decimal and reading it back.
* `toFloat_ofNumeral_floatText`, `isNumeral_floatText` -- writing a number and reading it back.
-/
import Lox.Decimal.Numeral
import Lox.Proofs.Binary64

set_option autoImplicit false

namespace Lox.Magnitude

attribute [local instance(high)] instPowNat

theorem roundHalfEven_mul_right (num den : Nat) {factor : Nat} (pos : 0 < factor) :
    roundHalfEven (num * factor) (den * factor) = roundHalfEven num den := by
  have place :
      compare (2 * (num % den * factor)) (den * factor) = compare (2 * (num % den)) den := by
    rw [← Nat.mul_assoc]
    rcases Nat.lt_trichotomy (2 * (num % den)) den with below | same | above
    · rw [Nat.compare_eq_lt.2 below, Nat.compare_eq_lt.2 (Nat.mul_lt_mul_of_pos_right below pos)]
    · rw [same]
      simp
    · rw [Nat.compare_eq_gt.2 above, Nat.compare_eq_gt.2 (Nat.mul_lt_mul_of_pos_right above pos)]
  unfold roundHalfEven
  rw [Nat.mul_div_mul_right _ _ pos, Nat.mul_mod_mul_right, place]

/-- The nearest word depends on the value of a quotient only. -/
theorem nearest_mul (num den : Nat) {factor : Nat} (pos : 0 < factor) :
    nearest (num * factor) (den * factor) = nearest num den := by
  have shifted (n places : Nat) : (n * factor) <<< places = (n <<< places) * factor := by
    rw [Nat.shiftLeft_eq, Nat.shiftLeft_eq, Nat.mul_right_comm]
  simp only [nearest, shifted, Nat.mul_div_mul_right _ _ pos, roundHalfEven_mul_right _ _ pos]

end Lox.Magnitude

namespace Lox.Decimal

attribute [local instance(high)] instPowNat

/-! ## Digits around a point -/

/-- Digits, and a point before the fractional ones if there are any. -/
def pointed (whole fraction : List Char) : List Char :=
  match fraction with
  | [] => whole
  | fraction => whole ++ '.' :: fraction

/-- The text is digits, at least one, and may go on with a point and at least one more. -/
def IsNumeral (text : List Char) : Prop :=
  ∃ whole fraction, text = pointed whole fraction ∧ whole ≠ [] ∧
    ∀ c ∈ whole ++ fraction, c.isDigit = true

/-- The digits of a numeral, and how many of them stand after the point. -/
theorem ofNumeral_pointed {whole : List Char} (digits : ∀ c ∈ whole, c.isDigit = true)
    (fraction : List Char) :
    ofNumeral (pointed whole fraction) =
      ⟨Nat.ofDigitChars 10 (whole ++ fraction) 0, -(fraction.length : Int)⟩ := by
  have free : ∀ c ∈ whole, (c != '.') = true := by
    intro c member
    have := digits c member
    rw [bne_iff_ne]
    rintro rfl
    cases this
  cases fraction with
  | nil =>
      have before : whole.takeWhile (· != '.') = whole := List.takeWhile_eq_self_iff.2 free
      have after : whole.dropWhile (· != '.') = [] := List.dropWhile_eq_nil_iff.2 free
      simp [ofNumeral, pointed, before, after]
  | cons c fraction =>
      simp [ofNumeral, pointed, List.takeWhile_append_of_pos free,
        List.dropWhile_append_of_pos free]

/-- A decimal of so many fractional digits is a quotient by that power of ten. -/
theorem word_fractional (digits places : Nat) :
    (⟨digits, -(places : Int)⟩ : Decimal).word = Magnitude.nearest digits (10 ^ places) := by
  cases places with
  | zero => simp [word, quotient]
  | succ places => rfl

/-! ## Writing a decimal -/

/-- Only zeros are trimmed. -/
theorem exists_trimZeros (digits : List Char) :
    ∃ zeros, digits = trimZeros digits ++ List.replicate zeros '0' := by
  have zeros : ∀ c ∈ digits.reverse.takeWhile (· == '0'), c = '0' := by
    intro c member
    simpa using List.mem_takeWhile_imp member
  refine ⟨(digits.reverse.takeWhile (· == '0')).length, ?_⟩
  rw [trimZeros, ← List.reverse_replicate, ← List.eq_replicate_of_mem zeros, ← List.reverse_append,
    List.takeWhile_append_dropWhile, List.reverse_reverse]

/-- The digits around the point, and the zeros trimmed after them, are the digits given, with
zeros in front where there are too few. -/
theorem exists_splitAtPoint (digits : List Char) (places : Nat) :
    ∃ before after whole fraction, splitAtPoint digits places = (whole, fraction) ∧ whole ≠ [] ∧
      whole ++ trimZeros fraction ++ List.replicate after '0' =
        List.replicate before '0' ++ digits ∧
      (trimZeros fraction).length + after = places := by
  let padded := List.replicate (places + 1 - digits.length) '0' ++ digits
  have long : places + 1 ≤ padded.length := by
    simp only [padded, List.length_append, List.length_replicate]
    omega
  obtain ⟨after, trimmed⟩ := exists_trimZeros (padded.drop (padded.length - places))
  refine ⟨places + 1 - digits.length, after, padded.take (padded.length - places),
    padded.drop (padded.length - places), List.splitAt_eq, ?_, ?_, ?_⟩
  · rw [← List.length_pos_iff, List.length_take]
    omega
  · rw [List.append_assoc, ← trimmed, List.take_append_drop]
  · have := congrArg List.length trimmed
    simp only [List.length_append, List.length_replicate, List.length_drop] at this
    omega

theorem isDigit_of_mem_padded {c : Char} {n before after : Nat}
    (member : c ∈ List.replicate before '0' ++ Nat.toDigits 10 n ++ List.replicate after '0') :
    c.isDigit = true := by
  simp only [List.mem_append, List.mem_replicate] at member
  rcases member with (⟨_, rfl⟩ | digit) | ⟨_, rfl⟩
  · rfl
  · exact Nat.isDigit_of_mem_toDigits (by decide) (by decide) digit
  · rfl

theorem ofDigitChars_replicate_append (zeros : Nat) (digits : List Char) :
    Nat.ofDigitChars 10 (List.replicate zeros '0' ++ digits) 0 = Nat.ofDigitChars 10 digits 0 := by
  rw [Nat.ofDigitChars_append, Nat.ofDigitChars_replicate_zero, Nat.mul_zero]

theorem ofDigitChars_append_replicate (digits : List Char) (zeros : Nat) :
    Nat.ofDigitChars 10 (digits ++ List.replicate zeros '0') 0 =
      Nat.ofDigitChars 10 digits 0 * 10 ^ zeros := by
  rw [Nat.ofDigitChars_append, Nat.ofDigitChars_replicate_zero, Nat.mul_comm]

/-- What is written of a decimal: digits around a point, which come to its value. -/
theorem numeral_eq_pointed (d : Decimal) :
    ∃ whole fraction, d.numeral = pointed whole fraction ∧ whole ≠ [] ∧
      (∀ c ∈ whole ++ fraction, c.isDigit = true) ∧
      d.word =
        Magnitude.nearest (Nat.ofDigitChars 10 (whole ++ fraction) 0) (10 ^ fraction.length) := by
  obtain ⟨n, exponent⟩ := d
  have value : Nat.ofDigitChars 10 (Nat.toDigits 10 n) 0 = n :=
    Nat.ofDigitChars_toDigits (by decide) (by decide)
  cases exponent with
  | ofNat zeros =>
      refine ⟨Nat.toDigits 10 n ++ List.replicate zeros '0', [], rfl, ?_, ?_, ?_⟩
      · simp [Nat.toDigits_ne_nil]
      · intro c member
        have padded :
            c ∈ List.replicate 0 '0' ++ Nat.toDigits 10 n ++ List.replicate zeros '0' := by
          simpa using member
        exact isDigit_of_mem_padded padded
      · rw [List.append_nil, ofDigitChars_append_replicate, value]
        rfl
  | negSucc places =>
      obtain ⟨before, after, whole, fraction, split, some, assembled, length⟩ :=
        exists_splitAtPoint (Nat.toDigits 10 n) (places + 1)
      refine ⟨whole, trimZeros fraction, ?_, some, ?_, ?_⟩
      · simp only [numeral, split]
        rfl
      · intro c member
        have padded :
            c ∈ List.replicate before '0' ++ Nat.toDigits 10 n ++ List.replicate 0 '0' := by
          rw [List.replicate_zero, List.append_nil, ← assembled]
          exact List.mem_append_left _ member
        exact isDigit_of_mem_padded padded
      · have scaled :
            Nat.ofDigitChars 10 (whole ++ trimZeros fraction) 0 * 10 ^ after = n := by
          rw [← ofDigitChars_append_replicate, assembled, ofDigitChars_replicate_append, value]
        have pos : 0 < 10 ^ after := Nat.pow_pos (by decide)
        show Magnitude.nearest n (10 ^ (places + 1)) = _
        rw [← length, Nat.pow_add, ← scaled, Magnitude.nearest_mul _ _ pos]

theorem isNumeral_numeral (d : Decimal) : IsNumeral d.numeral := by
  obtain ⟨whole, fraction, text, some, digits, _⟩ := numeral_eq_pointed d
  exact ⟨whole, fraction, text, some, digits⟩

/-- A decimal that is written and read back goes to the same number. -/
theorem word_ofNumeral_numeral (d : Decimal) : (ofNumeral d.numeral).word = d.word := by
  obtain ⟨whole, fraction, text, _, digits, value⟩ := numeral_eq_pointed d
  rw [text, ofNumeral_pointed (fun c member => digits c (List.mem_append_left _ member)),
    word_fractional, value]

/-! ## Writing a number -/

theorem word_le_infinity (d : Decimal) : d.word ≤ Magnitude.infinity :=
  Nat.min_le_left _ _

/-- The word of the number nearest to a decimal. -/
theorem toNat_toBits_toFloat (d : Decimal) : d.toFloat.toBits.toNat = d.word :=
  Binary64.toNat_toBits_ofBits d.word_le_infinity

theorem isNumeral_magnitudeText (word : Nat) : IsNumeral (magnitudeText word) := by
  unfold magnitudeText
  split
  · exact isNumeral_numeral ⟨0, 0⟩
  · exact isNumeral_numeral _

/-- A finite magnitude that is written and read back is the same. -/
theorem word_ofNumeral_magnitudeText {word : Nat} (finite : word < Magnitude.infinity) :
    (ofNumeral (magnitudeText word)).word = word := by
  unfold magnitudeText
  split
  case isTrue zero =>
      subst zero
      have none : ofNumeral ['0'] = ⟨0, -((0 : Nat) : Int)⟩ := rfl
      rw [none]
      exact word_of_units finite (by simp [Magnitude.units])
  case isFalse => rw [word_ofNumeral_numeral, word_shortest finite]

section Float

variable {x : Float} (finite : x.toBits.toNat < Magnitude.infinity)
include finite

theorem toList_floatText : (floatText x).toList = magnitudeText x.toBits.toNat := by
  have low := Nat.lt_trans finite Binary64.infinity_lt
  simp [floatText, Nat.mod_eq_of_lt low, Nat.not_lt_of_gt finite, low, Nat.ne_of_lt finite]

theorem isNumeral_floatText : IsNumeral (floatText x).toList := by
  rw [toList_floatText finite]
  exact isNumeral_magnitudeText _

/-- A finite number with no sign that is written and read back is the same. -/
theorem toFloat_ofNumeral_floatText : (ofNumeral (floatText x).toList).toFloat = x := by
  rw [toFloat, toList_floatText finite, word_ofNumeral_magnitudeText finite, UInt64.ofNat_toNat,
    Float.ofBits_toBits]

end Float

end Lox.Decimal
