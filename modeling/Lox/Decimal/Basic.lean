/-
# Lox.Decimal.Basic -- decimals, binary64 magnitudes, and the nearest one

A `Decimal` is `digits * 10 ^ exponent`.  A finite binary64 magnitude is a whole number of
units of `2 ^ -1074`; its word (the 63 bits below the sign) grows with it.

* `Magnitude.units` -- the units that a word stands for.
* `Magnitude.nearest` -- the word nearest to a quotient of naturals.  A tie goes to the even
  word, and a quotient beyond the largest finite magnitude goes to the word of infinity, as
  IEEE 754 lays down for reading a decimal.
* `Magnitude.nearest_of_units` -- a quotient that is a finite magnitude goes to its word.
* `Decimal.toFloat` -- the number nearest to a decimal.
-/

namespace Lox

set_option autoImplicit false

-- The powers of naturals are core's, whatever other powers are in scope.
attribute [local instance(high)] instPowNat

/-- The number `digits * 10 ^ exponent`. -/
structure Decimal where
  digits : Nat
  exponent : Int
deriving DecidableEq, Repr, Inhabited

/-! ## Magnitudes -/

namespace Magnitude

/-- The word of infinity: the words below it are the finite magnitudes. -/
def infinity : Nat := 2047 * 2 ^ (52 : Nat)

/-- A unit is `2 ^ -unitPlaces`, the smallest positive magnitude. -/
def unitPlaces : Nat := 1074

/-- How many units a finite word stands for: the low 52 bits count units
directly while the exponent field is zero; above that they lack their leading bit and are
scaled by the field. -/
def units (word : Nat) : Nat :=
  let hidden := 2 ^ (52 : Nat)
  if word < hidden then word else (hidden + word % hidden) <<< (word / hidden - 1)

/-- The natural number nearest to `num / den`; halfway between two goes to the even one. -/
def roundHalfEven (num den : Nat) : Nat :=
  let whole := num / den
  match compare (2 * (num % den)) den with
  | .lt => whole
  | .eq => whole + whole % 2
  | .gt => whole + 1

/-- The word nearest to `num / den`.  With `scale` low bits dropped the quotient has 53
bits, or none are dropped and it has at most 53; a significand that rounds up to 54 bits
carries into the exponent field, where it belongs. -/
def nearest (num den : Nat) : Nat :=
  let units := num <<< unitPlaces
  let scale := (units / den).log2 - 52
  min infinity (scale * 2 ^ (52 : Nat) + roundHalfEven units (den <<< scale))

theorem roundHalfEven_mul (n den : Nat) (pos : 0 < den) : roundHalfEven (n * den) den = n := by
  have below : compare 0 den = .lt := Nat.compare_eq_lt.2 pos
  simp [roundHalfEven, below, Nat.mul_div_cancel n pos]

theorem log2_mul_two_pow (n k : Nat) (nonzero : n ≠ 0) : (n * 2 ^ k).log2 = n.log2 + k := by
  induction k with
  | zero => simp
  | succ k ih =>
    have pos : n * 2 ^ k ≠ 0 := Nat.mul_ne_zero nonzero (by simp)
    rw [Nat.pow_succ, ← Nat.mul_assoc, Nat.mul_comm _ 2, Nat.log2_two_mul pos, ih, Nat.add_assoc]

/-- The units of a word are a significand and a scale, and the word is put together from
the same two. -/
theorem exists_significand (word : Nat) :
    ∃ significand, units word = significand * 2 ^ ((units word).log2 - 52) ∧
      ((units word).log2 - 52) * 2 ^ (52 : Nat) + significand = word := by
  by_cases small : word < 2 ^ (52 : Nat)
  · have same : units word = word := if_pos small
    have low : word.log2 - 52 = 0 := by
      by_cases zero : word = 0
      · simp [zero]
      · have := (Nat.log2_lt zero).2 small
        omega
    exact ⟨word, by simp [same, low], by simp [same, low]⟩
  · have value : units word =
        (2 ^ (52 : Nat) + word % 2 ^ (52 : Nat)) * 2 ^ (word / 2 ^ (52 : Nat) - 1) := by
      rw [units, if_neg small, Nat.shiftLeft_eq]
    have log : (2 ^ (52 : Nat) + word % 2 ^ (52 : Nat)).log2 = 52 := by
      have : word % 2 ^ (52 : Nat) < 2 ^ (52 : Nat) := Nat.mod_lt _ (by decide)
      rw [Nat.log2_eq_iff (by omega)]
      omega
    have scale : (units word).log2 - 52 = word / 2 ^ (52 : Nat) - 1 := by
      rw [value, log2_mul_two_pow _ _ (by omega), log]
      omega
    refine ⟨2 ^ (52 : Nat) + word % 2 ^ (52 : Nat), by rw [scale, value], ?_⟩
    rw [scale]
    omega

/-- A quotient that is a finite magnitude goes to the word of that magnitude. -/
theorem nearest_of_units {word num den : Nat} (pos : 0 < den) (finite : word < infinity)
    (exact : num * 2 ^ unitPlaces = units word * den) : nearest num den = word := by
  obtain ⟨significand, value, whole⟩ := exists_significand word
  have shifted : num <<< unitPlaces = units word * den := by rw [Nat.shiftLeft_eq, exact]
  have quotient : units word * den / den = units word := Nat.mul_div_cancel _ pos
  have scaled : units word * den = significand * (den <<< ((units word).log2 - 52)) := by
    rw [Nat.shiftLeft_eq]
    conv => lhs; rw [value]
    rw [Nat.mul_assoc, Nat.mul_comm (2 ^ _) den]
  have rounded :
      roundHalfEven (units word * den) (den <<< ((units word).log2 - 52)) = significand := by
    rw [scaled, roundHalfEven_mul]
    rw [Nat.shiftLeft_eq]
    exact Nat.mul_pos pos (Nat.two_pow_pos _)
  simp only [nearest, shifted, quotient, rounded, whole]
  omega

end Magnitude

/-! ## Reading a decimal -/

namespace Decimal

/-- A decimal as a quotient of naturals: numerator and denominator. -/
def quotient (d : Decimal) : Nat × Nat :=
  match d.exponent with
  | .ofNat places => (d.digits * 10 ^ places, 1)
  | .negSucc places => (d.digits, 10 ^ (places + 1))

/-- The magnitude word nearest to a decimal. -/
def word (d : Decimal) : Nat :=
  Magnitude.nearest d.quotient.1 d.quotient.2

/-- A decimal with `places` fractional digits that is a finite magnitude reads as that
magnitude. -/
theorem word_of_units {word digits places : Nat} (finite : word < Magnitude.infinity)
    (exact : digits * 2 ^ Magnitude.unitPlaces = Magnitude.units word * 10 ^ places) :
    (⟨digits, -(places : Int)⟩ : Decimal).word = word := by
  cases places with
  | zero => exact Magnitude.nearest_of_units Nat.one_pos finite (by simpa [quotient] using exact)
  | succ places => exact Magnitude.nearest_of_units (Nat.pow_pos (by decide)) finite exact

/-- The binary64 number nearest to a decimal. -/
def toFloat (d : Decimal) : Float :=
  Float.ofBits (UInt64.ofNat d.word)

end Decimal

end Lox
