/-
# Lox.Proofs.Binary64 -- numbers and the words they are kept in

A binary64 number is kept as a word of 64 bits: a sign, eleven bits of exponent and 52 of
significand.  A number is made from any word, but all words of a NaN make the same number.

* `toNat_toBits_ofBits` -- a word up to infinity's is that of the number made from it.
* `isFinite_iff` -- the finite numbers are those whose word, less the sign, is below that of
  infinity.

That unpacking a word and packing it again gives the word back is `pack_unpack_of_valid`, which
comes with the whole of Mathlib and with none of its files alone; hence the import of the whole.
-/
import Mathlib
import Lox.Decimal.Basic

namespace Lox.Binary64

set_option autoImplicit false

open Float.Model (Format)
open Float.Model.UnpackedFloat

attribute [local instance(high)] instPowNat

/-! ## The fields of a word -/

section Fields

variable (b : BitVec Format.binary64.numBits)

theorem toNat_unpackExponent : (unpackExponent b).toNat = b.toNat / 2 ^ (52 : Nat) % 2048 := by
  simp [unpackExponent, Nat.shiftRight_eq_div_pow]

theorem toNat_unpackMantissa : (unpackMantissa b).toNat = b.toNat % 2 ^ (52 : Nat) := by
  simp [unpackMantissa]

/-- An exponent of ones stands apart: its words are at infinity or beyond. -/
theorem unpackExponent_eq_ones_iff :
    unpackExponent b = -1#_ ↔ Magnitude.infinity ≤ b.toNat % 2 ^ (63 : Nat) := by
  have same : unpackExponent b = -1#_ ↔ b.toNat / 2 ^ (52 : Nat) % 2048 = 2047 := by
    rw [← toNat_unpackExponent]
    exact BitVec.toNat_inj.symm
  rw [same, Magnitude.infinity]
  omega

end Fields

/-! ## Numbers -/

theorem infinity_lt : Magnitude.infinity < 2 ^ (63 : Nat) := by
  decide

/-- The words up to infinity's are those of the numbers that they stand for. -/
theorem toNat_toBits_ofBits {word : Nat} (low : word ≤ Magnitude.infinity) :
    (Float.ofBits (UInt64.ofNat word)).toBits.toNat = word := by
  have inside : word < 2 ^ (64 : Nat) := by
    have := infinity_lt
    omega
  have same : (UInt64.ofNat word).toBitVec.toNat = word := UInt64.toNat_ofNat_of_lt' inside
  have valid : Format.binary64.Valid (UInt64.ofNat word).toBitVec := by
    refine ⟨fun special some => absurd ?_ some⟩
    have high := (unpackExponent_eq_ones_iff _).1 special
    apply BitVec.eq_of_toNat_eq
    rw [toNat_unpackMantissa]
    simp only [Magnitude.infinity] at low high
    show _ = 0
    omega
  show (pack .binary64 (unpack .binary64 (UInt64.ofNat word).toBitVec)).toNat = word
  rw [pack_unpack_of_valid valid, same]

/-- A number is finite if its word, less the sign, is below that of infinity. -/
theorem isFinite_iff (x : Float) :
    x.isFinite = true ↔ x.toBits.toNat % 2 ^ (63 : Nat) < Magnitude.infinity := by
  have special := unpackExponent_eq_ones_iff x.toBits.toBitVec
  have finite : x.isFinite = true ↔ @unpackExponent .binary64 x.toBits.toBitVec ≠ -1#_ := by
    show (unpack .binary64 x.toBits.toBitVec).isFinite = true ↔ _
    unfold unpack
    dsimp only
    split
    case isTrue ones => split <;> simp [isFinite, ones]
    case isFalse ones =>
        simp only [ne_eq, ones, not_false_eq_true, iff_true]
        split
        case isTrue => split <;> rfl
        case isFalse => rfl
  rw [finite, ne_eq, special, Nat.not_le]
  rfl

end Lox.Binary64
