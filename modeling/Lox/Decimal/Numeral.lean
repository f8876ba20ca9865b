/-
# Lox.Decimal.Numeral -- numbers written out

Numerals are positional: digits, and a point between the whole and the fractional digits
where there are fractional ones; no exponent is ever written.  `Decimal.numeral` writes a
decimal, `Decimal.ofNumeral` reads one, and `Decimal.floatText` is the text of any binary64
number: the shortest numeral that reads back, after a minus sign where the sign bit is set,
or `inf`, `-inf`, `NaN`.
-/

import Lox.Decimal.Shortest

namespace Lox.Decimal

set_option autoImplicit false

attribute [local instance(high)] instPowNat

/-! ## Writing -/

/-- Digits without the zeros they end in. -/
def trimZeros (digits : List Char) : List Char :=
  (digits.reverse.dropWhile (· == '0')).reverse

/-- Digits cut before the last `places` of them, with zeros in front where there are too
few, so that at least one stays before the cut. -/
def splitAtPoint (digits : List Char) (places : Nat) : List Char × List Char :=
  let padded := List.replicate (places + 1 - digits.length) '0' ++ digits
  padded.splitAt (padded.length - places)

/-- The positional text of a decimal; fractional digits do not end in a zero. -/
def numeral (d : Decimal) : List Char :=
  let digits := Nat.toDigits 10 d.digits
  match d.exponent with
  | .ofNat zeros => digits ++ List.replicate zeros '0'
  | .negSucc places =>
    let (whole, fraction) := splitAtPoint digits (places + 1)
    match trimZeros fraction with
    | [] => whole
    | fraction => whole ++ '.' :: fraction

/-- The text of a magnitude that is not zero and not infinite is its shortest numeral. -/
def magnitudeText (word : Nat) : List Char :=
  if word = 0 then ['0'] else (shortest word).numeral

/-- The text of a binary64 number. -/
def floatText (x : Float) : String :=
  let bits := x.toBits.toNat
  let word := bits % 2 ^ (63 : Nat)
  if word > Magnitude.infinity then "NaN"
  else
    let sign := if bits < 2 ^ (63 : Nat) then [] else ['-']
    let size := if word = Magnitude.infinity then ['i', 'n', 'f'] else magnitudeText word
    String.ofList (sign ++ size)

/-! ## Reading -/

/-- The decimal that digits with at most one point among them stand for. -/
def ofNumeral (text : List Char) : Decimal :=
  let whole := text.takeWhile (· != '.')
  let fraction := (text.dropWhile (· != '.')).drop 1
  ⟨Nat.ofDigitChars 10 (whole ++ fraction) 0, -(fraction.length : Int)⟩

end Lox.Decimal
