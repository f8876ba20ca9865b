/-
# Lox.Decimal.Shortest -- the shortest decimal that reads back

`shortest` takes a finite positive magnitude to the decimal with the fewest digits that
reads back to it, and of those to the nearest.  On the grid of multiples of `10 ^ place` a
magnitude has a neighbour below (or itself) and one above; if any point of the grid reads
back, one of these two does.  The grids are tried from the leading digit's place downward;
seventeen digits suffice for binary64, and after them the whole expansion ends the search.
`word_shortest` says that the answer reads back, for every finite magnitude.
-/

import Lox.Decimal.Basic

namespace Lox.Decimal

set_option autoImplicit false

attribute [local instance(high)] instPowNat

/-- The place of the leading digit: the largest `p` with `10 ^ p` at most the magnitude.  A
magnitude below one is first scaled by a power of ten that brings it to one at least. -/
def leadingPlace (word : Nat) : Int :=
  let units := Magnitude.units word
  let places := Magnitude.unitPlaces - units.log2
  (Nat.toDigits 10 (units * 10 ^ places / 2 ^ Magnitude.unitPlaces)).length - 1 - places

/-- A magnitude over `10 ^ place`, as a quotient of naturals. -/
def scaled (word : Nat) (place : Int) : Nat × Nat :=
  match place with
  | .ofNat p => (Magnitude.units word, 2 ^ Magnitude.unitPlaces * 10 ^ p)
  | .negSucc p => (Magnitude.units word * 10 ^ (p + 1), 2 ^ Magnitude.unitPlaces)

/-- The neighbours of a magnitude on the grid of multiples of `10 ^ place`, the nearer
first; of two equally near ones the upper comes first. -/
def neighbours (word : Nat) (place : Int) : List Decimal :=
  let (num, den) := scaled word place
  let lower : Decimal := ⟨num / den, place⟩
  let upper : Decimal := ⟨num / den + 1, place⟩
  if 2 * (num % den) < den then [lower, upper] else [upper, lower]

/-- The nearest point of a grid that reads back to the magnitude, if the grid has one. -/
def onGrid? (word : Nat) (place : Int) : Option Decimal :=
  (neighbours word place).find? fun d => d.word == word

/-- The whole expansion of a magnitude: `2 ^ -p` is `5 ^ p * 10 ^ -p`. -/
def expansion (word : Nat) : Decimal :=
  ⟨Magnitude.units word * 5 ^ Magnitude.unitPlaces, -(Magnitude.unitPlaces : Int)⟩

/-- The decimal of fewest digits that reads back to the magnitude, nearest to it. -/
def shortest (word : Nat) : Decimal :=
  let place := leadingPlace word
  let found := (List.range 17).findSome? fun (below : Nat) => onGrid? word (place - below)
  found.getD (expansion word)

/-! ## Reading back -/

theorem word_expansion {word : Nat} (finite : word < Magnitude.infinity) :
    (expansion word).word = word :=
  word_of_units finite (by rw [Nat.mul_assoc, ← Nat.mul_pow])

theorem word_of_onGrid? {word : Nat} {place : Int} {d : Decimal}
    (found : onGrid? word place = some d) : d.word = word := by
  simpa using List.find?_some found

/-- The shortest decimal reads back. -/
theorem word_shortest {word : Nat} (finite : word < Magnitude.infinity) :
    (shortest word).word = word := by
  unfold shortest
  simp only
  cases search : (List.range 17).findSome? fun (below : Nat) =>
      onGrid? word (leadingPlace word - below) with
  | none => exact word_expansion finite
  | some d =>
    obtain ⟨below, _, hit⟩ := List.exists_of_findSome?_eq_some search
    exact word_of_onGrid? hit

end Lox.Decimal
