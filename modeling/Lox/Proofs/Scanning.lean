/-
# Lox.Proofs.Scanning -- scanning piece by piece

A text is scanned from left to right, and what its front comes to hangs on the characters
just behind it only: a word or a numeral ends where something stands that cannot continue it.

* `Reads` -- the front of a text comes to some tokens and to no fault, whatever the rest is.
* `Reads.append` -- fronts one behind the other.
* `reads_symbol`, `reads_word`, `reads_string`, `reads_numeral`, `reads_blank` -- the pieces
  that trees are written with.
-/
import Lox.Scan
import Lox.Proofs.Numeral

namespace Lox

set_option autoImplicit false

/-! ## Cutting -/

namespace Piece

theorem segmentsAfter_eq_append (cut : List Piece) (line : Nat) (text : List Char) :
    segmentsAfter cut line text = cut.reverse ++ segmentsAfter [] line text := by
  induction n : text.length using Nat.strongRecOn generalizing cut line text with
  | ind n ih =>
      subst n
      cases text with
      | nil => simp [segmentsAfter]
      | cons c text =>
          have shorter : (text.drop (first c text).2).length < (c :: text).length := by
            simp only [List.length_drop, List.length_cons]
            omega
          rw [segmentsAfter, segmentsAfter]
          simp only
          rw [ih _ shorter (_ :: cut) _ _ rfl, ih _ shorter [_] _ _ rfl]
          simp

/-- The first piece, and then the others. -/
theorem segmentsAfter_cons {c : Char} {tail rest : List Char} {shape : Shape}
    (cut : first c (tail ++ rest) = (shape, tail.length)) (line : Nat) :
    segmentsAfter [] line (c :: (tail ++ rest)) =
      ⟨shape, c :: tail, line + (c :: tail).count '\n'⟩ ::
        segmentsAfter [] (line + (c :: tail).count '\n') rest := by
  rw [segmentsAfter]
  simp only [cut, List.take_left, List.drop_left]
  exact segmentsAfter_eq_append [_] _ _

theorem spanLength_append {p : Char → Bool} {front rest : List Char}
    (inside : ∀ c ∈ front, p c = true) (outside : ∀ c ∈ rest.head?, p c = false) :
    spanLength p (front ++ rest) = front.length := by
  rw [spanLength, List.takeWhile_append_of_pos inside]
  cases rest with
  | nil => simp
  | cons c rest => simp [outside c rfl]

end Piece

/-! ## Scanning -/

namespace Scan

open Piece

/-- What a text that begins on `line` comes to, without the end of the input. -/
def ofChars (line : Nat) (text : List Char) : Scan :=
  { tokens := (segmentsAfter [] line text).filterMap token?
    faults := (segmentsAfter [] line text).filterMap diagnostic? }

/-- A whole text begins on line 1, and the end of the input stands on its last line. -/
theorem ofText_eq_ofChars (text : String) :
    ofText text =
      { tokens := (ofChars 1 text.toList).tokens ++ [.eof (1 + text.toList.count '\n')]
        faults := (ofChars 1 text.toList).faults } :=
  rfl

/-- Some tokens in front of what a text comes to. -/
def behind (tokens : List Token) (scan : Scan) : Scan :=
  { scan with tokens := tokens ++ scan.tokens }

@[simp] theorem ofChars_nil (line : Nat) : ofChars line [] = ⟨[], []⟩ := by
  simp [ofChars, segmentsAfter]

/-- In front of the rest, a text that begins on `line` comes to the tokens and to no fault. -/
def Reads (line : Nat) (text : List Char) (tokens : List Token) (rest : List Char) : Prop :=
  ofChars line (text ++ rest) = (ofChars (line + text.count '\n') rest).behind tokens

theorem Reads.append {line : Nat} {text text' rest : List Char} {tokens tokens' : List Token}
    (front : Reads line text tokens (text' ++ rest))
    (next : Reads (line + text.count '\n') text' tokens' rest) :
    Reads line (text ++ text') (tokens ++ tokens') rest := by
  unfold Reads at *
  rw [List.append_assoc, front, next, List.count_append, Nat.add_assoc]
  simp [behind]

/-- One piece that makes a token. -/
theorem reads_token {c : Char} {tail rest : List Char} {shape : Shape} {kind : Kind} {line : Nat}
    (cut : first c (tail ++ rest) = (shape, tail.length))
    (means : ∀ line, (⟨shape, c :: tail, line⟩ : Piece).meaning = .token kind) :
    Reads line (c :: tail) [⟨kind, String.ofList (c :: tail), line + (c :: tail).count '\n'⟩]
      rest := by
  unfold Reads ofChars
  rw [List.cons_append, segmentsAfter_cons cut]
  simp [behind, token?, diagnostic?, means]

/-- A run of blanks is skipped. -/
theorem ofChars_of_isBlank {c : Char} (blank : isBlank c = true) (line : Nat) (rest : List Char) :
    ofChars line (c :: rest) = ofChars line (rest.dropWhile isBlank) := by
  have whole := List.takeWhile_append_dropWhile (p := isBlank) (l := rest)
  have cut : first c (rest.takeWhile isBlank ++ rest.dropWhile isBlank) =
      (.blank, (rest.takeWhile isBlank).length) := by
    rw [whole]
    simp only [isBlank, Bool.or_eq_true, beq_iff_eq] at blank
    rcases blank with (rfl | rfl) | rfl <;> rfl
  have newlines : (c :: rest.takeWhile isBlank).count '\n' = 0 := by
    rw [List.count_eq_zero, List.mem_cons]
    rintro (rfl | member)
    · cases blank
    · cases List.mem_takeWhile_imp member
  unfold ofChars
  conv => lhs; rw [← whole, segmentsAfter_cons cut, newlines]
  rfl

/-- A blank only separates. -/
theorem reads_blank {c : Char} (blank : isBlank c = true) (line : Nat) (rest : List Char) :
    Reads line [c] [] rest := by
  have flat : [c].count '\n' = 0 := by
    rw [List.count_eq_zero, List.mem_singleton]
    rintro rfl
    cases blank
  show ofChars line (c :: rest) = ofChars (line + [c].count '\n') rest
  rw [ofChars_of_isBlank blank, flat, Nat.add_zero]
  cases rest with
  | nil => rfl
  | cons c rest =>
      by_cases blank : isBlank c = true
      · rw [ofChars_of_isBlank blank, List.dropWhile_cons, if_pos blank]
      · rw [List.dropWhile_cons, if_neg blank]

/-- A parenthesis, which starts no longer symbol. -/
theorem reads_leftParen (line : Nat) (rest : List Char) :
    Reads line ['('] [.fixed (.symbol .leftParen) line] rest :=
  reads_token rfl fun _ => rfl

theorem reads_rightParen (line : Nat) (rest : List Char) :
    Reads line [')'] [.fixed (.symbol .rightParen) line] rest :=
  reads_token rfl fun _ => rfl

/-- The text ends, or goes on with a blank or a closing parenthesis. -/
def Ends (rest : List Char) : Prop :=
  ∀ c ∈ rest.head?, c = ' ' ∨ c = ')'

theorem Ends.outside {rest : List Char} (ends : Ends rest) {p : Char → Bool}
    (blank : p ' ' = false) (paren : p ')' = false) : ∀ c ∈ rest.head?, p c = false := by
  intro c next
  rcases ends c next with rfl | rfl
  · exact blank
  · exact paren

/-- A symbol that ends there, so that no longer one stands in its place. -/
theorem reads_symbol (s : Symbol) {rest : List Char} (ends : Ends rest) (line : Nat) :
    Reads line s.chars [.fixed (.symbol s) line] rest := by
  cases rest with
  | nil => cases s <;> exact reads_token rfl fun _ => rfl
  | cons c rest =>
      obtain rfl | rfl := ends c rfl
      · cases s <;> exact reads_token rfl fun _ => rfl
      · cases s <;> exact reads_token rfl fun _ => rfl

/-- A whole word. -/
theorem reads_word {c : Char} {tail rest : List Char} (ends : Ends rest)
    (start : ∀ text, first c text = (.word, spanLength isWordChar text))
    (inside : tail.all isWordChar = true) (line : Nat) :
    Reads line (c :: tail)
      [⟨wordKind (c :: tail), String.ofList (c :: tail), line + (c :: tail).count '\n'⟩] rest := by
  have cut : first c (tail ++ rest) = (.word, tail.length) := by
    rw [start, spanLength_append (List.all_eq_true.1 inside) (ends.outside rfl rfl)]
  exact reads_token cut fun _ => rfl

/-- A string, which ends at its own quote. -/
theorem reads_string {inside : List Char} (free : '"' ∉ inside) (line : Nat) (rest : List Char) :
    Reads line ('"' :: (inside ++ ['"']))
      [⟨.string (some (.string (String.ofList inside))), String.ofList ('"' :: (inside ++ ['"'])),
        line + ('"' :: (inside ++ ['"'])).count '\n'⟩] rest := by
  have span : spanLength (· != '"') (inside ++ '"' :: rest) = inside.length := by
    refine spanLength_append (fun c member => bne_iff_ne.2 ?_) (by simp)
    rintro rfl
    exact free member
  have cut : first '"' (inside ++ ['"'] ++ rest) = (.quoted, (inside ++ ['"']).length) := by
    simp [first, span]
  exact reads_token cut fun line => by simp [meaning, unquoted]

/-! ## Numbers -/

theorem numberLength_pointed {whole fraction rest : List Char} (ends : Ends rest)
    (digits : ∀ c ∈ whole ++ fraction, c.isDigit = true) :
    numberLength (Decimal.pointed whole fraction ++ rest) =
      (Decimal.pointed whole fraction).length := by
  have inside : ∀ c ∈ whole, c.isDigit = true := by
    intro c member
    exact digits c (List.mem_append_left _ member)
  have inside' : ∀ c ∈ fraction, c.isDigit = true := by
    intro c member
    exact digits c (List.mem_append_right _ member)
  have beyond := spanLength_append inside' (ends.outside (p := Char.isDigit) rfl rfl)
  cases fraction with
  | nil =>
      have span := spanLength_append inside (ends.outside (p := Char.isDigit) rfl rfl)
      simp only [numberLength, Decimal.pointed, span, List.drop_left]
      cases rest with
      | nil => rfl
      | cons c rest => rcases ends c rfl with rfl | rfl <;> rfl
  | cons c fraction =>
      have span :
          spanLength Char.isDigit (whole ++ '.' :: (c :: fraction ++ rest)) = whole.length :=
        spanLength_append inside (by simp)
      simp only [numberLength, Decimal.pointed, List.append_assoc, List.cons_append]
        at span beyond ⊢
      rw [span, List.drop_left]
      simp only [beyond]
      simp
      omega

theorem first_of_isDigit {c : Char} (digit : c.isDigit = true) (text : List Char) :
    first c text = (.number, numberLength text) := by
  obtain ⟨low, high⟩ := Char.isDigit_iff_toNat.1 digit
  have plain : ∀ n, n < 58 → 48 ≤ n → Char.ofNat n ≠ '"' ∧ Char.ofNat n ≠ '\n' ∧
      isBlank (Char.ofNat n) = false ∧ Char.ofNat n ≠ '/' ∧ isWordStart (Char.ofNat n) = false := by
    decide
  obtain ⟨quote, newline, blank, slash, word⟩ := plain c.toNat (Nat.lt_succ_of_le high) low
  rw [Char.ofNat_toNat] at quote newline blank slash word
  simp [first, quote, newline, blank, slash, word, digit]

/-- A whole numeral that is in range. -/
theorem reads_numeral {text rest : List Char} (ends : Ends rest) (shape : Decimal.IsNumeral text)
    (finite : (Decimal.ofNumeral text).toFloat.isFinite = true) (line : Nat) :
    Reads line text
      [⟨.number (some (.number (Decimal.ofNumeral text).toFloat)), String.ofList text,
        line + text.count '\n'⟩] rest := by
  obtain ⟨whole, fraction, rfl, some, digits⟩ := shape
  cases whole with
  | nil => exact absurd rfl some
  | cons c whole =>
      have length := numberLength_pointed ends fun d member =>
        digits d (List.mem_cons_of_mem c member)
      have front : Decimal.pointed (c :: whole) fraction = c :: Decimal.pointed whole fraction := by
        cases fraction <;> rfl
      have cut : first c (Decimal.pointed whole fraction ++ rest) =
          (.number, (Decimal.pointed whole fraction).length) := by
        rw [first_of_isDigit (digits c List.mem_cons_self), length]
      rw [front] at finite ⊢
      exact reads_token cut fun line => by simp [meaning, finite]

end Scan

end Lox
