/-
# Lox.Piece.Basic -- a text cut into pieces

A text is cut from left to right into non-empty pieces, and every character belongs to one:
strings, comments, newlines, runs of blanks, symbols, words, numbers and stray characters.
`first` gives the shape of the piece that a text begins with and how many characters after
the first belong to it; `segments` cuts a whole text.  `chars_segments` says that nothing is
lost: the pieces joined are the text.
-/

import Lox.Token.Kind

namespace Lox

set_option autoImplicit false

/-- What a piece of text is. -/
inductive Shape where
  /-- A string with both of its quotes. -/
  | quoted
  /-- A quote that is never closed, and all that follows it. -/
  | unclosed
  | blockComment
  | lineComment
  | newline
  | blank
  | symbol (s : Symbol)
  | word
  | number
  /-- A character that begins nothing else. -/
  | stray
deriving DecidableEq, Repr, Inhabited

/-- A piece of text, and the line on which it ends. -/
structure Piece where
  shape : Shape
  chars : List Char
  line : Nat
deriving DecidableEq, Repr, Inhabited

namespace Piece

/-! ## Character classes -/

/-- The characters that only separate: space, tab and carriage return. -/
def isBlank (c : Char) : Bool :=
  c == ' ' || c == '\t' || c == '\r'

/-- The ASCII letters and the underscore begin a word. -/
def isWordStart (c : Char) : Bool :=
  c.isAlpha || c == '_'

/-- The ASCII letters, digits and the underscore continue a word. -/
def isWordChar (c : Char) : Bool :=
  c.isAlphanum || c == '_'

/-! ## The first piece -/

/-- How many characters at the front of a text satisfy `p`. -/
def spanLength (p : Char → Bool) (text : List Char) : Nat :=
  (text.takeWhile p).length

/-- How many characters of a text belong to a block comment around it that holds `inner`
open comments inside its own, when `count` are known to; an opener inside opens one more,
and a closer closes the innermost.  Openers and closers are read from left to right and
share no character.  A comment that stays open takes the whole text.

There may be any number of open comments.  A count of them in 32 bits, one of them for the sign,
says the same as long as fewer than 2 ^ 31 are open at once; `Lox.Proofs.CommentBytes` has that
count. -/
def commentLength (inner count : Nat) : List Char → Nat
  | [] => count
  | '/' :: '*' :: rest => commentLength (inner + 1) (count + 2) rest
  | '*' :: '/' :: rest =>
    match inner with
    | 0 => count + 2
    | inner + 1 => commentLength inner (count + 2) rest
  | _ :: rest => commentLength inner (count + 1) rest

/-- How many characters continue a number after its first digit: digits, then a point and
digits if a digit follows the point. -/
def numberLength (text : List Char) : Nat :=
  let whole := spanLength Char.isDigit text
  match text.drop whole with
  | '.' :: fraction =>
    match spanLength Char.isDigit fraction with
    | 0 => whole
    | digits + 1 => whole + digits + 2
  | _ => whole

/-- The shape of the first piece of `c :: text`, and how many characters of `text` belong
to it. -/
def first (c : Char) (text : List Char) : Shape × Nat :=
  if c = '"' then
    let inside := spanLength (· != '"') text
    if (text.drop inside).isEmpty then (.unclosed, inside) else (.quoted, inside + 1)
  else if c = '\n' then (.newline, 0)
  else if isBlank c then (.blank, spanLength isBlank text)
  else if c = '/' ∧ text.head? = some '/' then (.lineComment, spanLength (· != '\n') text)
  else if c = '/' ∧ text.head? = some '*' then (.blockComment, commentLength 0 1 text.tail)
  else if isWordStart c then (.word, spanLength isWordChar text)
  else if c.isDigit then (.number, numberLength text)
  else
    match Symbol.longest? (c :: text) with
    | some s => (.symbol s, s.chars.length - 1)
    | none => (.stray, 0)

/-! ## All pieces -/

/-- The pieces of a text that begins on `line`, after those already cut (the last first). -/
def segmentsAfter (cut : List Piece) (line : Nat) : List Char → List Piece
  | [] => cut.reverse
  | c :: text =>
    let (shape, more) := first c text
    let chars := c :: text.take more
    let last := line + chars.count '\n'
    segmentsAfter (⟨shape, chars, last⟩ :: cut) last (text.drop more)
termination_by text => text.length

/-- The pieces of a text, which begins on line 1. -/
def segments (text : List Char) : List Piece :=
  segmentsAfter [] 1 text

theorem chars_segmentsAfter (cut : List Piece) (line : Nat) (text : List Char) :
    (segmentsAfter cut line text).flatMap chars = cut.reverse.flatMap chars ++ text := by
  fun_induction segmentsAfter cut line text with
  | case1 => simp
  | case2 cut line c text shape more first chars last ih => simp [ih, chars]

/-- The pieces joined are the text. -/
theorem chars_segments (text : List Char) : (segments text).flatMap chars = text := by
  simp [segments, chars_segmentsAfter]

end Piece

end Lox
