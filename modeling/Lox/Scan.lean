/-
# Lox.Scan -- the tokens and lexical faults of a text

Each piece of a text is skipped, makes a token, or is a fault; neither a fault nor a skipped
piece stops the others.  The tokens end with the one that stands for the end of the input,
on the text's last line.
-/

import Lox.Piece.Basic
import Lox.Token.Basic

namespace Lox

set_option autoImplicit false

/-- What can be wrong with a piece of text. -/
inductive LexicalFault where
  | unterminatedString
  | unexpectedCharacter
  | numberOutOfRange
deriving DecidableEq, Repr, Inhabited

/-- The wording of a lexical fault. -/
def LexicalFault.message : LexicalFault → String
  | unterminatedString => "Unterminated string."
  | unexpectedCharacter => "Unexpected character."
  | numberOutOfRange => "Number literal out of range."

/-- What a piece of text comes to. -/
inductive Meaning where
  | skipped
  | token (kind : Kind)
  | fault (fault : LexicalFault)
deriving DecidableEq, Repr, Inhabited

namespace Piece

/-- A word is a keyword if it equals one. -/
def wordKind (word : List Char) : Kind :=
  match Keyword.ofChars? word with
  | some k => .keyword k
  | none => .identifier

/-- The text of a string between its quotes. -/
def unquoted (chars : List Char) : String :=
  String.ofList (chars.drop 1).dropLast

/-- What a piece comes to. -/
def meaning (p : Piece) : Meaning :=
  match p.shape with
  | .quoted => .token (.string (some (.string (unquoted p.chars))))
  | .unclosed => .fault .unterminatedString
  | .blockComment | .lineComment | .newline | .blank => .skipped
  | .symbol s => .token (.symbol s)
  | .word => .token (wordKind p.chars)
  | .number =>
    let x := (Decimal.ofNumeral p.chars).toFloat
    if x.isFinite then .token (.number (some (.number x))) else .fault .numberOutOfRange
  | .stray => .fault .unexpectedCharacter

/-- The token of a piece, with the piece as its lexeme. -/
def token? (p : Piece) : Option Token :=
  match p.meaning with
  | .token kind => some ⟨kind, String.ofList p.chars, p.line⟩
  | _ => none

/-- The diagnostic of a piece that is a fault. -/
def diagnostic? (p : Piece) : Option Diagnostic :=
  match p.meaning with
  | .fault fault => some (.onLine p.line fault.message)
  | _ => none

end Piece

/-- The tokens of a text and the diagnostics of its lexical faults, both in order. -/
structure Scan where
  tokens : List Token
  faults : List Diagnostic
deriving Repr, Inhabited

/-- The tokens and lexical faults of a text. -/
def Scan.ofText (text : String) : Scan :=
  let pieces := Piece.segments text.toList
  { tokens := pieces.filterMap Piece.token? ++ [Token.eof (1 + text.toList.count '\n')]
    faults := pieces.filterMap Piece.diagnostic? }

end Lox
