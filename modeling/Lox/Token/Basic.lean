/-
# Lox.Token.Basic -- tokens

A token is a kind, the text it was made from, and the line on which that text ends.
-/

import Lox.Token.Kind
import Lox.Diagnostic

namespace Lox

set_option autoImplicit false

/-- A lexeme with its kind and line. -/
structure Token where
  kind : Kind
  lexeme : String
  line : Nat
deriving DecidableEq, Repr, Inhabited

namespace Token

/-- A token with the lexeme that its kind fixes, or none. -/
def fixed (kind : Kind) (line : Nat) : Token :=
  ⟨kind, kind.lexeme?.getD "", line⟩

/-- The token that stands for the end of the input. -/
def eof (line : Nat) : Token :=
  ⟨.eof, "", line⟩

/-- The literal that the token carries. -/
def literal (t : Token) : Option Value :=
  t.kind.literal

/-- Whether the token stands for the end of the input. -/
def isEof (t : Token) : Bool :=
  t.kind == .eof

/-- Whether the token is a given symbol. -/
def is (t : Token) (s : Symbol) : Bool :=
  t.kind == .symbol s

/-- Where a diagnostic about the token points. -/
def location (t : Token) : Location :=
  match t.kind with
  | .eof => .atEnd
  | _ => .atLexeme t.lexeme

/-- The token in words: kind, lexeme, and the literal where there is one. -/
def text (t : Token) : String :=
  let named := t.kind.name ++ " " ++ t.lexeme
  match t.literal with
  | some v => named ++ " " ++ v.text
  | none => named

/-- A diagnostic at the token. -/
def diagnose (t : Token) (message : String) : Diagnostic :=
  ⟨t.line, t.location, message⟩

end Token

end Lox
