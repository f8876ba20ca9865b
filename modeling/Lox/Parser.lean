/-
# Lox.Parser -- reading several things from one sequence of tokens

A `Parser` stands somewhere in a sequence of tokens and keeps the diagnostics reported so
far.  Each of its operations reads one thing from where it stands; when the tokens do not
allow it, the rejection is reported once and the parser stays where reading stopped.  Nothing
after the first end-of-input token is ever looked at, and the parser never leaves it.
-/

import Lox.Scan
import Lox.Parse.PrefixForm
import Lox.Parse.Program

namespace Lox

set_option autoImplicit false

/-- A syntax fault: the token it is blamed on, and the problem. -/
structure Rejection where
  token : Token
  problem : Problem
deriving DecidableEq, Repr, Inhabited

/-- A rejection as a diagnostic at its token. -/
def Rejection.diagnostic (r : Rejection) : Diagnostic :=
  r.token.diagnose r.problem.message

/-- A place in a sequence of tokens, and what has been reported. -/
structure Parser where
  /-- The tokens not yet consumed, before the end of the input. -/
  ahead : List Token
  /-- The token that stands for the end of the input. -/
  last : Token
  /-- How high a tree may be. -/
  bound : Nat
  reported : List Diagnostic
deriving Repr, Inhabited

namespace Parser

/-- The bound on the height of trees unless another is asked for. -/
def defaultBound : Nat := 128

/-- The token that ends a sequence: its first end-of-input token, or else one on the line of
its last token. -/
def endOf (tokens : List Token) : Token :=
  match tokens.find? Token.isEof with
  | some t => t
  | none => .eof ((tokens.getLast?.map Token.line).getD 1)

/-- A parser at the start of a sequence of tokens. -/
def ofTokens (tokens : List Token) (bound : Nat := defaultBound) : Parser :=
  { ahead := tokens.takeWhile fun t => !t.isEof
    last := endOf tokens
    bound
    reported := [] }

/-- A parser at the start of a text, whose lexical faults have been reported. -/
def ofText (text : String) (bound : Nat := defaultBound) : Parser :=
  let scan := Scan.ofText text
  { ofTokens scan.tokens bound with reported := scan.faults }

/-- The rejection that a fault amounts to. -/
def reject (p : Parser) (problem : Problem) (site : List Token) : Rejection :=
  ⟨site.head?.getD p.last, problem⟩

/-- Reads one thing. -/
def read {α : Type} (p : Parser) (reader : Parse.Reader α) : Except Rejection α × Parser :=
  match reader p.ahead with
  | .ok r => (.ok r.value, { p with ahead := r.rest })
  | .error fault =>
    let rejection := p.reject fault.problem fault.site
    (.error rejection,
      { p with ahead := fault.stop, reported := p.reported ++ [rejection.diagnostic] })

/-- Reads an expression. -/
def expr (p : Parser) : Except Rejection Expr × Parser :=
  p.read (Parse.expression p.bound)

/-- Reads a statement, without recovery. -/
def stmt (p : Parser) : Except Rejection Stmt × Parser :=
  p.read (Parse.statement p.bound)

/-- Reads a tree in prefix form, after which the input must end. -/
def prefixExpr (p : Parser) : Except Rejection Expr × Parser :=
  p.read (Parse.prefixExpression p.bound)

/-- Reads statements to the end of the input.  Those that cannot be read are reported, and
reading goes on at the next statement boundary. -/
def program (p : Parser) : List Stmt × Parser :=
  let attempts := Parse.attempts p.bound p.ahead
  let rejections := attempts.filterMap fun attempt =>
    attempt.failure?.map fun (problem, site) => p.reject problem site
  (attempts.filterMap Parse.Attempt.stmt?,
    { p with
      ahead := []
      reported := p.reported ++ rejections.map Rejection.diagnostic })

end Parser

end Lox
