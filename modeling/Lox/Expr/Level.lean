/-
# Lox.Expr.Level -- how tightly operators bind

The binary operators fall into four levels, each of which binds tighter than the one
before; operators of one level associate to the left.  The unary operators bind tighter
than all of them.
-/

import Lox.Token.Basic

namespace Lox

set_option autoImplicit false

/-- The levels of the binary operators, the loosest first. -/
inductive Level where
  | equality
  | comparison
  | term
  | factor
deriving DecidableEq, Repr, Inhabited

/-- The level of a symbol that is a binary operator. -/
def Symbol.level? : Symbol → Option Level
  | .bangEqual | .equalEqual => some .equality
  | .greater | .greaterEqual | .less | .lessEqual => some .comparison
  | .minus | .plus => some .term
  | .slash | .star => some .factor
  | _ => none

/-- The level of a token that is a binary operator. -/
def Token.level? (t : Token) : Option Level :=
  match t.kind with
  | .symbol s => s.level?
  | _ => none

/-- Whether a token is a unary operator. -/
def Token.isUnary (t : Token) : Bool :=
  t.is .bang || t.is .minus

end Lox
