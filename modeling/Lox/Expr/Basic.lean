/-
# Lox.Expr.Basic -- expressions and statements

Expressions are trees whose operators are whole tokens, so that a fault found while one is
evaluated can name the operator and its line.  The tree type admits any token as an operator
and any value as a literal; which trees a text can produce is the parser's business.
-/

import Lox.Token.Basic

namespace Lox

set_option autoImplicit false

/-- An expression tree. -/
inductive Expr where
  | literal (value : Value)
  | grouping (inner : Expr)
  | unary (op : Token) (arg : Expr)
  | binary (op : Token) (lhs rhs : Expr)
deriving DecidableEq, Repr, Inhabited

/-- How many nodes lie on the longest path from the root. -/
def Expr.height : Expr → Nat
  | .literal _ => 1
  | .grouping inner => inner.height + 1
  | .unary _ arg => arg.height + 1
  | .binary _ lhs rhs => max lhs.height rhs.height + 1

theorem Expr.height_pos (e : Expr) : 0 < e.height := by
  cases e <;> simp [height]

/-- A statement: an expression to evaluate, and perhaps to print. -/
inductive Stmt where
  | print (value : Expr)
  | expression (value : Expr)
deriving DecidableEq, Repr, Inhabited

namespace Stmt

/-- The expression of a statement. -/
def expr : Stmt → Expr
  | .print value | .expression value => value

/-- The short name of a statement's form. -/
def formName : Stmt → String
  | .print _ => "print"
  | .expression _ => "expr"

end Stmt

end Lox
