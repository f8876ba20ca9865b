/-
# Lox.Eval.Basic -- the value of an expression

Evaluation descends to at most `limit` levels of the tree: a node below that is refused.
Operands are evaluated from left to right and before their operator is applied, and the first
fault ends the evaluation.  A fault of an operator names it.  The other faults have no token
of their own, so evaluation keeps a line for them: that of the operator node entered last.
-/

import Lox.Expr.Basic
import Lox.Eval.Operator
import Lox.Sink

namespace Lox

set_option autoImplicit false

/-- What can end the run of a program. -/
inductive RuntimeError where
  | type (op : Token) (fault : TypeFault)
  | nestingTooDeep (line limit : Nat)
  | output (line : Nat) (fault : SinkFault)
deriving DecidableEq, Repr, Inhabited

/-- A run-time error as a diagnostic: at its operator, or else on its line. -/
def RuntimeError.diagnostic : RuntimeError → Diagnostic
  | type op fault => op.diagnose fault.message
  | nestingTooDeep line limit =>
    .onLine line ("Expression nesting exceeds " ++ toString limit ++ " levels.")
  | output line fault => .onLine line ("Cannot write output: " ++ fault.text ++ ".")

/-- What an operator answers, as a step of a run. -/
def Token.outcome (op : Token) : Except TypeFault Value → Except RuntimeError Value
  | .ok value => .ok value
  | .error fault => .error (.type op fault)

/-- The value of an expression with room for so many levels, and the line of the operator
entered last, which was `line` before. -/
def Expr.eval (limit : Nat) (e : Expr) (room line : Nat) : Except RuntimeError Value × Nat :=
  match room with
  | 0 => (.error (.nestingTooDeep line limit), line)
  | room + 1 =>
    match e with
    | .literal value => (.ok value, line)
    | .grouping inner => inner.eval limit room line
    | .unary op arg =>
      match arg.eval limit room op.line with
      | (.ok value, line) => (op.outcome (op.applyUnary value), line)
      | (.error e, line) => (.error e, line)
    | .binary op lhs rhs =>
      match lhs.eval limit room op.line with
      | (.error e, line) => (.error e, line)
      | (.ok left, line) =>
        match rhs.eval limit room line with
        | (.error e, line) => (.error e, line)
        | (.ok right, line) => (op.outcome (op.applyBinary left right), line)

end Lox
