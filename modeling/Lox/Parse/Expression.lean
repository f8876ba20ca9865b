/-
# Lox.Parse.Expression -- expressions within a bound on their height

An expression is read level by level: each level of binary operators folds operands of the
next tighter level to the left, and the operands of the tightest are literals, groupings and
unary operators before such operands.  No tree higher than the bound is built.  A node that
would be too high is refused at its operator, or at the parenthesis that closes it; and since
groupings and unary operators are read by recursion, one that would leave no room for an
operand is refused before the operand, where the tree would be too high in any case.
-/

import Lox.Expr.Level
import Lox.Parse.Basic

namespace Lox.Parse

set_option autoImplicit false

/-- Accepts a node that is no higher than the bound, and otherwise blames `site`, where its
operator or its closing parenthesis stands. -/
def bounded {tokens : List Token} (bound : Nat) (node : Read Expr tokens) (site : List Token)
    (stop_suffix : node.rest <:+ site) (site_suffix : site <:+ tokens) :
    Except (Fault tokens) (Read Expr tokens) :=
  if node.value.height ≤ bound then .ok node
  else .error ⟨.tooDeep, site, node.rest, stop_suffix, site_suffix⟩

/-! ## Binary operators -/

/-- Reads on after a left operand: as long as an operator of the level follows, its right
operand is read and the two become the new left operand. -/
def foldLeft (bound : Nat) (level : Level) (operand : Reader Expr) {tokens : List Token}
    (left : Read Expr tokens) : Except (Fault tokens) (Read Expr tokens) :=
  match found : left.rest with
  | [] => .ok left
  | op :: rest =>
    have within : op :: rest <:+ tokens := found ▸ left.suffix
    if op.level? = some level then
      match operand rest with
      | .error fault => .error (fault.widen ((List.suffix_cons op rest).trans within))
      | .ok right =>
        let beyond := right.suffix.trans (List.suffix_cons op rest)
        let node : Read Expr tokens :=
          ⟨.binary op left.value right.value, right.rest, beyond.trans within, by
            have := right.shorter
            have := within.length_le
            simp only [List.length_cons] at this
            omega⟩
        if node.value.height ≤ bound then foldLeft bound level operand node
        else .error ⟨.tooDeep, op :: rest, node.rest, beyond, within⟩
    else .ok left
termination_by left.rest.length
decreasing_by
  have := right.shorter
  simp only [found, List.length_cons]
  show right.rest.length < rest.length + 1
  omega

/-- Operands joined by the operators of one level, folded to the left. -/
def leftAssociative (bound : Nat) (level : Level) (operand : Reader Expr) : Reader Expr :=
  fun tokens =>
    match operand tokens with
    | .error fault => .error fault
    | .ok left => foldLeft bound level operand left

/-- Operands joined by any binary operators, the tighter levels first. -/
def levels (bound : Nat) (operand : Reader Expr) : Reader Expr :=
  leftAssociative bound .equality <|
    leftAssociative bound .comparison <|
      leftAssociative bound .term <|
        leftAssociative bound .factor operand

/-! ## Operands -/

/-- Demands the parenthesis that closes a grouping. -/
def closeGrouping {tokens : List Token} (bound : Nat) (inner : Read Expr tokens) :
    Except (Fault tokens) (Read Expr tokens) :=
  match found : inner.rest with
  | [] => inner.next (stuck .parenAfterExpressionExpected)
  | t :: rest =>
    have within : t :: rest <:+ tokens := found ▸ inner.suffix
    if t.is .rightParen then
      bounded bound ((one (.grouping inner.value) t rest).widen within) (t :: rest)
        (List.suffix_cons t rest) within
    else inner.next (stuck .parenAfterExpressionExpected)

/-- A literal, a grouping, or a unary operator with its operand; `deeper` reads the operands
one level further in. -/
def operand (bound : Nat) (deeper : Reader Expr) : Reader Expr
  | [] => stuck .expressionExpected []
  | t :: rest =>
    if t.isUnary then
      match after t rest deeper with
      | .error fault => .error fault
      | .ok arg => bounded bound (arg.map (Expr.unary t)) (t :: rest) arg.suffix List.suffix_rfl
    else
      match t.kind.value? with
      | some value => .ok (one (.literal value) t rest)
      | none =>
        if t.is .leftParen then
          match after t rest (levels bound deeper) with
          | .error fault => .error fault
          | .ok inner => closeGrouping bound inner
        else stuck .expressionExpected (t :: rest)

/-- An operand with room for so many levels of trees; with none, it is refused unread. -/
def operandWithin (bound : Nat) : Nat → Reader Expr
  | 0, tokens => stuck .tooDeep tokens
  | room + 1, tokens => operand bound (operandWithin bound room) tokens

/-- An expression no higher than the bound. -/
def expression (bound : Nat) : Reader Expr :=
  levels bound (operandWithin bound bound)

end Lox.Parse
