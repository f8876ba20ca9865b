/-
# Lox.Parse.PrefixForm -- trees read back from their prefix form

The reader of prefix form accepts a literal, or in parentheses a head and its operands: the
word `group` takes one operand, `!` takes one, and every binary operator takes two, except
that `-` is the unary operator if the parenthesis closes after its first operand.  The head
is consumed before it is judged.  A tree higher than the bound is refused where its first
node beyond the bound begins.
-/

import Lox.Expr.Level
import Lox.Parse.Basic

namespace Lox.Parse

set_option autoImplicit false

/-- Whether a token is the head of a grouping. -/
def isGroupHead (t : Token) : Bool :=
  t.kind == .identifier && t.lexeme == "group"

/-- Demands the parenthesis that closes a form. -/
def closeForm {tokens : List Token} (r : Read Expr tokens) :
    Except (Fault tokens) (Read Expr tokens) :=
  r.close .rightParen .parenAfterOperandsExpected

/-- Whether a closing parenthesis comes next. -/
def closesNext (tokens : List Token) : Bool :=
  tokens.head?.any (·.is .rightParen)

/-- The operands of a binary operator, or the one operand of a minus sign. -/
def operandsOf (deeper : Reader Expr) (head : Token) : Reader Expr := fun tokens =>
  match deeper tokens with
  | .error fault => .error fault
  | .ok lhs =>
    if head.is .minus && closesNext lhs.rest then .ok (lhs.map (Expr.unary head))
    else
      match lhs.next deeper with
      | .error fault => .error fault
      | .ok rhs => .ok (rhs.map (Expr.binary head lhs.value))

/-- What follows a head, read to the tree with that head; nothing can follow another token. -/
def headed? (deeper : Reader Expr) (head : Token) : Option (Reader Expr) :=
  if isGroupHead head then
    some fun tokens => (deeper tokens).map fun inner => inner.map Expr.grouping
  else if head.is .bang then
    some fun tokens => (deeper tokens).map fun arg => arg.map (Expr.unary head)
  else if head.level?.isSome then some (operandsOf deeper head)
  else none

/-- The head, the operands and the closing parenthesis of a form. -/
def form (deeper : Reader Expr) : Reader Expr
  | [] => stuck .headExpected []
  | head :: rest =>
    match headed? deeper head with
    | none => .error ((one head head rest).refuse .headExpected)
    | some operands =>
      match after head rest operands with
      | .error fault => .error fault
      | .ok node => closeForm node

/-- A literal or a form; `deeper` reads its operands. -/
def prefixNode (deeper : Reader Expr) : Reader Expr
  | [] => stuck .expressionExpected []
  | t :: rest =>
    match t.kind.value? with
    | some value => .ok (one (.literal value) t rest)
    | none =>
      if t.is .leftParen then after t rest (form deeper)
      else stuck .expressionExpected (t :: rest)

/-- A tree in prefix form with room for so many levels. -/
def prefixWithin : Nat → Reader Expr
  | 0, tokens => stuck .tooDeep tokens
  | room + 1, tokens => prefixNode (prefixWithin room) tokens

/-- A tree in prefix form, no higher than the bound, after which the input ends. -/
def prefixExpression (bound : Nat) : Reader Expr := fun tokens =>
  match prefixWithin bound tokens with
  | .error fault => .error fault
  | .ok tree => if tree.rest.isEmpty then .ok tree else tree.next (stuck .endExpected)

end Lox.Parse
