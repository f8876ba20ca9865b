/-
# Lox.Eval.Operator -- what the operators do to values

Every operator asks for certain types of operands and answers with a value, or with a fault
that says what it asked for.  Whether it answers depends on the operator and on the types
alone: no number and no string makes a difference.
-/

import Lox.Token.Basic

namespace Lox

set_option autoImplicit false

/-- What an operator can find wrong with its operands, or that it is no operator at all. -/
inductive TypeFault where
  | negation
  | logicalNot
  | addition
  | subtraction
  | multiplication
  | division
  | comparison
  | notUnary
  | notBinary
deriving DecidableEq, Repr, Inhabited

/-- The wording of a type fault. -/
def TypeFault.message : TypeFault → String
  | negation => "Operand of negation must be a number."
  | logicalNot => "Operand of logical not must be a boolean."
  | addition => "Operands of addition must be two numbers or include a string."
  | subtraction => "Operands of subtraction must be numbers."
  | multiplication => "Operands of multiplication must be numbers."
  | division => "Operands of division must be numbers."
  | comparison => "Operands of comparison must be numbers."
  | notUnary => "Invalid unary operator."
  | notBinary => "Invalid binary operator."

namespace Value

/-- The number with its sign turned. -/
def negate : Value → Except TypeFault Value
  | .number x => .ok (.number (-x))
  | _ => .error .negation

/-- The other boolean. -/
def complement : Value → Except TypeFault Value
  | .boolean b => .ok (.boolean !b)
  | _ => .error .logicalNot

/-- The sum of two numbers, or, with a string on either side, the two texts joined. -/
def add (lhs rhs : Value) : Except TypeFault Value :=
  match lhs, rhs with
  | .number x, .number y => .ok (.number (x + y))
  | .string s, v => .ok (.string (s ++ v.text))
  | v, .string s => .ok (.string (v.text ++ s))
  | _, _ => .error .addition

/-- A function of two numbers. -/
def numeric (fault : TypeFault) (f : Float → Float → Value) (lhs rhs : Value) :
    Except TypeFault Value :=
  match lhs, rhs with
  | .number x, .number y => .ok (f x y)
  | _, _ => .error fault

end Value

namespace Token

/-- Applies the token as a unary operator. -/
def applyUnary (op : Token) (arg : Value) : Except TypeFault Value :=
  match op.kind with
  | .symbol .minus => arg.negate
  | .symbol .bang => arg.complement
  | _ => .error .notUnary

/-- Applies the token as a binary operator. -/
def applyBinary (op : Token) (lhs rhs : Value) : Except TypeFault Value :=
  match op.kind with
  | .symbol .plus => lhs.add rhs
  | .symbol .minus => Value.numeric .subtraction (fun x y => .number (x - y)) lhs rhs
  | .symbol .star => Value.numeric .multiplication (fun x y => .number (x * y)) lhs rhs
  | .symbol .slash => Value.numeric .division (fun x y => .number (x / y)) lhs rhs
  | .symbol .greater => Value.numeric .comparison (fun x y => .boolean (y < x)) lhs rhs
  | .symbol .greaterEqual => Value.numeric .comparison (fun x y => .boolean (y ≤ x)) lhs rhs
  | .symbol .less => Value.numeric .comparison (fun x y => .boolean (x < y)) lhs rhs
  | .symbol .lessEqual => Value.numeric .comparison (fun x y => .boolean (x ≤ y)) lhs rhs
  | .symbol .equalEqual => .ok (.boolean (lhs.equals rhs))
  | .symbol .bangEqual => .ok (.boolean !lhs.equals rhs)
  | _ => .error .notBinary

end Token

end Lox
