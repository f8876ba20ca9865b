/-
# Lox.Value -- what expressions evaluate to

A value is a binary64 number, a string, a boolean or nil.  `Value.text` is what `print`
writes of it, and `Value.equals` is the language's equality: numbers compare as IEEE 754
says (so NaN differs from itself and the two zeros agree), and values of different types
are never equal.
-/

import Lox.Decimal.Numeral

namespace Lox

set_option autoImplicit false

/-- A value of the language. -/
inductive Value where
  | number (x : Float)
  | string (s : String)
  | boolean (b : Bool)
  | nil
deriving DecidableEq, Repr, Inhabited

namespace Value

/-- What `print` writes, without the newline. -/
def text : Value → String
  | .number x => Decimal.floatText x
  | .string s => s
  | .boolean true => "true"
  | .boolean false => "false"
  | .nil => "nil"

/-- The name of the value's type. -/
def typeName : Value → String
  | .number _ => "number"
  | .string _ => "string"
  | .boolean _ => "boolean"
  | .nil => "nil"

/-- The language's equality. -/
def equals : Value → Value → Bool
  | .number x, .number y => x == y
  | .string s, .string t => s == t
  | .boolean b, .boolean c => b == c
  | .nil, .nil => true
  | _, _ => false

/-! ## Views -/

/-- The number, if the value is one. -/
def number? : Value → Option Float
  | .number x => some x
  | _ => none

/-- The string, if the value is one. -/
def string? : Value → Option String
  | .string s => some s
  | _ => none

/-- The boolean, if the value is one. -/
def boolean? : Value → Option Bool
  | .boolean b => some b
  | _ => none

/-- Whether the value is nil. -/
def isNil : Value → Bool
  | .nil => true
  | _ => false

end Value

end Lox
