/-
# Lox.Expr.Form -- trees written out

A tree has two written forms.  In prefix form every operator stands before its operands in
parentheses, and a grouping is written with the head `group`, so that the tree can be read
back.  In postfix form operators follow their operands and nothing else is written, so
groupings disappear.  Strings stand in quotes, in both forms just as they are.
-/

import Lox.Expr.Basic

namespace Lox

set_option autoImplicit false

/-- A literal as it stands in a written tree. -/
def Value.literalText : Value → String
  | .string s => "\"" ++ s ++ "\""
  | v => v.text

namespace Expr

/-- The two ways to write a tree. -/
inductive Form where
  | prefixForm
  | postfixForm
deriving DecidableEq, Repr, Inhabited

/-- A tree with operators before their operands, in parentheses. -/
def prefixText : Expr → String
  | .literal value => value.literalText
  | .grouping inner => "(group " ++ inner.prefixText ++ ")"
  | .unary op arg => "(" ++ op.lexeme ++ " " ++ arg.prefixText ++ ")"
  | .binary op lhs rhs =>
    "(" ++ op.lexeme ++ " " ++ lhs.prefixText ++ " " ++ rhs.prefixText ++ ")"

/-- A tree with operators after their operands. -/
def postfixText : Expr → String
  | .literal value => value.literalText
  | .grouping inner => inner.postfixText
  | .unary op arg => arg.postfixText ++ " " ++ op.lexeme
  | .binary op lhs rhs => lhs.postfixText ++ " " ++ rhs.postfixText ++ " " ++ op.lexeme

/-- A tree written in a given form. -/
def text (form : Form) (e : Expr) : String :=
  match form with
  | .prefixForm => e.prefixText
  | .postfixForm => e.postfixText

end Expr

end Lox
