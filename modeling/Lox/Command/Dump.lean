/-
# Lox.Command.Dump -- tokens and trees shown before a run

The token dump lists every token with its line in four columns, and is made of any text.  The
tree dump lists every statement with its form in five columns, and is made only of a text
without faults.
-/

import Lox.Command.Request
import Lox.Session

namespace Lox.Command

set_option autoImplicit false

/-- A text with blanks before it up to a width. -/
def padLeft (width : Nat) (text : String) : String :=
  String.ofList (text.toList.leftpad width ' ')

/-- A text with blanks after it up to a width. -/
def padRight (width : Nat) (text : String) : String :=
  String.ofList (text.toList.rightpad width ' ')

/-- The dump of tokens. -/
def tokenDump (tokens : List Token) : String :=
  "== tokens ==\n" ++
    String.join (tokens.map fun t => padLeft 4 (toString t.line) ++ " " ++ t.text ++ "\n")

/-- The dump of a program's trees. -/
def treeDump (form : Expr.Form) (program : List Stmt) : String :=
  "== ast ==\n" ++
    String.join (program.map fun s => padRight 5 s.formName ++ " " ++ s.expr.text form ++ "\n")

/-- All that is dumped of a text before it runs. -/
def Options.dump (o : Options) (text : String) : String :=
  let tokens := if o.dumpTokens then tokenDump (Scan.ofText text).tokens else ""
  let trees :=
    match o.dumpTrees with
    | none => ""
    | some form =>
      match programOfText o.maxDepth text with
      | .ok program => treeDump form program
      | .error _ => ""
  tokens ++ trees

end Lox.Command
