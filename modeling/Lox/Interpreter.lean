/-
# Lox.Interpreter -- running programs

An interpreter holds the sink that `print` writes to and the line of the operator entered
last; neither a failure nor the end of a program resets them.  A program runs statement by
statement until one fails, and the sink is flushed once if none did.
-/

import Lox.Eval.Basic

namespace Lox

set_option autoImplicit false

/-- The state in which programs run. -/
structure Interpreter where
  /-- How many levels of a tree evaluation descends to. -/
  limit : Nat := 1024
  /-- The line of the operator entered last. -/
  line : Nat := 1
  sink : Sink := {}
deriving Inhabited

namespace Interpreter

/-- Evaluates an expression. -/
def evaluate (i : Interpreter) (e : Expr) : Except RuntimeError Value × Interpreter :=
  let (result, line) := e.eval i.limit i.limit i.line
  (result, { i with line })

/-- Writes a value and a newline to the sink. -/
def print (i : Interpreter) (value : Value) : Except RuntimeError Unit × Interpreter :=
  match i.sink.write (value.text ++ "\n").toUTF8 with
  | (.ok (), sink) => (.ok (), { i with sink })
  | (.error fault, sink) => (.error (.output i.line fault), { i with sink })

/-- Executes a statement. -/
def execute (i : Interpreter) (stmt : Stmt) : Except RuntimeError Unit × Interpreter :=
  match i.evaluate stmt.expr, stmt with
  | (.error e, i), _ => (.error e, i)
  | (.ok value, i), .print _ => i.print value
  | (.ok _, i), .expression _ => (.ok (), i)

/-- Executes statements until one fails. -/
def executeAll (i : Interpreter) : List Stmt → Except RuntimeError Unit × Interpreter
  | [] => (.ok (), i)
  | stmt :: rest =>
    match i.execute stmt with
    | (.error e, i) => (.error e, i)
    | (.ok (), i) => i.executeAll rest

/-- Flushes the sink. -/
def flush (i : Interpreter) : Except RuntimeError Unit :=
  match i.sink.flush with
  | .ok () => .ok ()
  | .error fault => .error (.output i.line fault)

/-- Runs a program: its statements, and a flush if none failed. -/
def interpret (i : Interpreter) (program : List Stmt) : Except RuntimeError Unit × Interpreter :=
  match i.executeAll program with
  | (.error e, i) => (.error e, i)
  | (.ok (), i) => (i.flush, i)

end Interpreter

end Lox
