/-
# Lox.Proofs.Depth -- counting the levels that evaluation is in

Evaluation is handed the room that is left below a node.  It may as well count for itself: the
count goes up for a node and down again behind it, and a node is refused when the count has
reached the limit.  For that the count has to be put back wherever an evaluation ends, in an
operand that fails as well as behind the last operator.  It is: at whatever count an evaluation
starts, it comes to what it does with the room left by that count, and leaves the count alone.

* `Counting` -- an interpreter with a count of its own, and its operations.
* `Counting.evaluate_eq` -- evaluation at any count.
* `Counting.evaluate_mk`, `Counting.execute_mk`, `Counting.interpret_mk` -- an interpreter that
  is asked to do something does the same whether it counts or not.
-/
import Lox.Interpreter

namespace Lox

set_option autoImplicit false

/-- An interpreter that counts how many levels of a tree its evaluation is in. -/
structure Counting extends Interpreter where
  depth : Nat := 0

namespace Counting

/-! ## Operations -/

/-- One level further down. -/
def down (c : Counting) : Counting :=
  { c with depth := c.depth + 1 }

/-- One level up again. -/
def up (c : Counting) : Counting :=
  { c with depth := c.depth - 1 }

/-- With another line. -/
def onLine (c : Counting) (line : Nat) : Counting :=
  { c with line }

/-- Evaluates an expression, one level further down unless the limit is reached, and goes up
again whatever came of it. -/
def evaluate (c : Counting) (e : Expr) : Except RuntimeError Value × Counting :=
  if c.limit ≤ c.depth then (.error (.nestingTooDeep c.line c.limit), c)
  else
    Prod.map id up <|
      match e with
      | .literal value => (.ok value, c.down)
      | .grouping inner => c.down.evaluate inner
      | .unary op arg =>
        match (c.down.onLine op.line).evaluate arg with
        | (.ok value, c) => (op.outcome (op.applyUnary value), c)
        | (.error e, c) => (.error e, c)
      | .binary op lhs rhs =>
        match (c.down.onLine op.line).evaluate lhs with
        | (.error e, c) => (.error e, c)
        | (.ok left, c) =>
          match c.evaluate rhs with
          | (.error e, c) => (.error e, c)
          | (.ok right, c) => (op.outcome (op.applyBinary left right), c)

/-- Executes a statement. -/
def execute (c : Counting) (stmt : Stmt) : Except RuntimeError Unit × Counting :=
  match c.evaluate stmt.expr, stmt with
  | (.error e, c), _ => (.error e, c)
  | (.ok value, c), .print _ =>
    let (result, i) := c.toInterpreter.print value
    (result, { c with toInterpreter := i })
  | (.ok _, c), .expression _ => (.ok (), c)

/-- Executes statements until one fails. -/
def executeAll (c : Counting) : List Stmt → Except RuntimeError Unit × Counting
  | [] => (.ok (), c)
  | stmt :: rest =>
    match c.execute stmt with
    | (.error e, c) => (.error e, c)
    | (.ok (), c) => c.executeAll rest

/-- Runs a program: its statements, and a flush if none failed. -/
def interpret (c : Counting) (program : List Stmt) : Except RuntimeError Unit × Counting :=
  match c.executeAll program with
  | (.error e, c) => (.error e, c)
  | (.ok (), c) => (c.flush, c)

/-! ## Evaluation at any count -/

theorem evaluate_of_full {c : Counting} (full : c.limit - c.depth = 0) (e : Expr) :
    c.evaluate e = (.error (.nestingTooDeep c.line c.limit), c) := by
  cases e <;> rw [evaluate, if_pos (Nat.le_of_sub_eq_zero full)]

/-- While there is room, the limit is not reached; one level further down there is less. -/
theorem free_of_room {c : Counting} {room : Nat} (left : c.limit - c.depth = room + 1) :
    ¬ c.limit ≤ c.depth ∧ c.limit - (c.depth + 1) = room := by
  omega

/-- The count at which an evaluation starts stands for the room it has, and is put back. -/
theorem evaluate_eq {c : Counting} {room : Nat} (left : c.limit - c.depth = room) (e : Expr) :
    c.evaluate e =
      ((e.eval c.limit room c.line).1, c.onLine (e.eval c.limit room c.line).2) := by
  -- Operands are evaluated one level further down, so the induction is over any count.
  induction room generalizing c e with
  | zero =>
      rw [evaluate_of_full left]
      cases e <;> rfl
  | succ room ih =>
      obtain ⟨free, below⟩ := free_of_room left
      have operand (line : Nat) (e : Expr) :
          (c.down.onLine line).evaluate e =
            ((e.eval c.limit room line).1, c.down.onLine (e.eval c.limit room line).2) :=
        ih below e
      cases e with
      | literal value =>
          rw [evaluate, if_neg free]
          rfl
      | grouping inner =>
          rw [evaluate, if_neg free, show c.down = c.down.onLine c.line from rfl, operand]
          rfl
      | unary op arg =>
          rw [evaluate, if_neg free, operand, Expr.eval]
          obtain ⟨_ | value, line⟩ := arg.eval c.limit room op.line <;> rfl
      | binary op lhs rhs =>
          rw [evaluate, if_neg free, operand, Expr.eval]
          obtain ⟨_ | left, line⟩ := lhs.eval c.limit room op.line
          · rfl
          · dsimp only
            rw [operand]
            obtain ⟨_ | right, line⟩ := rhs.eval c.limit room line <;> rfl

/-! ## Calls from outside -/

theorem evaluate_mk (i : Interpreter) (e : Expr) :
    (⟨i, 0⟩ : Counting).evaluate e = ((i.evaluate e).1, ⟨(i.evaluate e).2, 0⟩) :=
  evaluate_eq rfl e

theorem execute_mk (i : Interpreter) (stmt : Stmt) :
    (⟨i, 0⟩ : Counting).execute stmt = ((i.execute stmt).1, ⟨(i.execute stmt).2, 0⟩) := by
  unfold execute Interpreter.execute
  rw [evaluate_mk]
  obtain ⟨_ | value, j⟩ := i.evaluate stmt.expr
  · rfl
  · cases stmt <;> rfl

theorem executeAll_mk (i : Interpreter) (program : List Stmt) :
    (⟨i, 0⟩ : Counting).executeAll program =
      ((i.executeAll program).1, ⟨(i.executeAll program).2, 0⟩) := by
  induction program generalizing i with
  | nil => rfl
  | cons stmt rest ih =>
      rw [executeAll, Interpreter.executeAll, execute_mk]
      obtain ⟨_ | ⟨⟩, j⟩ := i.execute stmt
      · rfl
      · exact ih j

theorem interpret_mk (i : Interpreter) (program : List Stmt) :
    (⟨i, 0⟩ : Counting).interpret program =
      ((i.interpret program).1, ⟨(i.interpret program).2, 0⟩) := by
  rw [interpret, Interpreter.interpret, executeAll_mk]
  obtain ⟨_ | ⟨⟩, j⟩ := i.executeAll program <;> rfl

end Counting

end Lox
