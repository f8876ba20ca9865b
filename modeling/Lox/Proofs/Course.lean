/-
# Lox.Proofs.Course -- runs apart from the interpreter they run on

What a run comes to hangs on the program and on the room that there is for its trees.  The line
that an interpreter keeps decides nothing: it is only told, and the first operator that is
entered takes its place.  So everything there is to a run can be said without an interpreter: its
value, or the node it stops at and why; the operators it enters, in order; and what it writes.

* `Course` -- that much of a run; `Course.andThen` for what is done with its value.
* `Expr.course`, `Stmt.course`, `Stmt.courseAll` -- the courses of trees and of statements.
* `Interpreter.follow` -- what an interpreter makes of a course.
* `Interpreter.evaluate_eq_follow`, `Interpreter.execute_eq_follow`,
  `Interpreter.interpret_eq_follow` -- that is all it does, on a sink that never fails.
-/
import Lox.Proofs.Execution

namespace Lox

set_option autoImplicit false

/-! ## Courses -/

/-- A step from a node of a tree down to an operand. -/
inductive Step where
  | inner
  | arg
  | left
  | right
deriving DecidableEq, Repr

/-- Why an evaluation stops. -/
inductive Stop where
  | tooDeep
  | type (op : Token) (fault : TypeFault)
deriving DecidableEq, Repr

/-- The node that an evaluation stops at, as the steps that lead to it from the root, and why. -/
structure Failure where
  path : List Step
  stop : Stop
deriving DecidableEq, Repr

/-- The error that a failure is told as. -/
def Failure.error (limit line : Nat) (failure : Failure) : RuntimeError :=
  match failure.stop with
  | .tooDeep => .nestingTooDeep line limit
  | .type op fault => .type op fault

@[simp] theorem mapError_ok {α ε ε' : Type} (f : ε → ε') (value : α) :
    (Except.ok value).mapError f = .ok value :=
  rfl

@[simp] theorem mapError_error {α ε ε' : Type} (f : ε → ε') (error : ε) :
    (Except.error error : Except ε α).mapError f = .error (f error) :=
  rfl

/-- What there is to a run apart from the interpreter it runs on. -/
structure Course (α : Type) where
  result : Except Failure α
  /-- The operators that are entered, in order. -/
  entered : List Token := []
  written : ByteArray := .empty

namespace Course

variable {α β : Type}

/-- Nothing happens on the way to the value. -/
def done (value : α) : Course α :=
  { result := .ok value }

/-- The root is where it stops. -/
def stopped (stop : Stop) : Course α :=
  { result := .error ⟨[], stop⟩ }

/-- Goes on with the value, unless there is none. -/
def andThen (c : Course α) (next : α → Course β) : Course β :=
  match c.result with
  | .error failure => ⟨.error failure, c.entered, c.written⟩
  | .ok value =>
    ⟨(next value).result, c.entered ++ (next value).entered, c.written ++ (next value).written⟩

/-- Something else is made of the value. -/
def map (f : α → β) (c : Course α) : Course β :=
  { c with result := c.result.map f }

/-- The course of an operand as its parent sees it. -/
def within (step : Step) (c : Course α) : Course α :=
  { c with result := c.result.mapError fun failure => ⟨step :: failure.path, failure.stop⟩ }

/-- An operator is entered first. -/
def entering (op : Token) (c : Course α) : Course α :=
  { c with entered := op :: c.entered }

theorem andThen_of_ok {c : Course α} {value : α} (found : c.result = .ok value)
    (next : α → Course β) :
    c.andThen next =
      ⟨(next value).result, c.entered ++ (next value).entered,
        c.written ++ (next value).written⟩ := by
  rw [andThen, found]

theorem andThen_of_error {c : Course α} {failure : Failure} (failed : c.result = .error failure)
    (next : α → Course β) : c.andThen next = ⟨.error failure, c.entered, c.written⟩ := by
  rw [andThen, failed]

theorem result_andThen_eq_ok_iff {c : Course α} {next : α → Course β} {value : β} :
    (c.andThen next).result = .ok value ↔
      ∃ a, c.result = .ok a ∧ (next a).result = .ok value := by
  cases came : c.result <;> simp [andThen, came]

/-- A course fails in its first part, or behind it. -/
theorem result_andThen_eq_error_iff {c : Course α} {next : α → Course β} {failure : Failure} :
    (c.andThen next).result = .error failure ↔
      c.result = .error failure ∨ ∃ a, c.result = .ok a ∧ (next a).result = .error failure := by
  cases came : c.result <;> simp [andThen, came]

theorem result_within_eq_ok_iff {step : Step} {c : Course α} {value : α} :
    (c.within step).result = .ok value ↔ c.result = .ok value := by
  cases came : c.result <;> simp [within, came]

theorem result_within_eq_error_iff {step : Step} {c : Course α} {failure : Failure} :
    (c.within step).result = .error failure ↔
      ∃ path, c.result = .error ⟨path, failure.stop⟩ ∧ failure.path = step :: path := by
  cases came : c.result with
  | ok value => simp [within, came]
  | error failure' =>
      obtain ⟨path, stop⟩ := failure
      obtain ⟨path', stop'⟩ := failure'
      simp only [within, came, mapError_error, Except.error.injEq, Failure.mk.injEq]
      constructor
      · rintro ⟨rfl, rfl⟩
        exact ⟨path', ⟨rfl, rfl⟩, rfl⟩
      · rintro ⟨_, ⟨rfl, rfl⟩, rfl⟩
        exact ⟨rfl, rfl⟩

end Course

/-! ## The courses of programs -/

/-- What an operator answers, as a course. -/
def Token.answer (op : Token) : Except TypeFault Value → Course Value
  | .ok value => .done value
  | .error fault => .stopped (.type op fault)

/-- The course of an evaluation with room for so many levels. -/
def Expr.course (e : Expr) (room : Nat) : Course Value :=
  match room with
  | 0 => .stopped .tooDeep
  | room + 1 =>
    match e with
    | .literal value => .done value
    | .grouping inner => (inner.course room).within .inner
    | .unary op arg =>
      .entering op <| ((arg.course room).within .arg).andThen fun value =>
        op.answer (op.applyUnary value)
    | .binary op lhs rhs =>
      .entering op <| ((lhs.course room).within .left).andThen fun left =>
        ((rhs.course room).within .right).andThen fun right =>
          op.answer (op.applyBinary left right)

theorem Expr.course_zero (e : Expr) : e.course 0 = .stopped .tooDeep := by
  cases e <;> rfl

namespace Stmt

/-- The course of a statement, whose value is printed or thrown away. -/
def course (limit : Nat) (stmt : Stmt) : Course Unit :=
  (stmt.expr.course limit).andThen fun value =>
    match stmt with
    | .print _ => { result := .ok (), written := (value.text ++ "\n").toUTF8 }
    | .expression _ => .done ()

/-- The course of statements one behind the other. -/
def courseAll (limit : Nat) : List Stmt → Course Unit
  | [] => .done ()
  | stmt :: rest => (stmt.course limit).andThen fun () => courseAll limit rest

end Stmt

/-! ## Following a course -/

/-- The line of the last of some operators, or the line before them where there is none. -/
def lineAfter (line : Nat) (entered : List Token) : Nat :=
  (entered.getLast?.map Token.line).getD line

theorem lineAfter_cons (line : Nat) (op : Token) (entered : List Token) :
    lineAfter line (op :: entered) = lineAfter op.line entered := by
  simp [lineAfter, List.getLast?_cons]

theorem lineAfter_append (line : Nat) (before after : List Token) :
    lineAfter line (before ++ after) = lineAfter (lineAfter line before) after := by
  cases last : after.getLast? <;> simp [lineAfter, List.getLast?_append, last]

/-- Where an operator was entered, the line before it is forgotten. -/
theorem lineAfter_of_ne_nil {entered : List Token} (some : entered ≠ []) (line line' : Nat) :
    lineAfter line entered = lineAfter line' entered := by
  rw [lineAfter, lineAfter, List.getLast?_eq_some_getLast some]
  rfl

namespace Interpreter

variable {α β : Type} {i : Interpreter}

/-- What an interpreter answers for a course, and what becomes of it: its line is that of the
operator entered last, and the error of a tree that is too deep names it. -/
def follow (i : Interpreter) (c : Course α) : Except RuntimeError α × Interpreter :=
  let line := lineAfter i.line c.entered
  (c.result.mapError (Failure.error i.limit line),
    { i with line, sink := i.sink.holding c.written })

theorem follow_done (i : Interpreter) (value : α) : i.follow (.done value) = (.ok value, i) := by
  simp [follow, Course.done, lineAfter, Sink.holding_empty]

theorem follow_stopped (i : Interpreter) (stop : Stop) :
    i.follow (.stopped stop : Course α) =
      (.error (Failure.error i.limit i.line ⟨[], stop⟩), i) := by
  simp [follow, Course.stopped, lineAfter, Sink.holding_empty]

theorem follow_answer (i : Interpreter) (op : Token) (answer : Except TypeFault Value) :
    i.follow (op.answer answer) = (op.outcome answer, i) := by
  cases answer with
  | ok value => exact i.follow_done value
  | error fault => exact i.follow_stopped (.type op fault)

theorem follow_map (i : Interpreter) (f : α → β) (c : Course α) :
    i.follow (c.map f) = Prod.map (Except.map f) id (i.follow c) := by
  cases came : c.result <;> simp [follow, Course.map, came, Except.map]

/-- Which operand a failure is in is not told. -/
theorem follow_within (i : Interpreter) (step : Step) (c : Course α) :
    i.follow (c.within step) = i.follow c := by
  cases came : c.result <;> simp [follow, Course.within, came, Failure.error]

theorem follow_entering (i : Interpreter) (op : Token) (c : Course α) :
    i.follow (c.entering op) = { i with line := op.line : Interpreter }.follow c := by
  simp [follow, Course.entering, lineAfter_cons]

/-- An interpreter follows the second part of a course from where the first part left it. -/
theorem follow_andThen (i : Interpreter) (c : Course α) (next : α → Course β) :
    i.follow (c.andThen next) =
      match i.follow c with
      | (.ok value, i) => i.follow (next value)
      | (.error e, i) => (.error e, i) := by
  cases came : c.result with
  | error failure => simp [follow, Course.andThen_of_error came, came]
  | ok value =>
      simp [follow, Course.andThen_of_ok came, came, lineAfter_append,
        Sink.holding_holding]

theorem eval_eq_follow (i : Interpreter) (e : Expr) (room : Nat) :
    ((e.eval i.limit room i.line).1, { i with line := (e.eval i.limit room i.line).2 }) =
      i.follow (e.course room) := by
  -- An operand is evaluated by an interpreter that has entered its operator, and the second by
  -- one that has followed the first, so the induction is over any interpreter.
  induction room generalizing i e with
  | zero =>
      rw [e.course_zero, follow_stopped]
      cases e <;> rfl
  | succ room ih =>
      cases e with
      | literal value => exact (i.follow_done value).symm
      | grouping inner =>
          rw [Expr.course, follow_within, ← ih]
          rfl
      | unary op arg =>
          rw [Expr.course, follow_entering, follow_andThen, follow_within, ← ih, Expr.eval]
          obtain ⟨_ | value, line⟩ := arg.eval i.limit room op.line
          · rfl
          · exact (follow_answer ..).symm
      | binary op lhs rhs =>
          rw [Expr.course, follow_entering, follow_andThen, follow_within, ← ih, Expr.eval]
          obtain ⟨_ | left, line⟩ := lhs.eval i.limit room op.line
          · rfl
          · dsimp only
            rw [follow_andThen, follow_within, ← ih]
            dsimp only
            obtain ⟨_ | right, line⟩ := rhs.eval i.limit room line
            · rfl
            · exact (follow_answer ..).symm

/-- Evaluation follows the course of the tree. -/
theorem evaluate_eq_follow (i : Interpreter) (e : Expr) :
    i.evaluate e = i.follow (e.course i.limit) :=
  i.eval_eq_follow e i.limit

theorem boundless_follow (boundless : i.sink.Boundless) (c : Course α) :
    (i.follow c).2.sink.Boundless :=
  boundless.holding c.written

/-- On a sink that never fails, a statement is executed along its course. -/
theorem execute_eq_follow (boundless : i.sink.Boundless) (stmt : Stmt) :
    i.execute stmt = i.follow (stmt.course i.limit) := by
  have stays := boundless_follow boundless (stmt.expr.course i.limit)
  rw [Stmt.course, follow_andThen]
  rw [← evaluate_eq_follow] at stays ⊢
  rcases evaluates : i.evaluate stmt.expr with ⟨_ | value, j⟩
  · simp only [execute, evaluates]
  · rw [evaluates] at stays
    cases stmt with
    | expression e =>
        simp only [execute, evaluates]
        exact (j.follow_done ()).symm
    | print e =>
        simp only [execute, evaluates]
        simp [print, stays.write, follow, lineAfter]

/-- On a sink that never fails, a program is run along its course. -/
theorem interpret_eq_follow (boundless : i.sink.Boundless) (program : List Stmt) :
    i.interpret program = i.follow (Stmt.courseAll i.limit program) := by
  induction program generalizing i with
  | nil => simp [interpret, executeAll, flush, boundless.flush, Stmt.courseAll, follow_done]
  | cons stmt rest ih =>
      have stays := boundless_follow boundless (stmt.course i.limit)
      have limit : (i.follow (stmt.course i.limit)).2.limit = i.limit := rfl
      rw [Stmt.courseAll, follow_andThen, interpret, executeAll, execute_eq_follow boundless]
      rcases came : i.follow (stmt.course i.limit) with ⟨_ | ⟨⟩, j⟩
      · rfl
      · rw [came] at stays limit
        have next := ih stays
        rw [limit] at next
        exact next

end Interpreter

end Lox
