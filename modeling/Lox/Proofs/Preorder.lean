/-
# Lox.Proofs.Preorder -- the order in which evaluation gets to the nodes of a tree

An interpreter keeps the line of the operator it entered last and never puts an earlier one back,
so what it keeps hangs on all of the way so far.  That way can be told from the tree alone.
Evaluation gets to a node before its operands and to the left operand before the right one: it
goes through the tree in pre-order, up to the end if there is a value, and otherwise, where it
lacks room, up to the first node that is one level too far down.

* `Position`, `Expr.preorder` -- the nodes of a tree in pre-order; `Expr.operators` -- those that
  are operators.
* `Expr.entered_eq_operators`, `Expr.exists_refused` -- the operators that are entered on the way to
  a value, and to a node that is refused.
* `Stmt.latestLine`, `Interpreter.executeAll_line` -- statements one behind the other.
* `Interpreter.OutputFails` -- where a run loses its output.
* `Interpreter.line_of_last_operator` -- the line of every error without a token.
-/
import Lox.Proofs.Typing

namespace Lox

set_option autoImplicit false

/-! ## Pre-order -/

/-- A node of a tree: the steps that lead to it from the root, and the part of the tree there. -/
structure Position where
  path : List Step
  node : Expr
deriving DecidableEq, Repr

namespace Position

/-- The level of a node; that of the root is 1. -/
def level (p : Position) : Nat :=
  p.path.length + 1

/-- A node of an operand as a node of the tree around it. -/
def below (step : Step) (p : Position) : Position :=
  { p with path := step :: p.path }

/-- The operators among some nodes, in their order. -/
def operators (nodes : List Position) : List Token :=
  nodes.filterMap fun p => p.node.operator?

theorem operators_append (front back : List Position) :
    operators (front ++ back) = operators front ++ operators back :=
  List.filterMap_append

/-- Where a node stands makes it no other operator. -/
theorem operators_below (step : Step) (nodes : List Position) :
    operators (nodes.map (below step)) = operators nodes :=
  List.filterMap_map

end Position

namespace Expr

open Course Position

/-- The nodes of a tree in pre-order: the root, then those of the left operand, then those of the
right one. -/
def preorder : Expr → List Position
  | e@(.literal _) => [⟨[], e⟩]
  | e@(.grouping inner) => ⟨[], e⟩ :: inner.preorder.map (below .inner)
  | e@(.unary _ arg) => ⟨[], e⟩ :: arg.preorder.map (below .arg)
  | e@(.binary _ lhs rhs) =>
    ⟨[], e⟩ :: (lhs.preorder.map (below .left) ++ rhs.preorder.map (below .right))

/-- The root comes first. -/
theorem preorder_eq_cons (e : Expr) : e.preorder = ⟨[], e⟩ :: e.preorder.tail := by
  cases e <;> rfl

/-- The operators of a tree in pre-order. -/
def operators (e : Expr) : List Token :=
  Position.operators e.preorder

theorem operators_grouping (inner : Expr) : (grouping inner).operators = inner.operators :=
  operators_below .inner inner.preorder

theorem operators_unary (op : Token) (arg : Expr) :
    (unary op arg).operators = op :: arg.operators :=
  congrArg (op :: ·) (operators_below .arg arg.preorder)

theorem operators_binary (op : Token) (lhs rhs : Expr) :
    (binary op lhs rhs).operators = op :: (lhs.operators ++ rhs.operators) := by
  show op :: Position.operators (_ ++ _) = _
  rw [operators_append, operators_below, operators_below]
  rfl

/-- An operator that answers is not entered again. -/
theorem entered_answer (op : Token) (answer : Except TypeFault Value) :
    (op.answer answer).entered = [] := by
  cases answer <;> rfl

/-- The path leads to the node, which is no further down than the tree is high. -/
theorem at?_of_mem_preorder {e : Expr} {p : Position} (member : p ∈ e.preorder) :
    e.at? p.path = some p.node ∧ p.level ≤ e.height := by
  induction e generalizing p with
  | literal value =>
      obtain rfl := List.mem_singleton.1 member
      exact ⟨rfl, Nat.le_refl 1⟩
  | grouping inner ih =>
      obtain rfl | inside := List.mem_cons.1 member
      · exact ⟨rfl, Nat.le_add_left ..⟩
      · obtain ⟨q, among, rfl⟩ := List.mem_map.1 inside
        exact (ih among).imp id Nat.succ_le_succ
  | unary op arg ih =>
      obtain rfl | inside := List.mem_cons.1 member
      · exact ⟨rfl, Nat.le_add_left ..⟩
      · obtain ⟨q, among, rfl⟩ := List.mem_map.1 inside
        exact (ih among).imp id Nat.succ_le_succ
  | binary op lhs rhs left right =>
      obtain rfl | inside := List.mem_cons.1 member
      · exact ⟨rfl, Nat.le_add_left ..⟩
      · rcases List.mem_append.1 inside with inLeft | inRight
        · obtain ⟨q, among, rfl⟩ := List.mem_map.1 inLeft
          obtain ⟨found, low⟩ := left among
          exact ⟨found, Nat.succ_le_succ (Nat.le_trans low (Nat.le_max_left ..))⟩
        · obtain ⟨q, among, rfl⟩ := List.mem_map.1 inRight
          obtain ⟨found, low⟩ := right among
          exact ⟨found, Nat.succ_le_succ (Nat.le_trans low (Nat.le_max_right ..))⟩

/-! ## How far evaluation gets -/

/-- On the way to a value every operator is entered, in pre-order. -/
theorem entered_eq_operators {e : Expr} {room : Nat} {value : Value}
    (done : (e.course room).result = .ok value) : (e.course room).entered = e.operators := by
  induction room generalizing e value with
  | zero =>
      rw [e.course_zero] at done
      cases done
  | succ room ih =>
      cases e with
      | literal value => rfl
      | grouping inner =>
          rw [operators_grouping]
          exact ih (result_within_eq_ok_iff.1 done)
      | unary op arg =>
          obtain ⟨v, found, applied⟩ := result_andThen_eq_ok_iff.1 done
          rw [course, operators_unary, ← ih (result_within_eq_ok_iff.1 found), andThen_of_ok found]
          simp [entering, within, entered_answer]
      | binary op lhs rhs =>
          obtain ⟨left, foundLeft, behind⟩ := result_andThen_eq_ok_iff.1 done
          obtain ⟨right, foundRight, applied⟩ := result_andThen_eq_ok_iff.1 behind
          rw [course, operators_binary, ← ih (result_within_eq_ok_iff.1 foundLeft),
            ← ih (result_within_eq_ok_iff.1 foundRight), andThen_of_ok foundLeft,
            andThen_of_ok foundRight]
          simp [entering, within, entered_answer]

/-- With so much room, this is the first node in pre-order that there is none for; the ones before
it are given. -/
structure Refused (e : Expr) (room : Nat) (before : List Position) (refused : Position) :
    Prop where
  split : ∃ behind, e.preorder = before ++ refused :: behind
  first : ∀ p ∈ before, p.level ≤ room
  level : refused.level = room + 1

/-- What is refused in an operand is refused in the tree, behind what comes before the operand. -/
theorem Refused.below {e operand : Expr} {room : Nat} {before front : List Position}
    {refused : Position} (inside : operand.Refused room before refused) (step : Step)
    (order : ∃ back, e.preorder = front ++ (operand.preorder.map (.below step) ++ back))
    (fits : ∀ p ∈ front, p.level ≤ room + 1) :
    e.Refused (room + 1) (front ++ before.map (.below step)) (refused.below step) where
  split := by
    obtain ⟨back, order⟩ := order
    obtain ⟨behind, split⟩ := inside.split
    exact ⟨behind.map (.below step) ++ back, by simp [order, split]⟩
  first p member := by
    rcases List.mem_append.1 member with early | late
    · exact fits p early
    · obtain ⟨q, among, rfl⟩ := List.mem_map.1 late
      exact Nat.succ_le_succ (inside.first q among)
  level := congrArg Nat.succ inside.level

/-- Where room is lacking, evaluation got to the first node that there is none for, and the
operators before it were entered. -/
theorem exists_refused {e : Expr} {room : Nat} {path : List Step}
    (deep : (e.course room).result = .error ⟨path, .tooDeep⟩) :
    ∃ before node, e.Refused room before ⟨path, node⟩ ∧
      (e.course room).entered = Position.operators before := by
  induction room generalizing e path with
  | zero =>
      rw [e.course_zero] at deep ⊢
      cases deep
      exact ⟨[], e, ⟨⟨_, e.preorder_eq_cons⟩, by simp, rfl⟩, rfl⟩
  | succ room ih =>
      have root : ∀ p ∈ [(⟨[], e⟩ : Position)], p.level ≤ room + 1 := by
        simp [Position.level]
      cases e with
      | literal value => cases deep
      | grouping inner =>
          obtain ⟨path, inside, rfl⟩ := result_within_eq_error_iff.1 deep
          obtain ⟨before, node, refused, entered⟩ := ih inside
          refine ⟨_, node, refused.below .inner ⟨[], by simp [preorder]⟩ root, ?_⟩
          rw [operators_append, operators_below, ← entered]
          rfl
      | unary op arg =>
          obtain inArg | ⟨value, -, applied⟩ := result_andThen_eq_error_iff.1 deep
          · obtain ⟨path, inside, rfl⟩ := result_within_eq_error_iff.1 inArg
            obtain ⟨before, node, refused, entered⟩ := ih inside
            refine ⟨_, node, refused.below .arg ⟨[], by simp [preorder]⟩ root, ?_⟩
            rw [operators_append, operators_below, ← entered, course, andThen_of_error inArg]
            rfl
          · exact absurd ⟨_, applied⟩ (not_tooDeep_answer op _)
      | binary op lhs rhs =>
          obtain inLeft | ⟨left, found, behind⟩ := result_andThen_eq_error_iff.1 deep
          · obtain ⟨path, inside, rfl⟩ := result_within_eq_error_iff.1 inLeft
            obtain ⟨before, node, refused, entered⟩ := ih inside
            refine ⟨_, node, refused.below .left ⟨_, by rw [preorder]; rfl⟩ root, ?_⟩
            rw [operators_append, operators_below, ← entered, course, andThen_of_error inLeft]
            rfl
          · obtain inRight | ⟨right, -, applied⟩ := result_andThen_eq_error_iff.1 behind
            · obtain ⟨path, inside, rfl⟩ := result_within_eq_error_iff.1 inRight
              obtain ⟨before, node, refused, entered⟩ := ih inside
              have done := result_within_eq_ok_iff.1 found
              -- The left operand has a value, so there was room for all of it.
              have fits : ∀ p ∈ (⟨[], binary op lhs rhs⟩ : Position) ::
                  lhs.preorder.map (.below .left), p.level ≤ room + 1 := by
                refine List.forall_mem_cons.2 ⟨root _ List.mem_cons_self, fun p member => ?_⟩
                obtain ⟨q, among, rfl⟩ := List.mem_map.1 member
                have low := (at?_of_mem_preorder among).2
                exact Nat.succ_le_succ (Nat.le_trans low (height_le_of_course_eq_ok done))
              refine ⟨_, node, refused.below .right ⟨[], by simp [preorder]⟩ fits, ?_⟩
              have order : Position.operators (⟨[], binary op lhs rhs⟩ ::
                  lhs.preorder.map (.below .left)) = op :: (lhs.course room).entered := by
                rw [entered_eq_operators done]
                exact congrArg (op :: ·) (operators_below .left lhs.preorder)
              rw [operators_append, operators_below, order, ← entered, course,
                andThen_of_ok found, andThen_of_error inRight]
              rfl
            · exact absurd ⟨_, applied⟩ (not_tooDeep_answer op _)

end Expr

/-! ## Statements one behind the other -/

/-- The line of the last operator of the latest of some statements that has an operator, or the
line before them where none has. -/
def Stmt.latestLine (line : Nat) (stmts : List Stmt) : Nat :=
  ((stmts.reverse.findSome? fun stmt => stmt.expr.operators.getLast?).map Token.line).getD line

theorem Stmt.latestLine_eq_lineAfter (line : Nat) (stmts : List Stmt) :
    latestLine line stmts = lineAfter line (stmts.flatMap fun stmt => stmt.expr.operators) := by
  rw [latestLine, lineAfter, List.getLast?_flatMap]

theorem Stmt.latestLine_append (line : Nat) (before after : List Stmt) :
    latestLine line (before ++ after) = latestLine (latestLine line before) after := by
  simp only [latestLine_eq_lineAfter, List.flatMap_append, lineAfter_append]

theorem Stmt.latestLine_singleton (line : Nat) (stmt : Stmt) :
    latestLine line [stmt] = lineAfter line stmt.expr.operators := by
  rw [latestLine_eq_lineAfter, List.flatMap_singleton]

namespace Interpreter

open Stmt

variable {i j : Interpreter}

/-- Evaluation to a value leaves the line of the last operator of the tree. -/
theorem line_of_eval {e : Expr} {value : Value} {line : Nat}
    (evaluates : e.eval i.limit i.limit i.line = (.ok value, line)) :
    line = lineAfter i.line e.operators := by
  have followed := i.eval_eq_follow e i.limit
  rw [evaluates] at followed
  have done := follow_eq_ok_iff.1 (congrArg Prod.fst followed).symm
  have kept : line = lineAfter i.line (e.course i.limit).entered :=
    congrArg (fun came => came.2.line) followed
  rw [kept, Expr.entered_eq_operators done]

/-- A tree that cannot be evaluated is not told as lost output. -/
theorem eval_ne_output {e : Expr} {line line' : Nat} {fault : SinkFault} :
    e.eval i.limit i.limit i.line ≠ (.error (.output line fault), line') := by
  intro evaluates
  have followed := i.eval_eq_follow e i.limit
  rw [evaluates] at followed
  have told := (congrArg Prod.fst followed).symm
  rcases came : (e.course i.limit).result with ⟨path, _ | _⟩ | value <;>
    simp [follow, came, Failure.error] at told

/-- A statement that ends well leaves the line of its last operator. -/
theorem execute_line {stmt : Stmt} (done : i.execute stmt = (.ok (), j)) :
    j.line = latestLine i.line [stmt] := by
  have executes := executes_execute i stmt
  rw [done] at executes
  rw [latestLine_singleton]
  cases executes with
  | discarded evaluates => exact line_of_eval evaluates
  | printed evaluates => exact line_of_eval evaluates

theorem executeAll_cons_eq_ok {stmt : Stmt} {rest : List Stmt} :
    i.executeAll (stmt :: rest) = (.ok (), j) ↔
      ∃ k, i.execute stmt = (.ok (), k) ∧ k.executeAll rest = (.ok (), j) := by
  rw [executeAll]
  rcases i.execute stmt with ⟨_ | ⟨⟩, k⟩ <;> simp

/-- Statements that end well leave the line of the latest operator. -/
theorem executeAll_line {stmts : List Stmt} (done : i.executeAll stmts = (.ok (), j)) :
    j.line = latestLine i.line stmts := by
  induction stmts generalizing i with
  | nil =>
      cases done
      rfl
  | cons stmt rest ih =>
      obtain ⟨k, first, others⟩ := executeAll_cons_eq_ok.1 done
      rw [ih others, execute_line first, ← latestLine_append]
      rfl

/-! ## Lost output -/

/-- The run gets to this print, finds the value that is to be printed, and the sink refuses it. -/
structure RefusedPrint (i : Interpreter) (before : List Stmt) (e : Expr) (fault : SinkFault)
    (k : Interpreter) : Prop where
  done : i.executeAll before = (.ok (), k)
  refuses : ∃ value, (k.evaluate e).1 = .ok value ∧
    (k.sink.write (value.text ++ "\n").toUTF8).1 = .error fault

/-- Where a run loses its output, with the statements up to there: the sink refuses a value that
is to be printed, or the statements have ended well and the sink cannot be flushed. -/
inductive OutputFails (i : Interpreter) (program : List Stmt) (fault : SinkFault) :
    List Stmt → Prop
  | print {before rest : List Stmt} {e : Expr} {k : Interpreter}
      (split : program = before ++ .print e :: rest) (refused : i.RefusedPrint before e fault k) :
      OutputFails i program fault (before ++ [.print e])
  | flush {k : Interpreter} (done : i.executeAll program = (.ok (), k))
      (refuses : k.sink.flush = .error fault) : OutputFails i program fault program

/-- A flush that fails tells the line that is kept. -/
theorem flush_eq_error {line : Nat} {fault : SinkFault}
    (failed : i.flush = .error (.output line fault)) :
    line = i.line ∧ i.sink.flush = .error fault := by
  rw [flush] at failed
  cases flushed : i.sink.flush with
  | ok =>
      rw [flushed] at failed
      cases failed
  | error fault' =>
      rw [flushed] at failed
      cases failed
      exact ⟨rfl, rfl⟩

/-- Statements lose their output at a print. -/
theorem exists_refusedPrint {program : List Stmt} {line : Nat} {fault : SinkFault}
    (failed : i.executeAll program = (.error (.output line fault), j)) :
    ∃ before e rest k, program = before ++ .print e :: rest ∧ i.RefusedPrint before e fault k ∧
      line = latestLine i.line (before ++ [.print e]) := by
  induction program generalizing i with
  | nil => cases failed
  | cons stmt rest ih =>
      have executes := executes_execute i stmt
      rcases came : i.execute stmt with ⟨result, k⟩
      rw [came] at executes
      rw [executeAll, came] at failed
      cases result with
      | ok =>
          obtain ⟨before, e, rest, k', rfl, ⟨done, refuses⟩, told⟩ := ih failed
          have done := executeAll_cons_eq_ok.2 ⟨k, came, done⟩
          refine ⟨stmt :: before, e, rest, k', rfl, ⟨done, refuses⟩, ?_⟩
          rw [told, execute_line came, ← latestLine_append]
          rfl
      | error error =>
          obtain ⟨rfl, rfl⟩ : error = .output line fault ∧ k = j := by simpa using failed
          cases executes with
          | failed evaluates => exact absurd evaluates eval_ne_output
          | @refused e value line fault sink evaluates refuses =>
              refine ⟨[], e, rest, i, rfl, ⟨rfl, value, ?_, by rw [refuses]⟩, ?_⟩
              · simp [evaluate, evaluates]
              · rw [List.nil_append, latestLine_singleton]
                exact line_of_eval evaluates

/-- **The line that is told without a token is that of the operator entered last.**  An interpreter
that evaluates a tree to a value leaves the line of the tree's last operator in pre-order.  If the
tree is refused as too deep, it is refused at the first node in pre-order that is one level below
the limit, and the line is that of the last operator before this node.  So where a run loses its
output, at a print or at the flush behind all statements, the line is that of the last operator in
pre-order of the latest statement that has one, up to this print and with it.  Where there is no
such operator it is in each case the line that the interpreter had before. -/
theorem line_of_last_operator (i : Interpreter) :
    (∀ e value j, i.evaluate e = (.ok value, j) → j.line = lineAfter i.line e.operators) ∧
      (∀ e line limit j, i.evaluate e = (.error (.nestingTooDeep line limit), j) →
        ∃ before refused behind, e.preorder = before ++ refused :: behind ∧
          refused.level = i.limit + 1 ∧ (∀ p ∈ before, p.level ≤ i.limit) ∧
          e.FailsAt i.limit refused.path refused.node ∧
          line = lineAfter i.line (Position.operators before)) ∧
      ∀ program line fault j, i.interpret program = (.error (.output line fault), j) →
        ∃ reached, i.OutputFails program fault reached ∧ line = latestLine i.line reached := by
  refine ⟨?_, ?_, ?_⟩
  · intro e value j came
    rw [evaluate_eq_follow] at came
    have done := follow_eq_ok_iff.1 (congrArg Prod.fst came)
    have kept : (i.follow (e.course i.limit)).2.line = j.line := by rw [came]
    rw [← Expr.entered_eq_operators done, ← kept]
    rfl
  · intro e line limit j came
    rw [evaluate_eq_follow] at came
    obtain ⟨⟨path, deep⟩, told, -⟩ := follow_eq_nestingTooDeep_iff.1 (congrArg Prod.fst came)
    obtain ⟨before, node, ⟨⟨behind, split⟩, first, level⟩, entered⟩ := Expr.exists_refused deep
    have member : (⟨path, node⟩ : Position) ∈ e.preorder := by simp [split]
    have found := (Expr.at?_of_mem_preorder member).1
    exact ⟨before, _, behind, split, level, first, ⟨found, _, deep⟩, entered ▸ told⟩
  · intro program line fault j came
    rw [interpret] at came
    rcases executed : i.executeAll program with ⟨_ | ⟨⟩, k⟩
    · rw [executed] at came
      cases came
      obtain ⟨before, e, rest, k', split, refused, told⟩ := exists_refusedPrint executed
      exact ⟨_, .print split refused, told⟩
    · rw [executed] at came
      obtain ⟨told, refuses⟩ := flush_eq_error (congrArg Prod.fst came)
      exact ⟨program, .flush executed refuses, told.trans (executeAll_line executed)⟩

/-- On line 2 a sum of a negation, on line 4, and of a grouping three levels down. -/
def spreadSum : Expr :=
  .binary ⟨.symbol .plus, "+", 2⟩ (.unary ⟨.symbol .bang, "!", 4⟩ (.literal (.boolean true)))
    (.grouping (.grouping (.literal (.string "s"))))

/-- The sum leaves the line of its negation, and is refused behind it for its last node.  A sink
without room refuses the sum on that line, and one that cannot be flushed tells it behind a
statement without an operator. -/
theorem line_of_last_operator_spreadSum :
    let i (limit : Nat) (sink : Sink) : Interpreter := { limit, line := 7, sink }
    let program : List Stmt := [.print spreadSum, .expression (.literal .nil)]
    (∃ j, (i 4 {}).evaluate spreadSum = (.ok (.string "falses"), j) ∧ j.line = 4) ∧
      (∃ j, (i 3 {}).evaluate spreadSum = (.error (.nestingTooDeep 4 3), j) ∧
        ∃ before refused behind, spreadSum.preorder = before ++ refused :: behind ∧
          refused.level = 4 ∧ (∀ p ∈ before, p.level ≤ 3) ∧
          spreadSum.FailsAt 3 refused.path refused.node ∧
          4 = lineAfter 7 (Position.operators before)) ∧
      (∃ j, (i 4 { room := some 0 }).interpret program = (.error (.output 4 .full), j) ∧
        ∃ reached, (i 4 { room := some 0 }).OutputFails program .full reached ∧
          4 = latestLine 7 reached) ∧
      ∃ j, (i 4 { flushFails := true }).interpret program =
          (.error (.output 4 .flushFailed), j) ∧
        ∃ reached, (i 4 { flushFails := true }).OutputFails program .flushFailed reached ∧
          4 = latestLine 7 reached := by
  intro i program
  have evaluated : (i 4 {}).evaluate spreadSum =
      (.ok (.string "falses"), { i 4 {} with line := 4 }) := by rfl
  have refused : (i 3 {}).evaluate spreadSum =
      (.error (.nestingTooDeep 4 3), { i 3 {} with line := 4 }) := by rfl
  have full : ((i 4 { room := some 0 }).interpret program).1 = .error (.output 4 .full) := by rfl
  have unflushed : ((i 4 { flushFails := true }).interpret program).1 =
      .error (.output 4 .flushFailed) := by rfl
  have valued := (line_of_last_operator (i 4 {})).1
  have deep := (line_of_last_operator (i 3 {})).2.1
  have lost := (line_of_last_operator (i 4 { room := some 0 })).2.2
  have lost' := (line_of_last_operator (i 4 { flushFails := true })).2.2
  exact ⟨⟨_, evaluated, valued _ _ _ evaluated⟩, ⟨_, refused, deep _ _ _ _ refused⟩,
    ⟨_, Prod.ext full rfl, lost _ _ _ _ (Prod.ext full rfl)⟩,
    ⟨_, Prod.ext unflushed rfl, lost' _ _ _ _ (Prod.ext unflushed rfl)⟩⟩

end Interpreter

end Lox
