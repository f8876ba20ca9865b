/-
# Lox.Proofs.StackMachine -- evaluation as a run over nodes in post-order

The nodes of a tree in post-order are a program for a stack of values: a literal is pushed, a
grouping does nothing, and an operator takes its operands off the stack and puts its answer
there.  The run stops at the first node whose operator does not answer.  Evaluation with room
for the tree comes to the same, for every tree and every token as an operator, and so do the
errors: what the run meets first is what evaluation reports.

* `Node.step`, `Node.run` -- the machine; `Node.run_eq_error_iff` says where a run stops.
* `Node.Violates` -- the operands on top of the stack are not those that an operator asks for.
* `Expr.simulates_postorderOnto` -- the machine on a tree with anything behind it.
* `Interpreter.evaluate_eq_run` -- evaluation and the machine.
-/
import Lox.Expr.Postorder
import Lox.Interpreter
import Lox.Proofs.Evaluation

namespace Lox

set_option autoImplicit false

/-! ## Operators of any kind -/

namespace Token

/-- An operator answers with a value if and only if it admits the operand; a token that is no
unary operator admits none. -/
theorem exists_applyUnary_ok_iff {op : Token} {arg : Value} :
    (∃ v, op.applyUnary arg = .ok v) ↔ op.AdmitsUnary arg := by
  by_cases unary : op.isUnary = true
  · cases answers : op.applyUnary arg with
    | ok v =>
        cases answers ▸ answers_unary unary arg with
        | value admitted => simp [admitted]
    | error fault =>
        cases answers ▸ answers_unary unary arg with
        | fault refused => simp [refused]
  · rw [isUnary_iff, not_or] at unary
    have refused : op.applyUnary arg = .error .notUnary := by
      unfold applyUnary
      split
      · exact absurd ‹_› unary.2
      · exact absurd ‹_› unary.1
      · rfl
    constructor
    · rintro ⟨v, answered⟩
      cases refused.symm.trans answered
    · rintro (minus | bang)
      · exact absurd minus unary.2
      · exact absurd bang unary.1

theorem AdmitsBinary.isSome_level? {op : Token} {lhs rhs : Value}
    (admitted : op.AdmitsBinary lhs rhs) : op.level?.isSome = true := by
  cases admitted with
  | numbers operator => exact operator
  | leftString plus | rightString plus => rw [level?_of_kind plus]; rfl
  | equality level => rw [level]; rfl

theorem applyBinary_of_level?_eq_none {op : Token} (unknown : op.level? = none)
    (lhs rhs : Value) : op.applyBinary lhs rhs = .error .notBinary := by
  unfold applyBinary
  split
  all_goals first
    | rfl
    | (rename_i kind
       cases (level?_of_kind kind).symm.trans unknown)

/-- An operator answers with a value if and only if it admits both operands; a token that is
no binary operator admits none. -/
theorem exists_applyBinary_ok_iff {op : Token} {lhs rhs : Value} :
    (∃ v, op.applyBinary lhs rhs = .ok v) ↔ op.AdmitsBinary lhs rhs := by
  cases level : op.level? with
  | none =>
      rw [applyBinary_of_level?_eq_none level]
      constructor
      · rintro ⟨v, ⟨⟩⟩
      · intro admitted
        have known := admitted.isSome_level?
        rw [level] at known
        cases known
  | some l =>
      have binary : op.level?.isSome = true := Option.isSome_of_eq_some level
      cases answers : op.applyBinary lhs rhs with
      | ok v =>
          cases answers ▸ answers_binary binary lhs rhs with
          | value admitted => simp [admitted]
      | error fault =>
          cases answers ▸ answers_binary binary lhs rhs with
          | fault refused => simp [refused]

end Token

/-! ## The machine -/

namespace Node

/-- Why a run over nodes stops before their end. -/
inductive Halt where
  /-- There are fewer values on the stack than a node takes. -/
  | underflow
  | refused (op : Token) (fault : TypeFault)
deriving DecidableEq, Repr

/-- Puts what an operator answers on the stack. -/
def push (op : Token) (stack : List Value) : Except TypeFault Value → Except Halt (List Value)
  | .ok value => .ok (value :: stack)
  | .error fault => .error (.refused op fault)

/-- What a node does to the stack, the top of which comes first. -/
def step (stack : List Value) (node : Node) : Except Halt (List Value) :=
  match node, stack with
  | .literal value, stack => .ok (value :: stack)
  | .grouping, stack => .ok stack
  | .unary op, arg :: stack => push op stack (op.applyUnary arg)
  | .binary op, right :: left :: stack => push op stack (op.applyBinary left right)
  | _, _ => .error .underflow

/-- What nodes do to the stack, one after the other, until one cannot. -/
def run (stack : List Value) : List Node → Except Halt (List Value)
  | [] => .ok stack
  | node :: rest =>
    match step stack node with
    | .ok stack => run stack rest
    | .error halt => .error halt

/-- The operands on top of the stack are not those that the node's operator asks for. -/
inductive Violates : List Value → Node → Token → Prop
  | unary {op : Token} {arg : Value} {stack : List Value} (violated : ¬ op.AdmitsUnary arg) :
      Violates (arg :: stack) (.unary op) op
  | binary {op : Token} {left right : Value} {stack : List Value}
      (violated : ¬ op.AdmitsBinary left right) :
      Violates (right :: left :: stack) (.binary op) op

variable {stack : List Value} {node : Node} {op : Token}

theorem run_cons_of_ok {stack' : List Value} (done : step stack node = .ok stack')
    (rest : List Node) : run stack (node :: rest) = run stack' rest := by
  rw [run, done]

theorem run_cons_of_error {halt : Halt} (stopped : step stack node = .error halt)
    (rest : List Node) : run stack (node :: rest) = .error halt := by
  rw [run, stopped]

theorem push_eq_refused_iff {op' : Token} {fault : TypeFault} {answer : Except TypeFault Value} :
    push op stack answer = .error (.refused op' fault) ↔ op' = op ∧ answer = .error fault := by
  cases answer <;> simp [push, eq_comm]

/-- A node is refused if and only if its operands violate what its operator asks for. -/
theorem exists_refused_iff_violates :
    (∃ fault, step stack node = .error (.refused op fault)) ↔ Violates stack node op := by
  constructor
  · rintro ⟨fault, stopped⟩
    unfold step at stopped
    split at stopped
    · cases stopped
    · cases stopped
    · obtain ⟨rfl, answer⟩ := push_eq_refused_iff.1 stopped
      refine .unary fun admitted => ?_
      obtain ⟨v, value⟩ := Token.exists_applyUnary_ok_iff.2 admitted
      cases answer.symm.trans value
    · obtain ⟨rfl, answer⟩ := push_eq_refused_iff.1 stopped
      refine .binary fun admitted => ?_
      obtain ⟨v, value⟩ := Token.exists_applyBinary_ok_iff.2 admitted
      cases answer.symm.trans value
    · cases stopped
  · rintro (violated | violated)
    · rename_i arg rest
      cases answer : op.applyUnary arg with
      | ok v => exact absurd (Token.exists_applyUnary_ok_iff.1 ⟨v, answer⟩) violated
      | error fault => exact ⟨fault, push_eq_refused_iff.2 ⟨rfl, answer⟩⟩
    · rename_i left right rest
      cases answer : op.applyBinary left right with
      | ok v => exact absurd (Token.exists_applyBinary_ok_iff.1 ⟨v, answer⟩) violated
      | error fault => exact ⟨fault, push_eq_refused_iff.2 ⟨rfl, answer⟩⟩

/-- A run stops at the first node that cannot do its step. -/
theorem run_eq_error_iff {nodes : List Node} {halt : Halt} :
    run stack nodes = .error halt ↔
      ∃ before node after stack', nodes = before ++ node :: after ∧
        run stack before = .ok stack' ∧ step stack' node = .error halt := by
  induction nodes generalizing stack with
  | nil => simp [run]
  | cons first rest ih =>
      constructor
      · intro stopped
        cases came : step stack first with
        | error halt' =>
            rw [run_cons_of_error came] at stopped
            cases stopped
            exact ⟨[], first, rest, stack, rfl, rfl, came⟩
        | ok stack' =>
            rw [run_cons_of_ok came] at stopped
            obtain ⟨before, node, after, stack'', rfl, ran, stops⟩ := ih.1 stopped
            exact ⟨first :: before, node, after, stack'', rfl, (run_cons_of_ok came _).trans ran,
              stops⟩
      · rintro ⟨before, node, after, stack', split, ran, stops⟩
        cases before with
        | nil =>
            cases split
            cases ran
            exact run_cons_of_error stops rest
        | cons first' before =>
            cases split
            cases came : step stack first with
            | error halt' =>
                rw [run_cons_of_error came] at ran
                cases ran
            | ok stack'' =>
                rw [run_cons_of_ok came] at ran ⊢
                exact ih.2 ⟨before, node, after, stack', rfl, ran, stops⟩

end Node

/-! ## Simulation -/

open Node

/-- With the value of a tree on top of the stack, the other nodes are run; the error of a tree
is where the run stops. -/
def Simulates (stack : List Value) (rest : List Node) (result : Except RuntimeError Value)
    (outcome : Except Halt (List Value)) : Prop :=
  match result with
  | .ok v => outcome = run (v :: stack) rest
  | .error e => ∃ op fault, e = .type op fault ∧ outcome = .error (.refused op fault)

theorem simulates_push {stack stack' : List Value} {node : Node} {op : Token}
    {answer : Except TypeFault Value} (pushes : step stack' node = push op stack answer)
    (rest : List Node) : Simulates stack rest (op.outcome answer) (run stack' (node :: rest)) := by
  cases answer with
  | ok v => exact run_cons_of_ok pushes rest
  | error fault => exact ⟨op, fault, rfl, run_cons_of_error pushes rest⟩

theorem Expr.simulates_postorderOnto (e : Expr) (stack : List Value) (rest : List Node) :
    Simulates stack rest e.value (run stack (e.postorderOnto rest)) := by
  -- What stands behind an operand is the rest of its parent, so the induction is over any
  -- stack and any rest.
  induction e generalizing stack rest with
  | literal value => exact rfl
  | grouping inner ih =>
      have inside := ih stack (.grouping :: rest)
      rw [value, postorderOnto]
      cases came : inner.value with
      | error e =>
          rw [came] at inside
          exact inside
      | ok v =>
          rw [came] at inside
          exact inside.trans (run_cons_of_ok rfl rest)
  | unary op arg ih =>
      have inside := ih stack (.unary op :: rest)
      rw [value, postorderOnto]
      cases came : arg.value with
      | error e =>
          rw [came] at inside
          exact inside
      | ok v =>
          rw [came] at inside
          rw [inside]
          exact simulates_push rfl rest
  | binary op lhs rhs ihLeft ihRight =>
      have inLeft := ihLeft stack (rhs.postorderOnto (.binary op :: rest))
      rw [value, postorderOnto]
      cases cameLeft : lhs.value with
      | error e =>
          rw [cameLeft] at inLeft
          exact inLeft
      | ok left =>
          rw [cameLeft] at inLeft
          rw [inLeft]
          have inRight := ihRight (left :: stack) (.binary op :: rest)
          cases cameRight : rhs.value with
          | error e =>
              rw [cameRight] at inRight
              exact inRight
          | ok right =>
              rw [cameRight] at inRight
              rw [inRight]
              exact simulates_push rfl rest

/-- The machine on a tree alone leaves the value of the tree, or stops at its error. -/
theorem Expr.run_postorder (e : Expr) :
    (∃ v, e.value = .ok v ∧ run [] e.postorder = .ok [v]) ∨
      ∃ op fault, e.value = .error (.type op fault) ∧
        run [] e.postorder = .error (.refused op fault) := by
  have simulates := e.simulates_postorderOnto [] []
  cases came : e.value with
  | ok v =>
      rw [came] at simulates
      exact .inl ⟨v, rfl, simulates⟩
  | error error =>
      rw [came] at simulates
      obtain ⟨op, fault, rfl, stopped⟩ := simulates
      exact .inr ⟨op, fault, rfl, stopped⟩

/-- The first operator in post-order whose operands are not those it asks for: all that stands
before it was run to its end, and its operands are on the stack. -/
def Expr.StopsAt (e : Expr) (op : Token) (fault : TypeFault) : Prop :=
  ∃ before node after stack, e.postorder = before ++ node :: after ∧
    run [] before = .ok stack ∧ Violates stack node op ∧
      step stack node = .error (.refused op fault)

theorem Expr.stopsAt_iff {e : Expr} {op : Token} {fault : TypeFault} :
    e.StopsAt op fault ↔ run [] e.postorder = .error (.refused op fault) := by
  rw [run_eq_error_iff]
  constructor
  · rintro ⟨before, node, after, stack, split, ran, -, stops⟩
    exact ⟨before, node, after, stack, split, ran, stops⟩
  · rintro ⟨before, node, after, stack, split, ran, stops⟩
    exact ⟨before, node, after, stack, split, ran, exists_refused_iff_violates.1 ⟨_, stops⟩, stops⟩

namespace Interpreter

/-- **Evaluation is a run over the nodes in post-order.**  Take any tree, whatever tokens are
its operators and whatever values its literals, and an interpreter with room for it.  The
interpreter evaluates the tree to a value if and only if the machine ends with that value alone
on its stack, and that is if and only if every operator the machine meets admits its operands;
it fails with an error if and only if that is the type error of the operator at which the
machine stops, the first in post-order that does not admit its operands.  The machine never
lacks an operand. -/
theorem evaluate_eq_run {i : Interpreter} {e : Expr} (low : e.height ≤ i.limit) :
    (∀ v, (i.evaluate e).1 = .ok v ↔ run [] e.postorder = .ok [v]) ∧
      ((∃ v, (i.evaluate e).1 = .ok v) ↔ ∀ before node after stack,
        e.postorder = before ++ node :: after → run [] before = .ok stack →
          ∀ op, ¬ Violates stack node op) ∧
      (∀ error, (i.evaluate e).1 = .error error ↔ ∃ op fault, error = .type op fault ∧
        run [] e.postorder = .error (.refused op fault) ∧ e.StopsAt op fault) ∧
      run [] e.postorder ≠ .error .underflow := by
  have evaluates : (i.evaluate e).1 = e.value := Expr.eval_fst_of_height_le low
  rw [evaluates]
  obtain ⟨v, value, ran⟩ | ⟨op, fault, failed, ran⟩ := e.run_postorder
  · refine ⟨by simp [value, ran], ?_, by simp [value, ran], by simp [ran]⟩
    refine iff_of_true ⟨v, value⟩ fun before node after stack split reached op violates => ?_
    obtain ⟨fault, stops⟩ := exists_refused_iff_violates.2 violates
    have stopped := run_eq_error_iff.2 ⟨before, node, after, stack, split, reached, stops⟩
    cases ran.symm.trans stopped
  · have stops : e.StopsAt op fault := Expr.stopsAt_iff.2 ran
    refine ⟨by simp [failed, ran], ?_, fun error => ?_, by simp [ran]⟩
    · obtain ⟨before, node, after, stack, split, reached, violates, -⟩ := stops
      refine iff_of_false (by simp [failed]) fun admitted => ?_
      exact admitted before node after stack split reached op violates
    · constructor
      · intro came
        cases failed.symm.trans came
        exact ⟨op, fault, rfl, ran, stops⟩
      · rintro ⟨op', fault', rfl, ran', -⟩
        cases ran.symm.trans ran'
        exact failed

/-- A comma, which is no operator, between a negation that is refused on its left and one that
would be refused on its right. -/
def doublyBroken : Expr :=
  .binary ⟨.symbol .comma, ",", 2⟩ (.unary ⟨.symbol .bang, "!", 1⟩ (.literal .nil))
    (.unary ⟨.symbol .minus, "-", 3⟩ (.literal (.string "a")))

/-- With just enough room, the operand on the left is what stops the run. -/
theorem evaluate_eq_run_doublyBroken :
    doublyBroken.height ≤ (3 : Nat) ∧
      (evaluate { limit := 3 } doublyBroken).1 =
        .error (.type ⟨.symbol .bang, "!", 1⟩ .logicalNot) ∧
      run [] doublyBroken.postorder = .error (.refused ⟨.symbol .bang, "!", 1⟩ .logicalNot) := by
  have low : doublyBroken.height ≤ ({ limit := 3 } : Interpreter).limit := by decide
  have ran : run [] doublyBroken.postorder =
      .error (.refused ⟨.symbol .bang, "!", 1⟩ .logicalNot) := by rfl
  obtain ⟨-, -, failed, -⟩ := evaluate_eq_run low
  exact ⟨low, (failed _).2 ⟨_, _, rfl, ran, Expr.stopsAt_iff.2 ran⟩, ran⟩

end Interpreter

end Lox
