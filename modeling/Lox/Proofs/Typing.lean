/-
# Lox.Proofs.Typing -- what types alone decide

Whether a tree has a value, of which type, and which node stands in the way if it has none, hangs
on the kinds of its operators and on the types of its literals.  Two trees of one shape that
agree in these are evaluated alike, whatever their numbers and strings are: a division by zero, a
NaN or an empty string neither causes an error nor avoids one.

* `Value.Alike`, `Expr.TypedAlike` -- values of one type, and trees that differ in nothing but
  the values of literals and the spelling and the lines of operators.
* `Token.applyUnary_alike`, `Token.applyBinary_alike` -- operators on operands of the same types.
* `Expr.TypedAlike.course` -- the courses of two such trees.
* `Expr.FailsAt` -- the node that an evaluation fails at, and `Expr.exists_blamed`.
* `Interpreter.evaluate_typedAlike` -- the evaluation of two such trees.
-/
import Lox.Proofs.EvaluationLimit
import Lox.Proofs.StackMachine

namespace Lox

set_option autoImplicit false

/-! ## What corresponds -/

/-- Two values of one type. -/
inductive Value.Alike : Value → Value → Prop
  | number {x x' : Float} : Alike (.number x) (.number x')
  | string {s s' : String} : Alike (.string s) (.string s')
  | boolean {b b' : Bool} : Alike (.boolean b) (.boolean b')
  | nil : Alike .nil .nil

theorem Value.alike_iff {v v' : Value} : v.Alike v' ↔ v.typeName = v'.typeName := by
  constructor
  · intro alike
    cases alike <;> rfl
  · intro same
    cases v <;> cases v' <;> first | constructor | simp [typeName] at same

/-- Two trees of one shape whose operators have the same kinds and whose literals have the same
types. -/
inductive Expr.TypedAlike : Expr → Expr → Prop
  | literal {v v' : Value} (type : v.typeName = v'.typeName) :
      TypedAlike (.literal v) (.literal v')
  | grouping {inner inner' : Expr} (inside : TypedAlike inner inner') :
      TypedAlike (.grouping inner) (.grouping inner')
  | unary {op op' : Token} {arg arg' : Expr} (kind : op.kind.name = op'.kind.name)
      (operand : TypedAlike arg arg') : TypedAlike (.unary op arg) (.unary op' arg')
  | binary {op op' : Token} {lhs lhs' rhs rhs' : Expr} (kind : op.kind.name = op'.kind.name)
      (left : TypedAlike lhs lhs') (right : TypedAlike rhs rhs') :
      TypedAlike (.binary op lhs rhs) (.binary op' lhs' rhs')

/-! ## Operators -/

namespace Kind

/-- The symbol that a kind is, if it is one. -/
def symbol? : Kind → Option Symbol
  | .symbol s => some s
  | _ => none

/-- The name of a kind says which symbol it is, or that it is none. -/
theorem symbol?_eq_find? (kind : Kind) :
    kind.symbol? = Symbol.all.find? fun s => s.name == kind.name := by
  cases kind with
  | symbol s => cases s <;> rfl
  | keyword k => cases k <;> rfl
  | _ => rfl

theorem symbol?_eq_some_iff {kind : Kind} {s : Symbol} :
    kind.symbol? = some s ↔ kind = .symbol s := by
  cases kind <;> simp [symbol?]

theorem symbol?_congr {kind kind' : Kind} (same : kind.name = kind'.name) :
    kind.symbol? = kind'.symbol? := by
  rw [symbol?_eq_find?, symbol?_eq_find?, same]

end Kind

/-- Two answers of operators: values of one type, or one fault. -/
inductive AnswersAlike : Except TypeFault Value → Except TypeFault Value → Prop
  | value {v v' : Value} (type : v.Alike v') : AnswersAlike (.ok v) (.ok v')
  | fault {fault : TypeFault} : AnswersAlike (.error fault) (.error fault)

namespace Value

variable {lhs lhs' rhs rhs' : Value}

theorem numeric_alike (fault : TypeFault) {f : Float → Float → Value}
    (type : ∀ x y x' y', (f x y).Alike (f x' y')) (left : lhs.Alike lhs') (right : rhs.Alike rhs') :
    AnswersAlike (numeric fault f lhs rhs) (numeric fault f lhs' rhs') := by
  cases left with
  | number =>
      cases right with
      | number => exact .value (type ..)
      | _ => exact .fault
  | _ => exact .fault

/-- A string on either side makes a string of the sum, whatever is on the other. -/
theorem add_alike (left : lhs.Alike lhs') (right : rhs.Alike rhs') :
    AnswersAlike (lhs.add rhs) (lhs'.add rhs') := by
  cases left with
  | string => cases right <;> exact .value .string
  | number =>
      cases right with
      | number => exact .value .number
      | string => exact .value .string
      | _ => exact .fault
  | boolean | nil =>
      cases right with
      | string => exact .value .string
      | _ => exact .fault

end Value

namespace Token

variable {op op' : Token}

/-- Tokens of kinds with one name are the same symbol, or neither is a symbol. -/
theorem kinds_of_name_eq (same : op.kind.name = op'.kind.name) :
    (∃ s, op.kind = .symbol s ∧ op'.kind = .symbol s) ∨
      (∀ s, op.kind ≠ .symbol s) ∧ ∀ s, op'.kind ≠ .symbol s := by
  have symbols := Kind.symbol?_congr same
  cases found : op.kind.symbol? with
  | some s =>
      rw [found] at symbols
      exact .inl ⟨s, Kind.symbol?_eq_some_iff.1 found, Kind.symbol?_eq_some_iff.1 symbols.symm⟩
  | none =>
      rw [found] at symbols
      refine .inr ⟨fun s kind => ?_, fun s kind => ?_⟩
      · cases found.symm.trans (Kind.symbol?_eq_some_iff.2 kind)
      · cases symbols.trans (Kind.symbol?_eq_some_iff.2 kind)

theorem applyUnary_of_not_symbol (other : ∀ s, op.kind ≠ .symbol s) (arg : Value) :
    op.applyUnary arg = .error .notUnary := by
  unfold applyUnary
  split
  · exact absurd ‹_› (other _)
  · exact absurd ‹_› (other _)
  · rfl

theorem level?_of_not_symbol (other : ∀ s, op.kind ≠ .symbol s) : op.level? = none := by
  unfold level?
  split
  · exact absurd ‹_› (other _)
  · rfl

theorem applyUnary_alike (same : op.kind.name = op'.kind.name) {arg arg' : Value}
    (type : arg.Alike arg') : AnswersAlike (op.applyUnary arg) (op'.applyUnary arg') := by
  obtain ⟨s, kind, kind'⟩ | ⟨other, other'⟩ := kinds_of_name_eq same
  · rw [applyUnary, applyUnary, kind, kind']
    cases s with
    | minus =>
        cases type with
        | number => exact .value .number
        | _ => exact .fault
    | bang =>
        cases type with
        | boolean => exact .value .boolean
        | _ => exact .fault
    | _ => exact .fault
  · rw [applyUnary_of_not_symbol other, applyUnary_of_not_symbol other']
    exact .fault

theorem applyBinary_alike (same : op.kind.name = op'.kind.name) {lhs lhs' rhs rhs' : Value}
    (left : lhs.Alike lhs') (right : rhs.Alike rhs') :
    AnswersAlike (op.applyBinary lhs rhs) (op'.applyBinary lhs' rhs') := by
  obtain ⟨s, kind, kind'⟩ | ⟨other, other'⟩ := kinds_of_name_eq same
  · rw [applyBinary, applyBinary, kind, kind']
    cases s with
    | plus => exact Value.add_alike left right
    | minus | star | slash => exact Value.numeric_alike _ (fun _ _ _ _ => .number) left right
    | greater | greaterEqual | less | lessEqual =>
        exact Value.numeric_alike _ (fun _ _ _ _ => .boolean) left right
    | equalEqual | bangEqual => exact .value .boolean
    | _ => exact .fault
  · rw [applyBinary_of_level?_eq_none (level?_of_not_symbol other),
      applyBinary_of_level?_eq_none (level?_of_not_symbol other')]
    exact .fault

end Token

/-! ## Courses -/

/-- Two results of courses: values of one type, or failures at one place, for lack of room or for
one fault of an operator. -/
inductive ResultsAlike : Except Failure Value → Except Failure Value → Prop
  | value {v v' : Value} (type : v.Alike v') : ResultsAlike (.ok v) (.ok v')
  | tooDeep {path : List Step} :
      ResultsAlike (.error ⟨path, .tooDeep⟩) (.error ⟨path, .tooDeep⟩)
  | type {path : List Step} {op op' : Token} {fault : TypeFault} :
      ResultsAlike (.error ⟨path, .type op fault⟩) (.error ⟨path, .type op' fault⟩)

namespace Course

variable {c c' : Course Value}

theorem resultsAlike_within (alike : ResultsAlike c.result c'.result) (step : Step) :
    ResultsAlike (c.within step).result (c'.within step).result := by
  unfold within
  generalize c.result = result at alike
  generalize c'.result = result' at alike
  cases alike with
  | value type => exact .value type
  | tooDeep => exact .tooDeep
  | type => exact .type

/-- Going on from two courses that come to the same. -/
theorem resultsAlike_andThen (alike : ResultsAlike c.result c'.result)
    {next next' : Value → Course Value}
    (go : ∀ {v v'}, v.Alike v' → ResultsAlike (next v).result (next' v').result) :
    ResultsAlike (c.andThen next).result (c'.andThen next').result := by
  unfold andThen
  generalize c.result = result at alike
  generalize c'.result = result' at alike
  cases alike with
  | value type => exact go type
  | tooDeep => exact .tooDeep
  | type => exact .type

theorem resultsAlike_answer {op op' : Token} {answer answer' : Except TypeFault Value}
    (alike : AnswersAlike answer answer') :
    ResultsAlike (op.answer answer).result (op'.answer answer').result := by
  cases alike with
  | value type => exact .value type
  | fault => exact .type

end Course

namespace Expr

open Course

/-- Two such trees are evaluated alike, whatever room there is. -/
theorem TypedAlike.course {e e' : Expr} (alike : e.TypedAlike e') (room : Nat) :
    ResultsAlike (e.course room).result (e'.course room).result := by
  induction room generalizing e e' with
  | zero =>
      rw [e.course_zero, e'.course_zero]
      exact .tooDeep
  | succ room ih =>
      cases alike with
      | literal type => exact .value (Value.alike_iff.2 type)
      | grouping inside => exact resultsAlike_within (ih inside) .inner
      | unary kind operand =>
          apply resultsAlike_andThen (resultsAlike_within (ih operand) .arg)
          intro v v' type
          exact resultsAlike_answer (Token.applyUnary_alike kind type)
      | binary kind lhs rhs =>
          apply resultsAlike_andThen (resultsAlike_within (ih lhs) .left)
          intro left left' first
          apply resultsAlike_andThen (resultsAlike_within (ih rhs) .right)
          intro right right' second
          exact resultsAlike_answer (Token.applyBinary_alike kind first second)

/-! ## Where an evaluation fails -/

/-- The part of a tree that some steps from the root lead to. -/
def at? : Expr → List Step → Option Expr
  | e, [] => some e
  | .grouping inner, .inner :: path => inner.at? path
  | .unary _ arg, .arg :: path => arg.at? path
  | .binary _ lhs _, .left :: path => lhs.at? path
  | .binary _ _ rhs, .right :: path => rhs.at? path
  | _, _ => none

/-- The operator at the root. -/
def operator? : Expr → Option Token
  | .unary op _ | .binary op _ _ => some op
  | _ => none

/-- With so much room, evaluation gets to the node that the path leads to, and fails there. -/
def FailsAt (e : Expr) (room : Nat) (path : List Step) (node : Expr) : Prop :=
  e.at? path = some node ∧ ∃ stop, (e.course room).result = .error ⟨path, stop⟩

/-- What a failure says of the node that it is at: it is one level below the room, or it is the
operator that is blamed. -/
structure Blamed (e : Expr) (room : Nat) (failure : Failure) (node : Expr) : Prop where
  found : e.at? failure.path = some node
  tooDeep : failure.stop = .tooDeep → failure.path.length = room
  type : ∀ op fault, failure.stop = .type op fault → node.operator? = some op

theorem Blamed.below {e operand node : Expr} {room : Nat} {failure : Failure} {step : Step}
    {path : List Step} (blamed : operand.Blamed room ⟨path, failure.stop⟩ node)
    (steps : failure.path = step :: path) (leads : e.at? (step :: path) = operand.at? path) :
    e.Blamed (room + 1) failure node := by
  refine ⟨?_, ?_, blamed.type⟩
  · rw [steps, leads]
    exact blamed.found
  · intro deep
    rw [steps, List.length_cons, blamed.tooDeep deep]

theorem blamed_of_room_eq_zero {e : Expr} {failure : Failure}
    (failed : (e.course 0).result = .error failure) : e.Blamed 0 failure e := by
  cases e <;> cases failed <;> exact ⟨rfl, fun _ => rfl, fun _ _ stop => by cases stop⟩

theorem blamed_of_answer {e : Expr} {op : Token} (root : e.operator? = some op)
    {answer : Except TypeFault Value} {failure : Failure}
    (failed : (op.answer answer).result = .error failure) (room : Nat) :
    e.Blamed room failure e := by
  cases answer with
  | ok value => cases failed
  | error fault =>
      cases failed
      refine ⟨by cases e <;> rfl, fun deep => (by cases deep), fun op' fault' blamed => ?_⟩
      cases blamed
      exact root

/-- An evaluation fails at a node of the tree. -/
theorem exists_blamed {e : Expr} {room : Nat} {failure : Failure}
    (failed : (e.course room).result = .error failure) : ∃ node, e.Blamed room failure node := by
  induction room generalizing e failure with
  | zero => exact ⟨_, blamed_of_room_eq_zero failed⟩
  | succ room ih =>
      -- A failure in an operand is at a node of the operand, one step further from the root.
      have below {operand : Expr} {step : Step}
          (leads : ∀ path, e.at? (step :: path) = operand.at? path)
          (failed : ((operand.course room).within step).result = .error failure) :
          ∃ node, e.Blamed (room + 1) failure node := by
        obtain ⟨path, failed, steps⟩ := result_within_eq_error_iff.1 failed
        obtain ⟨node, blamed⟩ := ih failed
        exact ⟨node, blamed.below steps (leads path)⟩
      cases e with
      | literal value => cases failed
      | grouping inner => exact below (fun _ => rfl) failed
      | unary op arg =>
          obtain inArg | ⟨value, -, applied⟩ := result_andThen_eq_error_iff.1 failed
          · exact below (fun _ => rfl) inArg
          · exact ⟨_, blamed_of_answer rfl applied _⟩
      | binary op lhs rhs =>
          obtain inLeft | ⟨left, -, behind⟩ := result_andThen_eq_error_iff.1 failed
          · exact below (fun _ => rfl) inLeft
          · obtain inRight | ⟨right, -, applied⟩ := result_andThen_eq_error_iff.1 behind
            · exact below (fun _ => rfl) inRight
            · exact ⟨_, blamed_of_answer rfl applied _⟩

end Expr

/-! ## Evaluation -/

namespace Interpreter

/-- **Types alone decide how an expression is evaluated.**  Take two trees of one shape whose
corresponding operators have the same kind and whose corresponding literals have the same type,
and two interpreters with the same limit.  Either both trees have values, of one type; or both
fail at corresponding operators, which are blamed with the same words; or both are refused as too
deep, at corresponding nodes just below the limit. -/
theorem evaluate_typedAlike {i i' : Interpreter} {e e' : Expr} (limit : i.limit = i'.limit)
    (alike : e.TypedAlike e') :
    (∃ v v', (i.evaluate e).1 = .ok v ∧ (i'.evaluate e').1 = .ok v' ∧
        v.typeName = v'.typeName) ∨
      (∃ path node node' op op' fault, e.FailsAt i.limit path node ∧
        e'.FailsAt i.limit path node' ∧ node.operator? = some op ∧ node'.operator? = some op' ∧
        (i.evaluate e).1 = .error (.type op fault) ∧
        (i'.evaluate e').1 = .error (.type op' fault)) ∨
      ∃ path node node' line line', e.FailsAt i.limit path node ∧
        e'.FailsAt i.limit path node' ∧ path.length = i.limit ∧
        (i.evaluate e).1 = .error (.nestingTooDeep line i.limit) ∧
        (i'.evaluate e').1 = .error (.nestingTooDeep line' i.limit) := by
  have results := alike.course i.limit
  rw [evaluate_eq_follow, evaluate_eq_follow, ← limit]
  generalize came : (e.course i.limit).result = result at results
  generalize came' : (e'.course i.limit).result = result' at results
  cases results with
  | value type =>
      exact .inl ⟨_, _, follow_eq_ok_iff.2 came, follow_eq_ok_iff.2 came', Value.alike_iff.1 type⟩
  | @type path op op' fault =>
      obtain ⟨node, blamed⟩ := Expr.exists_blamed came
      obtain ⟨node', blamed'⟩ := Expr.exists_blamed came'
      refine .inr (.inl ⟨path, node, node', op, op', fault, ⟨blamed.found, _, came⟩,
        ⟨blamed'.found, _, came'⟩, blamed.type _ _ rfl, blamed'.type _ _ rfl, ?_, ?_⟩)
      · simp only [follow, came, mapError_error, Failure.error]
      · simp only [follow, came', mapError_error, Failure.error]
  | @tooDeep path =>
      obtain ⟨node, blamed⟩ := Expr.exists_blamed came
      obtain ⟨node', blamed'⟩ := Expr.exists_blamed came'
      have refused := follow_eq_nestingTooDeep_iff.2 ⟨⟨path, came⟩, rfl, (rfl : i.limit = i.limit)⟩
      have refused' := follow_eq_nestingTooDeep_iff.2 ⟨⟨path, came'⟩, rfl, limit⟩
      exact .inr (.inr ⟨path, node, node', _, _, ⟨blamed.found, _, came⟩, ⟨blamed'.found, _, came'⟩,
        blamed.tooDeep rfl, refused, refused'⟩)

/-- `-(x / y) < s`, with a minus sign on a line of its own. -/
def strangeComparison (x y : Float) (s : String) (line : Nat) : Expr :=
  .binary ⟨.symbol .less, "<", 1⟩
    (.unary ⟨.symbol .minus, "-", line⟩
      (.binary ⟨.symbol .slash, "/", 1⟩ (.literal (.number x)) (.literal (.number y))))
    (.literal (.string s))

/-- Neither a division by zero nor a string that looks like a number avoids the fault of the
comparison, or comes before it. -/
theorem evaluate_typedAlike_strangeComparison :
    let i : Interpreter := {}
    let e := strangeComparison 1 3 "a" 1
    let e' := strangeComparison 0 0 "0" 7
    e.TypedAlike e' ∧
      (i.evaluate e).1 = .error (.type ⟨.symbol .less, "<", 1⟩ .comparison) ∧
      ∃ path node op, e'.FailsAt i.limit path node ∧ node.operator? = some op ∧
        (i.evaluate e').1 = .error (.type op .comparison) := by
  intro i e e'
  have alike : e.TypedAlike e' :=
    .binary rfl (.unary rfl (.binary rfl (.literal rfl) (.literal rfl))) (.literal rfl)
  have failed : (i.evaluate e).1 = .error (.type ⟨.symbol .less, "<", 1⟩ .comparison) := by rfl
  refine ⟨alike, failed, ?_⟩
  obtain ⟨v, _, found, -⟩ | ⟨path, _, node', _, op', fault, -, fails, -, root, came, came'⟩ |
      ⟨_, _, _, line, _, -, -, -, refused, -⟩ := @evaluate_typedAlike i i e e' rfl alike
  · cases failed.symm.trans found
  · cases failed.symm.trans came
    exact ⟨path, node', op', fails, root, came'⟩
  · cases failed.symm.trans refused

end Interpreter

end Lox
