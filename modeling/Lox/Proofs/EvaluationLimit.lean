/-
# Lox.Proofs.EvaluationLimit -- what the limit on evaluation refuses

A node for which there is no room is refused when evaluation gets to it.  It may never get there:
an operator before it may fail first.  So with less room than the tree is high both can happen, an
error of an operator or a refusal, and which of them does hangs on the room.  But what is not
refused stays as it is with more room, and a value is found only with room for all of the tree.

* `Course.TooDeep` -- the course stops for lack of room.
* `Course.Extended` -- what more room makes of a course; `Expr.course_extended`.
* `Expr.lt_height_of_tooDeep`, `Expr.height_le_of_course_eq_ok` -- the room against the height.
* `Interpreter.evaluate_withLimit` -- evaluation under different limits.
-/
import Lox.Proofs.Course

namespace Lox

set_option autoImplicit false

/-! ## Courses that lack room -/

namespace Course

variable {α β : Type}

/-- The course stops at a node for which there is no room. -/
def TooDeep (c : Course α) : Prop :=
  ∃ path, c.result = .error ⟨path, .tooDeep⟩

theorem tooDeep_within_iff {step : Step} {c : Course α} : (c.within step).TooDeep ↔ c.TooDeep := by
  constructor
  · rintro ⟨path, failed⟩
    obtain ⟨path, failed, -⟩ := result_within_eq_error_iff.1 failed
    exact ⟨path, failed⟩
  · rintro ⟨path, failed⟩
    exact ⟨step :: path, result_within_eq_error_iff.2 ⟨path, failed, rfl⟩⟩

theorem tooDeep_andThen_iff {c : Course α} {next : α → Course β} :
    (c.andThen next).TooDeep ↔ c.TooDeep ∨ ∃ a, c.result = .ok a ∧ (next a).TooDeep := by
  simp only [TooDeep, result_andThen_eq_error_iff]
  constructor
  · rintro ⟨path, failed | ⟨a, came, failed⟩⟩
    · exact .inl ⟨path, failed⟩
    · exact .inr ⟨a, came, path, failed⟩
  · rintro (⟨path, failed⟩ | ⟨a, came, path, failed⟩)
    · exact ⟨path, .inl failed⟩
    · exact ⟨path, .inr ⟨a, came, failed⟩⟩

theorem not_tooDeep_answer (op : Token) (answer : Except TypeFault Value) :
    ¬ (op.answer answer).TooDeep := by
  rintro ⟨path, failed⟩
  cases answer <;> cases failed

/-- What more room makes of a course: nothing else, unless the course lacks room. -/
def Extended (c c' : Course α) : Prop :=
  ¬ c.TooDeep → c' = c

theorem Extended.within {c c' : Course α} (extended : c.Extended c') (step : Step) :
    (c.within step).Extended (c'.within step) := by
  intro enough
  rw [extended fun deep => enough (tooDeep_within_iff.2 deep)]

theorem Extended.entering {c c' : Course α} (extended : c.Extended c') (op : Token) :
    (c.entering op).Extended (c'.entering op) := by
  intro enough
  rw [extended enough]

theorem Extended.andThen {c c' : Course α} {next next' : α → Course β}
    (extended : c.Extended c') (go : ∀ a, (next a).Extended (next' a)) :
    (c.andThen next).Extended (c'.andThen next') := by
  intro enough
  have same := extended fun deep => enough (tooDeep_andThen_iff.2 (.inl deep))
  rw [same]
  cases came : c.result with
  | error failure => rw [andThen_of_error came, andThen_of_error came]
  | ok a =>
      have again := go a fun deep => enough (tooDeep_andThen_iff.2 (.inr ⟨a, came, deep⟩))
      rw [andThen_of_ok came, andThen_of_ok came, again]

end Course

/-! ## Room against height -/

namespace Expr

open Course

theorem course_extended (e : Expr) {room room' : Nat} (le : room ≤ room') :
    (e.course room).Extended (e.course room') := by
  induction room generalizing e room' with
  | zero => exact fun enough => absurd ⟨[], by rw [e.course_zero]; rfl⟩ enough
  | succ room ih =>
      obtain ⟨room', rfl⟩ := Nat.exists_eq_add_one.2 (Nat.lt_of_lt_of_le room.succ_pos le)
      have operand (e : Expr) (step : Step) :
          ((e.course room).within step).Extended ((e.course room').within step) :=
        (ih e (Nat.le_of_succ_le_succ le)).within step
      cases e with
      | literal value => exact fun _ => rfl
      | grouping inner => exact operand inner .inner
      | unary op arg => exact ((operand arg .arg).andThen fun value _ => rfl).entering op
      | binary op lhs rhs =>
          exact ((operand lhs .left).andThen fun left =>
            (operand rhs .right).andThen fun right _ => rfl).entering op

/-- Only a tree that is higher than the room is refused. -/
theorem lt_height_of_tooDeep {e : Expr} {room : Nat} (deep : (e.course room).TooDeep) :
    room < e.height := by
  induction room generalizing e with
  | zero => exact e.height_pos
  | succ room ih =>
      cases e with
      | literal value =>
          obtain ⟨path, failed⟩ := deep
          cases failed
      | grouping inner => exact Nat.succ_lt_succ (ih (tooDeep_within_iff.1 deep))
      | unary op arg =>
          obtain inArg | ⟨value, -, applied⟩ := tooDeep_andThen_iff.1 deep
          · exact Nat.succ_lt_succ (ih (tooDeep_within_iff.1 inArg))
          · exact absurd applied (not_tooDeep_answer _ _)
      | binary op lhs rhs =>
          obtain inLeft | ⟨left, -, behind⟩ := tooDeep_andThen_iff.1 deep
          · have high := ih (tooDeep_within_iff.1 inLeft)
            exact Nat.succ_lt_succ (Nat.lt_of_lt_of_le high (Nat.le_max_left ..))
          · obtain inRight | ⟨right, -, applied⟩ := tooDeep_andThen_iff.1 behind
            · have high := ih (tooDeep_within_iff.1 inRight)
              exact Nat.succ_lt_succ (Nat.lt_of_lt_of_le high (Nat.le_max_right ..))
            · exact absurd applied (not_tooDeep_answer _ _)

/-- Every node of a tree that has a value was evaluated, the lowest ones too. -/
theorem height_le_of_course_eq_ok {e : Expr} {room : Nat} {value : Value}
    (done : (e.course room).result = .ok value) : e.height ≤ room := by
  induction room generalizing e value with
  | zero =>
      rw [e.course_zero] at done
      cases done
  | succ room ih =>
      cases e with
      | literal value => exact Nat.le_add_left 1 room
      | grouping inner => exact Nat.succ_le_succ (ih (result_within_eq_ok_iff.1 done))
      | unary op arg =>
          obtain ⟨operand, found, -⟩ := result_andThen_eq_ok_iff.1 done
          exact Nat.succ_le_succ (ih (result_within_eq_ok_iff.1 found))
      | binary op lhs rhs =>
          obtain ⟨left, foundLeft, behind⟩ := result_andThen_eq_ok_iff.1 done
          obtain ⟨right, foundRight, -⟩ := result_andThen_eq_ok_iff.1 behind
          have low := ih (result_within_eq_ok_iff.1 foundLeft)
          have low' := ih (result_within_eq_ok_iff.1 foundRight)
          exact Nat.succ_le_succ (Nat.max_le.2 ⟨low, low'⟩)

end Expr

/-! ## Evaluation under a limit -/

namespace Interpreter

variable {α : Type} {i : Interpreter} {c : Course α}

/-- The interpreter with another limit. -/
def withLimit (i : Interpreter) (limit : Nat) : Interpreter :=
  { i with limit }

theorem follow_eq_ok_iff {value : α} : (i.follow c).1 = .ok value ↔ c.result = .ok value := by
  cases came : c.result <;> simp [follow, came]

/-- This is how lack of room is told, and nothing else is told so. -/
theorem follow_eq_nestingTooDeep_iff {line limit : Nat} :
    (i.follow c).1 = .error (.nestingTooDeep line limit) ↔
      c.TooDeep ∧ line = (i.follow c).2.line ∧ limit = i.limit := by
  cases came : c.result with
  | ok value => simp [follow, came, Course.TooDeep]
  | error failure =>
      obtain ⟨path, stop⟩ := failure
      cases stop <;>
        simp [follow, came, Course.TooDeep, Failure.error, eq_comm]

/-- The result says that a tree is nested too deep. -/
def SaysTooDeep (result : Except RuntimeError α) : Prop :=
  ∃ line limit, result = .error (.nestingTooDeep line limit)

theorem saysTooDeep_follow_iff : SaysTooDeep (i.follow c).1 ↔ c.TooDeep := by
  simp only [SaysTooDeep, follow_eq_nestingTooDeep_iff]
  constructor
  · rintro ⟨line, limit, deep, -⟩
    exact deep
  · intro deep
    exact ⟨_, _, deep, rfl, rfl⟩

/-- The limit is named in no other answer. -/
theorem follow_withLimit (i : Interpreter) (passes : ¬ c.TooDeep) (limit : Nat) :
    (i.withLimit limit).follow c = ((i.follow c).1, (i.follow c).2.withLimit limit) := by
  cases came : c.result with
  | ok value => simp [follow, withLimit, came]
  | error failure =>
      obtain ⟨path, stop⟩ := failure
      cases stop with
      | tooDeep => exact absurd ⟨path, came⟩ passes
      | type op fault => simp [follow, withLimit, came, Failure.error]

/-- **The limit on evaluation is exact, and what it lets pass stays as it is.**  For limits
`m ≤ m'` and any tree: what evaluation comes to under `m`, be it a value or the error of an
operator, it comes to under `m'`, and leaves the interpreter just so, unless it is refused under
`m`.  A refusal names `m` and the tree is higher than that; a tree with a value is no higher; and
a tree that has a value under any limit is refused under all that are lower than its height. -/
theorem evaluate_withLimit (i : Interpreter) (e : Expr) {m m' : Nat} (le : m ≤ m') :
    (∀ result j, (i.withLimit m).evaluate e = (result, j) → ¬ SaysTooDeep result →
        (i.withLimit m').evaluate e = (result, j.withLimit m')) ∧
      (∀ line limit, ((i.withLimit m).evaluate e).1 = .error (.nestingTooDeep line limit) →
        limit = m ∧ m < e.height) ∧
      (∀ value, ((i.withLimit m).evaluate e).1 = .ok value → e.height ≤ m) ∧
      (e.height ≤ m → ¬ SaysTooDeep ((i.withLimit m).evaluate e).1) ∧
      ∀ M value, ((i.withLimit M).evaluate e).1 = .ok value → m < e.height →
        ∃ line, ((i.withLimit m).evaluate e).1 = .error (.nestingTooDeep line m) := by
  simp only [evaluate_eq_follow]
  have value {M : Nat} {v : Value}
      (found : ((i.withLimit M).follow (e.course M)).1 = .ok v) : e.height ≤ M :=
    Expr.height_le_of_course_eq_ok (follow_eq_ok_iff.1 found)
  refine ⟨?_, ?_, fun v found => value found, ?_, ?_⟩
  · intro result j came passes
    obtain ⟨rfl, rfl⟩ := Prod.ext_iff.1 came
    rw [saysTooDeep_follow_iff] at passes
    have same : e.course m' = e.course m := e.course_extended le passes
    exact (congrArg (i.withLimit m').follow same).trans (follow_withLimit (i.withLimit m) passes m')
  · intro line limit refused
    obtain ⟨deep, -, named⟩ := follow_eq_nestingTooDeep_iff.1 refused
    exact ⟨named, Expr.lt_height_of_tooDeep deep⟩
  · intro low deep
    have high := Expr.lt_height_of_tooDeep (saysTooDeep_follow_iff.1 deep)
    exact absurd low (Nat.not_le.2 high)
  · intro M v found high
    have le : m ≤ M := Nat.le_trans (Nat.le_of_lt high) (value found)
    by_cases deep : (e.course m).TooDeep
    · exact ⟨_, follow_eq_nestingTooDeep_iff.2 ⟨deep, rfl, rfl⟩⟩
    · have same : e.course M = e.course m := e.course_extended le deep
      have done := follow_eq_ok_iff.1 found
      rw [show (i.withLimit M).limit = M from rfl, same] at done
      exact absurd (Expr.height_le_of_course_eq_ok done) (Nat.not_le.2 high)

/-- A negation of `nil` in front of a `nil` three levels down. -/
def shallowFault : Expr :=
  .binary ⟨.symbol .plus, "+", 1⟩ (.unary ⟨.symbol .bang, "!", 2⟩ (.literal .nil))
    (.grouping (.grouping (.literal .nil)))

/-- With room for two levels the negation is not judged; with room for three it is refused for
its operand, and hides that the other operand is too deep. -/
theorem evaluate_withLimit_shallowFault :
    let i : Interpreter := {}
    let fault : RuntimeError := .type ⟨.symbol .bang, "!", 2⟩ .logicalNot
    2 ≤ 3 ∧ 3 ≤ 4 ∧ shallowFault.height = 4 ∧
      ((i.withLimit 2).evaluate shallowFault).1 = .error (.nestingTooDeep 2 2) ∧
      2 < shallowFault.height ∧
      ((i.withLimit 3).evaluate shallowFault).1 = .error fault ∧
      ((i.withLimit 4).evaluate shallowFault).1 = .error fault ∧
      ((i.withLimit 3).evaluate (.grouping (.grouping (.literal .nil)))).1 = .ok .nil ∧
      ∃ line, ((i.withLimit 2).evaluate (.grouping (.grouping (.literal .nil)))).1 =
        .error (.nestingTooDeep line 2) := by
  intro i fault
  have refused : ((i.withLimit 2).evaluate shallowFault).1 = .error (.nestingTooDeep 2 2) := by rfl
  have found : ((i.withLimit 3).evaluate (.grouping (.grouping (.literal .nil)))).1 =
      .ok .nil := by
    rfl
  have reached : (i.withLimit 3).evaluate shallowFault =
      (.error fault, { i with line := 2, limit := 3 }) := by
    rfl
  obtain ⟨-, high, -⟩ := evaluate_withLimit i shallowFault (by decide : 2 ≤ 3)
  obtain ⟨stays, -⟩ := evaluate_withLimit i shallowFault (by decide : 3 ≤ 4)
  obtain ⟨-, -, -, -, exact⟩ := evaluate_withLimit i (.grouping (.grouping (.literal .nil)))
    (by decide : 2 ≤ 3)
  have kept := stays _ _ reached (by simp [SaysTooDeep, fault])
  exact ⟨by decide, by decide, rfl, refused, (high 2 2 refused).2, congrArg Prod.fst reached,
    congrArg Prod.fst kept, found, exact 3 .nil found (by decide)⟩

end Interpreter

end Lox
