/-
# Lox.Proofs.Reuse -- interpreters after any calls

An interpreter stays usable whatever it was asked to do and however that ended: it is at no level
of any tree again, and of what happened it keeps only the line of the operator entered last.  On
a sink that never fails that line shows in one answer.  A tree that is too deep is told with the
line of an operator, and where the call has entered none yet, it is the one kept from before.

* `Interpreter.Call`, `Interpreter.call`, `Interpreter.afterAll` -- the calls and their answers.
* `Interpreter.Call.course`, `Interpreter.call_eq_follow` -- a call follows its course.
* `Interpreter.afterAll_of_boundless` -- what is left behind by any calls.
* `Interpreter.call_afterAll` -- an interpreter after any calls and a new one.
-/
import Lox.Proofs.Depth
import Lox.Proofs.EvaluationLimit

namespace Lox

set_option autoImplicit false

namespace Interpreter

/-! ## Calls -/

/-- Something that an interpreter is asked to do. -/
inductive Call where
  | evaluate (e : Expr)
  | execute (stmt : Stmt)
  | interpret (program : List Stmt)

/-- Does what is asked, and answers with the value of an expression that was to be evaluated. -/
def call (i : Interpreter) : Call → Except RuntimeError (Option Value) × Interpreter
  | .evaluate e => Prod.map (Except.map some) id (i.evaluate e)
  | .execute stmt => Prod.map (Except.map fun () => none) id (i.execute stmt)
  | .interpret program => Prod.map (Except.map fun () => none) id (i.interpret program)

/-- The interpreter after a call. -/
def after (i : Interpreter) (call : Call) : Interpreter :=
  (i.call call).2

/-- The interpreter after calls, the first of them first. -/
def afterAll (i : Interpreter) (calls : List Call) : Interpreter :=
  calls.foldl after i

/-- The interpreter adds these bytes to its output for the call. -/
def Adds (i : Interpreter) (call : Call) (bytes : ByteArray) : Prop :=
  (i.after call).sink.content = i.sink.content ++ bytes

/-- The course of a call. -/
def Call.course (limit : Nat) : Call → Course (Option Value)
  | .evaluate e => (e.course limit).map some
  | .execute stmt => (stmt.course limit).map fun () => none
  | .interpret program => (Stmt.courseAll limit program).map fun () => none

/-- The operators that a call enters, in order. -/
def Call.entered (limit : Nat) (call : Call) : List Token :=
  (call.course limit).entered

variable {α : Type} {i : Interpreter}

theorem call_eq_follow (boundless : i.sink.Boundless) (call : Call) :
    i.call call = i.follow (call.course i.limit) := by
  cases call with
  | evaluate e => rw [Interpreter.call, evaluate_eq_follow, Call.course, follow_map]
  | execute stmt =>
      rw [Interpreter.call, execute_eq_follow boundless, Call.course, follow_map]
  | interpret program =>
      rw [Interpreter.call, interpret_eq_follow boundless, Call.course, follow_map]

theorem adds_of_boundless (boundless : i.sink.Boundless) (call : Call) :
    i.Adds call (call.course i.limit).written := by
  rw [Adds, after, call_eq_follow boundless]
  rfl

/-- What any calls leave behind is the line of the operator entered last, and what was written. -/
theorem afterAll_of_boundless (boundless : i.sink.Boundless) (calls : List Call) :
    (i.afterAll calls).limit = i.limit ∧
      (i.afterAll calls).line = lineAfter i.line (calls.flatMap (Call.entered i.limit)) ∧
      (i.afterAll calls).sink.Boundless := by
  induction calls generalizing i with
  | nil => exact ⟨rfl, rfl, boundless⟩
  | cons call calls ih =>
      have followed : i.after call = (i.follow (call.course i.limit)).2 :=
        congrArg Prod.snd (call_eq_follow boundless call)
      have stays : (i.after call).sink.Boundless := by
        rw [followed]
        exact boundless_follow boundless _
      have kept : (i.after call).limit = i.limit := by rw [followed]; rfl
      have moved : (i.after call).line = lineAfter i.line (call.entered i.limit) := by
        rw [followed]
        rfl
      obtain ⟨limit, line, boundless⟩ := ih stays
      rw [kept] at limit line
      rw [moved, ← lineAfter_append, ← List.flatMap_cons] at line
      exact ⟨limit, line, boundless⟩

/-! ## The same course on two interpreters -/

section Compared

variable {j : Interpreter} {c : Course α}

/-- A course that is not refused before its first operator is told alike by all interpreters
with one limit. -/
theorem follow_fst_congr (limit : i.limit = j.limit) (entered : c.TooDeep → c.entered ≠ []) :
    (i.follow c).1 = (j.follow c).1 := by
  cases came : c.result with
  | ok value => simp [follow, came]
  | error failure =>
      obtain ⟨path, stop⟩ := failure
      cases stop with
      | tooDeep =>
          have line := lineAfter_of_ne_nil (entered ⟨path, came⟩) i.line j.line
          simp [follow, came, line, limit]
      | type op fault => simp [follow, came, Failure.error]

/-- One that is refused before its first operator is told with the line kept from before. -/
theorem follow_fst_of_entered_eq_nil (deep : c.TooDeep) (none : c.entered = []) :
    (i.follow c).1 = .error (.nestingTooDeep i.line i.limit) :=
  follow_eq_nestingTooDeep_iff.2 ⟨deep, by simp [follow, none, lineAfter], rfl⟩

end Compared

end Interpreter

/-! ## Counting -/

namespace Counting

/-- Does what is asked. -/
def call (c : Counting) : Interpreter.Call → Except RuntimeError (Option Value) × Counting
  | .evaluate e => Prod.map (Except.map some) id (c.evaluate e)
  | .execute stmt => Prod.map (Except.map fun () => none) id (c.execute stmt)
  | .interpret program => Prod.map (Except.map fun () => none) id (c.interpret program)

/-- The interpreter after calls, the first of them first. -/
def afterAll (c : Counting) (calls : List Interpreter.Call) : Counting :=
  calls.foldl (fun c call => (c.call call).2) c

theorem call_mk (i : Interpreter) (call : Interpreter.Call) :
    (⟨i, 0⟩ : Counting).call call = ((i.call call).1, ⟨(i.call call).2, 0⟩) := by
  cases call with
  | evaluate e => rw [Counting.call, evaluate_mk]; rfl
  | execute stmt => rw [Counting.call, execute_mk]; rfl
  | interpret program => rw [Counting.call, interpret_mk]; rfl

/-- Behind any calls the count is where it was before them. -/
theorem afterAll_mk (i : Interpreter) (calls : List Interpreter.Call) :
    (⟨i, 0⟩ : Counting).afterAll calls = ⟨i.afterAll calls, 0⟩ := by
  induction calls generalizing i with
  | nil => rfl
  | cons call calls ih =>
      show ((⟨i, 0⟩ : Counting).call call).2.afterAll calls = _
      rw [call_mk]
      exact ih (i.after call)

end Counting

namespace Interpreter

/-! ## Any calls -/

/-- **An interpreter stays usable after any failure.**  Take an interpreter with any limit and a
sink that never fails, after any calls, whatever trees they were made on and whatever they came
to.  If it counts its levels, its count is zero again, and counting makes no difference to the
next call.  For that call it adds the same to its output as a new interpreter with that limit,
and gives the same answer, unless a tree is too deep and the call has entered no operator yet:
then the new interpreter tells line 1, and this one the line of the operator entered last in the
earlier calls, or line 1 if there was none. -/
theorem call_afterAll (limit : Nat) {sink sink' : Sink} (boundless : sink.Boundless)
    (boundless' : sink'.Boundless) (calls : List Call) (call : Call) :
    let used := ({ limit, sink } : Interpreter).afterAll calls
    let fresh : Interpreter := { limit, sink := sink' }
    let last := lineAfter 1 (calls.flatMap (Call.entered limit))
    ({ limit, sink } : Counting).afterAll calls = { toInterpreter := used, depth := 0 } ∧
      ({ toInterpreter := used, depth := 0 } : Counting).call call =
        ((used.call call).1, { toInterpreter := used.after call, depth := 0 }) ∧
      (∃ bytes, used.Adds call bytes ∧ fresh.Adds call bytes) ∧
      (¬ (SaysTooDeep (fresh.call call).1 ∧ call.entered limit = []) →
        (used.call call).1 = (fresh.call call).1) ∧
      (SaysTooDeep (fresh.call call).1 → call.entered limit = [] →
        (fresh.call call).1 = .error (.nestingTooDeep 1 limit) ∧
          (used.call call).1 = .error (.nestingTooDeep last limit)) := by
  intro used fresh last
  obtain ⟨same, line, stays⟩ :=
    afterAll_of_boundless (i := { limit, sink }) boundless calls
  have called : used.call call = used.follow (call.course limit) := by
    rw [call_eq_follow stays, same]
  have called' : fresh.call call = fresh.follow (call.course limit) :=
    call_eq_follow boundless' call
  refine ⟨Counting.afterAll_mk _ calls, Counting.call_mk used call, ?_, ?_, ?_⟩
  · have added := adds_of_boundless stays call
    rw [same] at added
    exact ⟨_, added, adds_of_boundless boundless' call⟩
  · intro told
    rw [called, called']
    apply follow_fst_congr same
    intro deep none
    exact told ⟨called' ▸ saysTooDeep_follow_iff.2 deep, none⟩
  · intro deep none
    rw [called', saysTooDeep_follow_iff] at deep
    rw [called, called', follow_fst_of_entered_eq_nil deep none,
      follow_fst_of_entered_eq_nil deep none, line, same]
    exact ⟨rfl, rfl⟩

/-- `((nil))`, a tree of three levels with no operator. -/
def nested : Expr :=
  .grouping (.grouping (.literal .nil))

/-- A comma, which is no operator, on line 9, and then a tree that is too deep. -/
def failedCalls : List Call :=
  [.evaluate (.unary ⟨.symbol .comma, ",", 9⟩ (.literal .nil)), .execute (.print nested)]

/-- The program prints a line and is then refused with the line of the comma; an operator on the
way down to the same tree has it refused with its own. -/
theorem call_afterAll_failedCalls :
    let used := ({ limit := 2 } : Interpreter).afterAll failedCalls
    let fresh : Interpreter := { limit := 2 }
    let program : Call := .interpret [.print (.literal .nil), .expression nested]
    let negation : Call := .evaluate (.unary ⟨.symbol .minus, "-", 4⟩ nested)
    ({} : Sink).Boundless ∧ program.entered 2 = [] ∧
      (fresh.call program).1 = .error (.nestingTooDeep 1 2) ∧
      (used.call program).1 = .error (.nestingTooDeep 9 2) ∧
      negation.entered 2 ≠ [] ∧ (fresh.call negation).1 = .error (.nestingTooDeep 4 2) ∧
      (used.call negation).1 = .error (.nestingTooDeep 4 2) := by
  intro used fresh program negation
  have boundless : ({} : Sink).Boundless := ⟨rfl, rfl⟩
  have refused : (fresh.call program).1 = .error (.nestingTooDeep 1 2) := by rfl
  have refused' : (fresh.call negation).1 = .error (.nestingTooDeep 4 2) := by rfl
  have entered : negation.entered 2 ≠ [] := List.cons_ne_nil _ _
  obtain ⟨-, -, -, -, kept⟩ := call_afterAll 2 boundless boundless failedCalls program
  obtain ⟨-, -, -, alike, -⟩ := call_afterAll 2 boundless boundless failedCalls negation
  exact ⟨boundless, rfl, refused, (kept ⟨1, 2, refused⟩ rfl).2, entered, refused',
    (alike fun told => entered told.2).trans refused'⟩

end Interpreter

end Lox
