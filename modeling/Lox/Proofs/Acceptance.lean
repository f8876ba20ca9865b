/-
# Lox.Proofs.Acceptance -- what a session accepts, it can evaluate

A text is accepted if scanning and parsing have nothing to report, and then its program is
read from all of its tokens.  Its trees fit into the room that evaluation has, and their
operators are tokens of the text which evaluation knows; so the only thing in a program that
can stop it is an operator whose operands have values of the wrong types.

* `programOfText_eq_ok_iff` -- which texts are accepted, and with which program.
* `RuntimeError.Warranted` -- what may stop the program of a text.
* `Session.warranted_of_stopped` -- nothing else stops it, in any session.
-/
import Lox.Proofs.Scanned
import Lox.Proofs.Sentences
import Lox.Proofs.Sessions

namespace Lox

set_option autoImplicit false

open Stmt

/-! ## Accepted texts -/

variable {maxDepth : Nat} {text : String} {program : List Stmt}

theorem programOfText_eq_ok_iff_silent :
    programOfText maxDepth text = .ok program ↔
      (Parser.ofText text maxDepth).program.2.reported = [] ∧
        (Parser.ofText text maxDepth).program.1 = program := by
  unfold programOfText
  split <;> simp_all

/-- A text is rejected with everything that is reported of it. -/
theorem programOfText_eq_error_iff {faults : List Diagnostic} :
    programOfText maxDepth text = .error faults ↔
      (Parser.ofText text maxDepth).program.2.reported = faults ∧ faults ≠ [] := by
  unfold programOfText
  split
  · simp_all
  · constructor
    · rintro ⟨⟩
      simp_all
    · simp_all

/-- A text is accepted if it has no lexical fault and all its tokens are statements one behind
the other. -/
theorem programOfText_eq_ok_iff :
    programOfText maxDepth text = .ok program ↔
      (Scan.ofText text).faults = [] ∧
        Sentences maxDepth program (Scan.ofChars 1 text.toList).tokens := by
  rw [← Parse.attempts_eq_map_done_iff, ← Parser.ahead_ofText text maxDepth,
    ← Parser.eq_map_done_iff (Parser.ofText text maxDepth), programOfText_eq_ok_iff_silent,
    Parser.program_eq]
  dsimp only
  rw [List.append_eq_nil_iff, and_assoc, and_comm (a := List.filterMap _ _ = program)]
  rfl

/-! ## What stops an accepted program -/

/-- The error can stop the program of the text: the sink refuses, or an operator that the text
holds has operands with values of other types than it asks for. -/
structure RuntimeError.Warranted (text : String) (program : List Stmt) (error : RuntimeError) :
    Prop where
  notTooDeep : ∀ line limit, error ≠ .nestingTooDeep line limit
  known : ∀ op fault, error = .type op fault →
    fault.message ≠ "Invalid unary operator." ∧ fault.message ≠ "Invalid binary operator."
  cause : (∃ line fault, error = .output line fault) ∨
    ∃ op fault, error = .type op fault ∧ op ∈ (Scan.ofText text).tokens ∧ op.IsOperator ∧
      ∃ stmt ∈ program, stmt.expr.value = .error error ∧ stmt.expr.Misapplied op

theorem RuntimeError.warranted_of_output (text : String) (program : List Stmt) (line : Nat)
    (fault : SinkFault) : (RuntimeError.output line fault).Warranted text program where
  notTooDeep _ _ := by rintro ⟨⟩
  known _ _ := by rintro ⟨⟩
  cause := .inl ⟨line, fault, rfl⟩

/-- A statement of an accepted text has a value, or an operator of the text is misapplied. -/
theorem RuntimeError.warranted_of_value
    (accepted : programOfText maxDepth text = .ok program) {stmt : Stmt} (member : stmt ∈ program)
    {error : RuntimeError} (failed : stmt.expr.value = .error error) :
    error.Warranted text program := by
  obtain ⟨read, within, canonical, -, yields⟩ :=
    (programOfText_eq_ok_iff.1 accepted).2.scattered.exists_sentence member
  obtain ⟨inner, within', yields⟩ := yields.exists_expr
  obtain ⟨op, fault, rfl, ofOperands, misapplied⟩ :=
    Expr.misapplied_of_value_eq_error canonical failed
  constructor
  · rintro line limit ⟨⟩
  · rintro _ _ ⟨⟩
    exact ofOperands.message_ne
  · have scanned := within (within' (misapplied.mem_of_yields yields))
    exact .inr ⟨op, fault, rfl, List.mem_append_left _ scanned, misapplied.isOperator canonical,
      stmt, member, failed, misapplied⟩

namespace Session

/-- What the session accepts is no higher than evaluation descends. -/
theorem Fits.height_le {config : Config} {s : Session} (fits : s.Fits config)
    (accepted : programOfText config.maxDepth text = .ok program) :
    ∀ stmt ∈ program, stmt.expr.height ≤ s.interpreter.limit := by
  intro stmt member
  obtain ⟨_, _, sentence⟩ := (programOfText_eq_ok_iff.1 accepted).2.scattered.exists_sentence member
  rw [fits.limit_eq]
  exact sentence.low.trans (Nat.le_max_right _ _)

/-- Where there is room for what the session accepts, an accepted program stops for such an
error only. -/
theorem Fits.warranted {config : Config} {s : Session} (fits : s.Fits config)
    (accepted : programOfText config.maxDepth text = .ok program)
    {error : RuntimeError} (stopped : (s.execute program).1 = .error (.stopped error)) :
    error.Warranted text program := by
  rw [execute_fst] at stopped
  obtain ⟨_, failed, ⟨⟩⟩ := mapError_eq_error stopped
  obtain ⟨stmt, member, value⟩ | ⟨line, fault, rfl⟩ :=
    Interpreter.interpret_eq_error (fits.height_le accepted) failed
  · exact RuntimeError.warranted_of_value accepted member value
  · exact RuntimeError.warranted_of_output text program line fault

/-- **What a session accepts, it can evaluate.**  Take any session, whatever it was asked to do
before and whatever it writes to, and any limits, in whatever order.  If it runs a text, or
executes a program that a session with the same limits parsed from a text, then the only
errors that can stop it are those that the sink or the operands of the text's own operators
give rise to: never the depth of a tree, and never an operator that evaluation does not
know. -/
theorem warranted_of_stopped (config : Config) (sink : Sink) (calls : List Call) (text : String)
    (error : RuntimeError) :
    ((((start config sink).afterAll calls).run text).1 = .error (.stopped error) →
        ∃ program, programOfText config.maxDepth text = .ok program ∧
          error.Warranted text program) ∧
      ∀ (sink' : Sink) (calls' : List Call) (program : List Stmt),
        (((start config sink').afterAll calls').parse text).1 = .ok program →
          (((start config sink).afterAll calls).execute program).1 = .error (.stopped error) →
            error.Warranted text program := by
  have fits := fits_afterAll config sink calls
  constructor
  · intro stopped
    cases came : programOfText config.maxDepth text with
    | error faults =>
        rw [← fits.config_eq] at came
        rw [run_of_error came] at stopped
        cases stopped
    | ok program =>
        refine ⟨program, rfl, fits.warranted came ?_⟩
        rw [← fits.config_eq] at came
        rwa [← run_of_ok came]
  · intro sink' calls' program parsed stopped
    rw [parse_fst, (fits_afterAll config sink' calls').config_eq] at parsed
    exact fits.warranted (mapError_eq_ok parsed) stopped

/-- A session whose evaluation asks for less room than its trees may need, after a text that
it rejected. -/
def crampedSession : Session :=
  (start ⟨4, 1⟩).afterAll [.run "nil +;", .resetErrors]

/-- The sign of `nil` is refused, both when the text is run and when its program is executed,
and on its second level, to which evaluation was not set to descend. -/
theorem warranted_of_stopped_negatedNil :
    let error : RuntimeError := .type ⟨.symbol .minus, "-", 1⟩ .negation
    let program : List Stmt := [.print (.unary ⟨.symbol .minus, "-", 1⟩ (.literal .nil))]
    (crampedSession.run "print -nil;").1 = .error (.stopped error) ∧
      (crampedSession.parse "print -nil;").1 = .ok program ∧
      (crampedSession.execute program).1 = .error (.stopped error) ∧
      error.Warranted "print -nil;" program := by
  intro error program
  have ran : (crampedSession.run "print -nil;").1 = .error (.stopped error) := by cbv
  have parsed : (crampedSession.parse "print -nil;").1 = .ok program := by cbv
  have stopped : (crampedSession.execute program).1 = .error (.stopped error) := by cbv
  obtain ⟨run, execute⟩ := warranted_of_stopped ⟨4, 1⟩ {} [.run "nil +;", .resetErrors]
    "print -nil;" error
  obtain ⟨program', accepted, -⟩ := run ran
  exact ⟨ran, parsed, stopped, execute {} _ program parsed stopped⟩

end Session

end Lox
