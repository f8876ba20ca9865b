/-
# Lox.Proofs.Independence -- every text is a program of its own

A session goes on with one interpreter, in which the line of the last operator is left behind
by whatever was executed, and failed, before.  On a sink that never fails none of that shows:
the one error that would name the line is out of reach of every accepted program, so what is
asked of a session is answered as it is by a new one.

* `Session.Able`, `Session.Steady` -- sessions whose sink never fails; `Able.after` says that
  they stay so, and `Session.Writes` what they write.
* `Session.Able.run_of_ok`, `Session.Able.execute_of_ok` -- they do what a program says, and
  nothing else matters.
* `Session.agrees_with_fresh` -- any session and a new one.
-/
import Lox.Proofs.Acceptance

namespace Lox.Session

set_option autoImplicit false

open Stmt

/-! ## Sessions whose sink never fails -/

/-- A session with these limits and room for whatever it accepts, whose sink never fails. -/
structure Able (config : Config) (s : Session) : Prop extends s.Fits config where
  boundless : s.interpreter.sink.Boundless

/-- A session with these limits, whatever it was asked to do, whose sink never fails. -/
def Steady (config : Config) (s : Session) : Prop :=
  ∃ sink calls, sink.Boundless ∧ s = (start config sink).afterAll calls

/-- A call makes the session write these bytes. -/
def Adds (s : Session) (call : Call) (bytes : ByteArray) : Prop :=
  (s.after call).interpreter.sink.content = s.interpreter.sink.content ++ bytes

/-- The session writes these bytes when it runs the text. -/
def Writes (s : Session) (text : String) (bytes : ByteArray) : Prop :=
  (s.run text).2.interpreter.sink.content = s.interpreter.sink.content ++ bytes

theorem able_start (config : Config) {sink : Sink} (boundless : sink.Boundless) :
    (start config sink).Able config :=
  ⟨⟨rfl, rfl⟩, boundless⟩

namespace Able

variable {config : Config} {s : Session} {text : String}

/-- No call takes the limits, the room or the sink away. -/
theorem after (able : s.Able config) (call : Call) : (s.after call).Able config := by
  have writing (sink : Sink) (bytes : ByteArray) (boundless : sink.Boundless) :
      (sink.write bytes).2.Boundless := by
    rw [boundless.write]
    exact boundless.holding bytes
  obtain ⟨config_eq, limit_eq, boundless⟩ := after_preserves (s := s)
    (P := fun config' i => config' = config ∧
      i.limit = max config.maxEvalDepth config.maxDepth ∧ i.sink.Boundless)
    (fun _ i program before => ⟨before.1, (i.interpret_limit program).trans before.2.1,
      Interpreter.interpret_sink writing program before.2.2⟩)
    ⟨able.config_eq, able.limit_eq, able.boundless⟩ call
  exact ⟨⟨config_eq, limit_eq⟩, boundless⟩

theorem afterAll (able : s.Able config) (calls : List Call) : (s.afterAll calls).Able config := by
  induction calls generalizing s with
  | nil => exact able
  | cons call calls ih => exact ih (able.after call)

theorem run_of_error (able : s.Able config) {faults : List Diagnostic}
    (rejected : programOfText config.maxDepth text = .error faults) :
    (s.run text).1 = .error (.rejected faults) ∧ s.Writes text .empty := by
  rw [← able.config_eq] at rejected
  rw [Writes, Session.run_of_error rejected]
  exact ⟨rfl, ByteArray.append_empty.symm⟩

/-- The program of an accepted text is executed to what its trace says. -/
theorem execute_of_ok (able : s.Able config) {program : List Stmt}
    (accepted : programOfText config.maxDepth text = .ok program) :
    (s.execute program).1 = (trace program).2.mapError .stopped ∧
      s.Adds (.execute program) (trace program).1 := by
  obtain ⟨result, written⟩ :=
    Interpreter.interpret_of_boundless (able.height_le accepted) able.boundless
  rw [Adds, Session.after, execute_fst, execute_interpreter, result, written]
  exact ⟨rfl, rfl⟩

/-- An accepted text is run to what its trace says. -/
theorem run_of_ok (able : s.Able config) {program : List Stmt}
    (accepted : programOfText config.maxDepth text = .ok program) :
    (s.run text).1 = (trace program).2.mapError .stopped ∧ s.Writes text (trace program).1 := by
  have executed := able.execute_of_ok accepted
  rw [← able.config_eq] at accepted
  rw [Writes, Session.run_of_ok accepted]
  exact executed

/-- Whether a text is accepted does not hang on what was done before. -/
theorem parse_eq (able : s.Able config) (text : String) :
    (s.parse text).1 = (programOfText config.maxDepth text).mapError .rejected := by
  rw [parse_fst, able.config_eq]

theorem parse_eq_ok (able : s.Able config) {program : List Stmt}
    (parsed : (s.parse text).1 = .ok program) :
    programOfText config.maxDepth text = .ok program := by
  rw [able.parse_eq] at parsed
  exact mapError_eq_ok parsed

theorem parse_eq_error (able : s.Able config) {error : RunError}
    (failed : (s.parse text).1 = .error error) :
    ∃ faults, error = .rejected faults ∧ programOfText config.maxDepth text = .error faults := by
  rw [able.parse_eq] at failed
  obtain ⟨faults, came, rfl⟩ := mapError_eq_error failed
  exact ⟨faults, rfl, came⟩

end Able

theorem Steady.able {config : Config} {s : Session} (steady : s.Steady config) :
    s.Able config := by
  obtain ⟨sink, calls, boundless, rfl⟩ := steady
  exact (able_start config boundless).afterAll calls

/-! ## Answers -/

/-- What a call is answered with. -/
inductive Answer where
  | ran (result : Except RunError Unit)
  | parsed (result : Except RunError (List Stmt))
  | reset

/-- The answer to a call. -/
def answer (s : Session) : Call → Answer
  | .run text => .ran (s.run text).1
  | .parse text => .parsed (s.parse text).1
  | .execute program => .ran (s.execute program).1
  | .resetErrors => .reset

/-- A call that can be made of every session with these limits: a program to execute has been
parsed under them, by some session and from some text. -/
inductive Issued (config : Config) : Call → Prop
  | run (text : String) : Issued config (.run text)
  | parse (text : String) : Issued config (.parse text)
  | execute {sink : Sink} {calls : List Call} {text : String} {program : List Stmt}
      (parsed : (((start config sink).afterAll calls).parse text).1 = .ok program) :
      Issued config (.execute program)
  | resetErrors : Issued config .resetErrors

/-- Two sessions answer a call alike, and it makes them write the same. -/
structure Agree (s s' : Session) (call : Call) : Prop where
  answer : s.answer call = s'.answer call
  added : ∃ bytes, s.Adds call bytes ∧ s'.Adds call bytes

theorem adds_parse (s : Session) (text : String) : s.Adds (.parse text) .empty := by
  rw [Adds, after, ByteArray.append_empty, parse]
  cases programOfText s.config.maxDepth text <;> rfl

/-- Where no sink fails, the limits alone decide what a call is answered with. -/
theorem Able.agree {config : Config} {s s' : Session} (able : s.Able config)
    (able' : s'.Able config) {call : Call} (issued : Issued config call) :
    s.Agree s' call := by
  cases issued with
  | resetErrors => exact ⟨rfl, .empty, ByteArray.append_empty.symm, ByteArray.append_empty.symm⟩
  | parse text =>
      refine ⟨?_, .empty, ?_, ?_⟩
      · rw [answer, answer, able.parse_eq, able'.parse_eq]
      · exact s.adds_parse text
      · exact s'.adds_parse text
  | @execute sink calls text program parsed =>
      rw [parse_fst, (fits_afterAll config sink calls).config_eq] at parsed
      have accepted := mapError_eq_ok parsed
      obtain ⟨answer, added⟩ := able.execute_of_ok accepted
      obtain ⟨answer', added'⟩ := able'.execute_of_ok accepted
      exact ⟨congrArg Answer.ran (answer.trans answer'.symm), _, added, added'⟩
  | run text =>
      cases came : programOfText config.maxDepth text with
      | ok program =>
          obtain ⟨answer, added⟩ := able.run_of_ok came
          obtain ⟨answer', added'⟩ := able'.run_of_ok came
          exact ⟨congrArg Answer.ran (answer.trans answer'.symm), _, added, added'⟩
      | error faults =>
          obtain ⟨answer, added⟩ := able.run_of_error came
          obtain ⟨answer', added'⟩ := able'.run_of_error came
          exact ⟨congrArg Answer.ran (answer.trans answer'.symm), _, added, added'⟩

/-- **A session has no hidden memory.**  Take a session whose sink never fails, whatever it was
asked to do before and however that ended, and a new one with the same limits.  Any text is run
and parsed by both to the same result, and any program that was parsed under these limits is
executed by both to the same result, with the same diagnostics or the same error at the same
operator; and both write the same for it. -/
theorem agrees_with_fresh (config : Config) {sink sink' : Sink} (boundless : sink.Boundless)
    (boundless' : sink'.Boundless) (calls : List Call) {call : Call}
    (issued : Issued config call) :
    ((start config sink).afterAll calls).Agree (start config sink') call := by
  have used : ((start config sink).afterAll calls).Steady config := ⟨sink, calls, boundless, rfl⟩
  have fresh : (start config sink').Steady config := ⟨sink', [], boundless', rfl⟩
  exact used.able.agree fresh.able issued

/-- A tree that is too high for two levels, with operators far down a text. -/
def steepProgram : List Stmt :=
  [.expression (.unary ⟨.symbol .minus, "-", 8⟩ (.unary ⟨.symbol .minus, "-", 9⟩ (.literal .nil)))]

/-- A session that was too low for a program, and rejected a text after that, still holds the
line where the program was given up; but a text is run as it is by a new one, to its error. -/
theorem agrees_with_fresh_steepProgram :
    let used := (start ⟨2, 2⟩).afterAll [.execute steepProgram, .run "print nil;\n)"]
    used.interpreter.line = 9 ∧ (start ⟨2, 2⟩).interpreter.line = 1 ∧
      (used.run "print \"a\";\n-nil;").1 =
        .error (.stopped (.type ⟨.symbol .minus, "-", 2⟩ .negation)) ∧
      used.Agree (start ⟨2, 2⟩) (.run "print \"a\";\n-nil;") := by
  intro used
  have line : ((start ⟨2, 2⟩).afterAll
      [.execute steepProgram, .run "print nil;\n)"]).interpreter.line = 9 := by cbv
  have boundless : ({} : Sink).Boundless := ⟨rfl, rfl⟩
  have agree : used.Agree (start ⟨2, 2⟩) (.run "print \"a\";\n-nil;") :=
    agrees_with_fresh ⟨2, 2⟩ boundless boundless _ (.run _)
  have ran : ((start ⟨2, 2⟩).run "print \"a\";\n-nil;").1 =
      .error (.stopped (.type ⟨.symbol .minus, "-", 2⟩ .negation)) := by cbv
  have same : (used.run "print \"a\";\n-nil;").1 = ((start ⟨2, 2⟩).run "print \"a\";\n-nil;").1 :=
    Answer.ran.inj agree.answer
  exact ⟨line, rfl, same.trans ran, agree⟩

end Lox.Session
