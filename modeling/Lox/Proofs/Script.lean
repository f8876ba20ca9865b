/-
# Lox.Proofs.Script -- a text run by the command

A text with any fault is not run: its faults are told and nothing is written.  Any other text
writes a line for each value that it prints, up to the first statement that has no value; that
is told, and it alone makes the exit code differ from 0.  What is dumped comes before all that
is told and has no effect on anything else.

* `Stmt.Runs` -- what statements print, and what stops them; `Runs.trace_eq`.
* `Options.faults`, `Options.statements` -- what is wrong with a text, and what is read of it.
* `Options.output`, `Options.diagnostics` -- what a new session makes of a text.
* `Command.reply_script` -- the reply to a command line with a script.
-/
import Lox.Command.Reply
import Lox.Proofs.History
import Lox.Proofs.Independence

namespace Lox

set_option autoImplicit false

/-! ## What statements print -/

namespace Stmt

/-- What statements print up to the first that has no value, one text for each value, and what
is wrong with that statement, if there is one. -/
inductive Runs : List Stmt → List String → Option RuntimeError → Prop
  | done : Runs [] [] none
  | expression {e : Expr} {value : Value} {rest : List Stmt} {printed : List String}
      {stop? : Option RuntimeError} (computes : e.value = .ok value)
      (others : Runs rest printed stop?) : Runs (.expression e :: rest) printed stop?
  | print {e : Expr} {value : Value} {rest : List Stmt} {printed : List String}
      {stop? : Option RuntimeError} (computes : e.value = .ok value)
      (others : Runs rest printed stop?) : Runs (.print e :: rest) (value.text :: printed) stop?
  | stop {stmt : Stmt} {error : RuntimeError} {rest : List Stmt}
      (fails : stmt.expr.value = .error error) : Runs (stmt :: rest) [] (some error)

theorem exists_runs (program : List Stmt) : ∃ printed stop?, Runs program printed stop? := by
  induction program with
  | nil => exact ⟨[], none, .done⟩
  | cons stmt rest ih =>
      obtain ⟨printed, stop?, others⟩ := ih
      cases came : stmt.expr.value with
      | error error => exact ⟨[], some error, .stop came⟩
      | ok value =>
          cases stmt with
          | expression e => exact ⟨printed, stop?, .expression came others⟩
          | print e => exact ⟨value.text :: printed, stop?, .print came others⟩

theorem Runs.unique {program : List Stmt} {printed printed' : List String}
    {stop? stop?' : Option RuntimeError} (runs : Runs program printed stop?)
    (runs' : Runs program printed' stop?') : printed = printed' ∧ stop? = stop?' := by
  induction runs generalizing printed' with
  | done =>
      cases runs'
      exact ⟨rfl, rfl⟩
  | expression computes others ih =>
      cases runs' with
      | expression _ others' => exact ih others'
      | stop fails => cases computes.symm.trans fails
  | print computes others ih =>
      cases runs' with
      | print computes' others' =>
          cases computes.symm.trans computes'
          obtain ⟨rfl, rfl⟩ := ih others'
          exact ⟨rfl, rfl⟩
      | stop fails => cases computes.symm.trans fails
  | stop fails =>
      cases runs' with
      | stop fails' =>
          cases fails.symm.trans fails'
          exact ⟨rfl, rfl⟩
      | expression computes | print computes => cases fails.symm.trans computes

/-- Texts as they are printed: a line for each. -/
def printedLines (printed : List String) : String :=
  String.join (printed.map (· ++ "\n"))

/-- How a program ends that is stopped, or not. -/
def ended : Option RuntimeError → Except RuntimeError Unit
  | none => .ok ()
  | some error => .error error

/-- The trace of a program is what it prints, line by line. -/
theorem Runs.trace_eq {program : List Stmt} {printed : List String}
    {stop? : Option RuntimeError} (runs : Runs program printed stop?) :
    trace program = ((printedLines printed).toUTF8, ended stop?) := by
  induction runs with
  | done => rfl
  | @expression e value _ _ _ computes others ih =>
      have effect : (Stmt.expression e).effect = .ok .empty := by
        simp [Stmt.effect, Stmt.expr, computes]
      rw [trace_cons_of_ok effect, ih, ByteArray.empty_append]
  | @print e value _ _ _ computes others ih =>
      have effect : (Stmt.print e).effect = .ok (value.text ++ "\n").toUTF8 := by
        simp [Stmt.effect, Stmt.expr, computes]
      rw [trace_cons_of_ok effect, ih]
      simp [printedLines]
  | @stop stmt error _ fails =>
      have effect : stmt.effect = .error error := by simp [Stmt.effect, fails]
      rw [trace_cons_of_error effect]
      rfl

end Stmt

namespace Command

open Stmt

/-! ## What is read of a text -/

/-- What is wrong with a text: its lexical faults, and then those of its tokens. -/
def Options.faults (o : Options) (text : String) : List Diagnostic :=
  (Scan.ofText text).faults ++
    (Parser.ofTokens (Scan.ofText text).tokens o.maxDepth).program.2.reported

/-- The statements that are read of a text. -/
def Options.statements (o : Options) (text : String) : List Stmt :=
  (Parser.ofTokens (Scan.ofText text).tokens o.maxDepth).program.1

variable {o : Options} {text : String}

theorem programOfText_of_faults (faulty : o.faults text ≠ []) :
    programOfText o.maxDepth text = .error (o.faults text) :=
  programOfText_eq_error_iff.2 ⟨Parser.reported_ofText text o.maxDepth, faulty⟩

theorem programOfText_of_faultless (faultless : o.faults text = []) :
    programOfText o.maxDepth text = .ok (o.statements text) := by
  refine programOfText_eq_ok_iff_silent.2
    ⟨(Parser.reported_ofText text o.maxDepth).trans faultless, ?_⟩
  rw [Options.statements, Parser.program_eq, Parser.program_eq]
  rfl

/-! ## What a new session makes of a text -/

/-- What a text writes when a new session with these settings runs it. -/
def Options.output (o : Options) (text : String) : ByteArray :=
  (o.session.run text).2.interpreter.sink.content

/-- What there is to tell of a text when a new session with these settings runs it. -/
def Options.diagnostics (o : Options) (text : String) : List Diagnostic :=
  match (o.session.run text).1 with
  | .ok () => []
  | .error e => e.diagnostics

theorem reported_run (o : Options) (text : String) :
    reported (o.session.run text).1 = Diagnostic.report (o.diagnostics text) := by
  unfold Options.diagnostics
  cases (o.session.run text).1 <;> rfl

theorem able_session (o : Options) : o.session.Able { maxDepth := o.maxDepth } :=
  Session.able_start _ ⟨rfl, rfl⟩

/-- A text with faults is not run. -/
theorem run_of_faults (faulty : o.faults text ≠ []) :
    (o.session.run text).1 = .error (.rejected (o.faults text)) ∧ o.output text = .empty := by
  obtain ⟨result, written⟩ := (able_session o).run_of_error (programOfText_of_faults faulty)
  exact ⟨result, written.trans ByteArray.empty_append⟩

/-- A text without faults is run to its end, or to what stops it. -/
theorem run_of_faultless (faultless : o.faults text = []) {printed : List String}
    {stop? : Option RuntimeError} (runs : Runs (o.statements text) printed stop?) :
    (o.session.run text).1 = (ended stop?).mapError .stopped ∧
      o.output text = (printedLines printed).toUTF8 := by
  obtain ⟨result, written⟩ := (able_session o).run_of_ok (programOfText_of_faultless faultless)
  rw [runs.trace_eq] at result written
  exact ⟨result, written.trans ByteArray.empty_append⟩

section Runs

variable {printed : List String} {stop? : Option RuntimeError}

theorem output_eq (runs : Runs (o.statements text) printed stop?) :
    o.output text = if o.faults text = [] then (printedLines printed).toUTF8 else .empty := by
  by_cases faultless : o.faults text = []
  · rw [if_pos faultless, (run_of_faultless faultless runs).2]
  · rw [if_neg faultless, (run_of_faults faultless).2]

theorem diagnostics_eq (runs : Runs (o.statements text) printed stop?) :
    o.diagnostics text = if o.faults text = [] then stop?.toList.map RuntimeError.diagnostic
      else o.faults text := by
  unfold Options.diagnostics
  by_cases faultless : o.faults text = []
  · rw [if_pos faultless, (run_of_faultless faultless runs).1]
    cases stop? <;> rfl
  · rw [if_neg faultless, (run_of_faults faultless).1]
    rfl

/-- The flag says whether a text was run and stopped. -/
theorem hadRuntimeError_iff (runs : Runs (o.statements text) printed stop?) :
    (o.session.run text).2.hadRuntimeError = true ↔ o.faults text = [] ∧ stop?.isSome := by
  have flag := o.session.after_hadRuntimeError (.run text)
  have lowered : o.session.hadRuntimeError = false := rfl
  rw [lowered] at flag
  refine flag.trans ⟨?_, ?_⟩
  · rintro (⟨error, ⟨stopped⟩⟩ | ⟨-, ⟨⟩⟩)
    by_cases faultless : o.faults text = []
    · rw [(run_of_faultless faultless runs).1] at stopped
      refine ⟨faultless, ?_⟩
      cases stop? with
      | none => cases stopped
      | some error => rfl
    · rw [(run_of_faults faultless).1] at stopped
      cases stopped
  · rintro ⟨faultless, stops⟩
    obtain ⟨error, rfl⟩ := Option.isSome_iff_exists.1 stops
    exact .inl ⟨error, .run (run_of_faultless faultless runs).1⟩

end Runs

theorem fromUTF8?_toUTF8 (text : String) : String.fromUTF8? text.toUTF8 = some text :=
  dif_pos text.isValidUTF8

theorem runScript_toUTF8 (o : Options) (path text : String) :
    runScript o path (.ok text.toUTF8) =
      { stdout := o.output text
        stderr := o.dump text ++ Diagnostic.report (o.diagnostics text)
        code := if (o.session.run text).2.hadRuntimeError then 70 else 0 } := by
  rw [runScript, asText]
  dsimp only
  rw [fromUTF8?_toUTF8]
  dsimp only
  rw [reported_run, Options.output]

theorem reply_of_script {readFile : String → Except ReadFailure ByteArray} {args : List String}
    (asked : Request.ofArgs args = .run o) {path : String} (named : o.script? = some path)
    (content : readFile path = .ok text.toUTF8) (input : ByteArray) :
    reply readFile input args = runScript o path (.ok text.toUTF8) := by
  rw [reply, asked]
  dsimp only
  rw [named]
  dsimp only
  rw [content]

/-! ## What is dumped -/

/-- The trees are dumped of a text without faults only, and its tokens of any. -/
theorem dump_eq (o : Options) (text : String) :
    o.dump text = (if o.dumpTokens then tokenDump (Scan.ofText text).tokens else "") ++
      if o.faults text = [] then
        (o.dumpTrees.map fun form => treeDump form (o.statements text)).getD ""
      else "" := by
  unfold Options.dump
  by_cases faultless : o.faults text = []
  · rw [if_pos faultless, programOfText_of_faultless faultless]
    cases o.dumpTrees <;> rfl
  · rw [if_neg faultless, programOfText_of_faults faultless]
    cases o.dumpTrees <;> rfl

/-! ## The reply -/

/-- **What running a script comes to.**  Take any settings and any script that is text in UTF-8.
The exit code is 70 if there is no fault in it but a statement that stops it, and 0 otherwise.
Nothing is written if there is a fault; otherwise the lines are that its statements print before
the one that stops it, or all.  Told are first the tokens, if they are asked for, whatever else
is wrong; then the trees, if they are asked for and there is no fault; and then all faults, or
what stops it.  So whatever is asked to be dumped, and wherever the script lies, what is written
and the exit code hang on the script and the limit on trees alone. -/
theorem reply_script {readFile : String → Except ReadFailure ByteArray} {args : List String}
    (asked : Request.ofArgs args = .run o) {path : String} (named : o.script? = some path)
    (content : readFile path = .ok text.toUTF8) (input : ByteArray) :
    (∃ printed stop?,
      (∀ printed' stop?', Runs (o.statements text) printed' stop?' ↔
        printed' = printed ∧ stop?' = stop?) ∧
      reply readFile input args =
        { stdout := if o.faults text = [] then (printedLines printed).toUTF8 else .empty
          stderr := (if o.dumpTokens then tokenDump (Scan.ofText text).tokens else "") ++
            (if o.faults text = [] then
              (o.dumpTrees.map fun form => treeDump form (o.statements text)).getD ""
            else "") ++
            Diagnostic.report (if o.faults text = [] then
              stop?.toList.map RuntimeError.diagnostic else o.faults text)
          code := if o.faults text = [] ∧ stop?.isSome then 70 else 0 }) ∧
    ∀ readFile' input' args' o' path', Request.ofArgs args' = .run o' →
      o'.script? = some path' → readFile' path' = .ok text.toUTF8 → o'.maxDepth = o.maxDepth →
        (reply readFile' input' args').stdout = (reply readFile input args).stdout ∧
          (reply readFile' input' args').code = (reply readFile input args).code := by
  constructor
  · obtain ⟨printed, stop?, runs⟩ := exists_runs (o.statements text)
    refine ⟨printed, stop?, fun printed' stop?' => ⟨fun runs' => runs'.unique runs, ?_⟩, ?_⟩
    · rintro ⟨rfl, rfl⟩
      exact runs
    · rw [reply_of_script asked named content, runScript_toUTF8, output_eq runs,
        diagnostics_eq runs, dump_eq]
      simp only [hadRuntimeError_iff runs]
  · intro readFile' input' args' o' path' asked' named' content' limit
    -- A session is made of the limit alone, and what it writes hangs on nothing else.
    have session : o'.session = o.session := by rw [Options.session, Options.session, limit]
    rw [reply_of_script asked named content, reply_of_script asked' named' content',
      runScript_toUTF8, runScript_toUTF8, Options.output, Options.output, session]
    exact ⟨rfl, rfl⟩

/-- A statement that prints, and then one that has no value. -/
def signedScript : String := "print \"a\";-nil;"

/-- The settings of a command line that asks for all dumps. -/
def fullDump : Options := ⟨true, some .postfixForm, none, some "s.lox"⟩

/-- All dumps stand before what stops the script, and without them it writes the same and has
the same exit code. -/
theorem reply_script_signedScript :
    let content := fun _ : String => Except.ok signedScript.toUTF8
    Request.ofArgs ["--tokens", "--ast=postfix", "s.lox"] = .run fullDump ∧
      reply content .empty ["--tokens", "--ast=postfix", "s.lox"] =
        { stdout := "a\n".toUTF8
          stderr := "== tokens ==\n   1 Print print\n   1 StringLit \"a\" a\n" ++
            "   1 Semicolon ;\n   1 Minus -\n   1 Nil nil\n   1 Semicolon ;\n   1 Eof \n" ++
            "== ast ==\nprint \"a\"\nexpr  nil -\n" ++
            "[line 1] Error at '-': Operand of negation must be a number.\n"
          code := 70 } ∧
      (reply content .empty ["--max-depth=128", "s.lox"]).stdout = "a\n".toUTF8 ∧
      (reply content .empty ["--max-depth=128", "s.lox"]).code = 70 := by
  intro content
  have asked : Request.ofArgs ["--tokens", "--ast=postfix", "s.lox"] = .run fullDump := by cbv
  have asked' : Request.ofArgs ["--max-depth=128", "s.lox"] =
      .run ⟨false, none, some 128, some "s.lox"⟩ := by
    cbv
  obtain ⟨⟨printed, stop?, only, replied⟩, dumpless⟩ :=
    @reply_script _ signedScript content _ asked _ rfl rfl .empty
  have statements : fullDump.statements signedScript = [.print (.literal (.string "a")),
      .expression (.unary (.fixed (.symbol .minus) 1) (.literal .nil))] := by
    cbv
  have runs : Runs (fullDump.statements signedScript) ["a"]
      (some (.type (.fixed (.symbol .minus) 1) .negation)) := by
    rw [statements]
    exact @Runs.print (.literal (.string "a")) (.string "a") _ _ _ rfl
      (@Runs.stop (.expression (.unary (.fixed (.symbol .minus) 1) (.literal .nil))) _ _ rfl)
  obtain ⟨rfl, rfl⟩ := (only _ _).1 runs
  have faultless : fullDump.faults signedScript = [] := by cbv
  have scanned : (Scan.ofText signedScript).tokens =
      [.fixed (.keyword .printWord) 1, ⟨.string (some (.string "a")), "\"a\"", 1⟩,
        .fixed (.symbol .semicolon) 1, .fixed (.symbol .minus) 1, .fixed (.keyword .nilWord) 1,
        .fixed (.symbol .semicolon) 1, .eof 1] := by
    cbv
  rw [faultless, scanned, statements] at replied
  obtain ⟨same, code⟩ := dumpless content .empty _ _ _ asked' rfl rfl rfl
  rw [replied] at same code
  exact ⟨asked, replied.trans rfl, same.trans (by cbv), code⟩

end Command

end Lox
