/-
# Lox.Proofs.Sessions -- sessions after any calls

Whatever a session was asked to do, with any texts and any programs, it keeps its limits, and
its sink is changed by writing to it only.

* `Session.Call`, `Session.afterAll` -- the calls, and the session after several of them.
* `Session.Fits` -- what holds of every session with given limits; `fits_afterAll`.
* `Session.run_of_ok`, `Session.run_of_error` -- running a text is parsing it and executing
  its program.
-/
import Lox.Session
import Lox.Proofs.Execution

namespace Lox.Session

set_option autoImplicit false

/-! ## Calls -/

/-- Something that a session is asked to do. -/
inductive Call where
  | run (text : String)
  | parse (text : String)
  | execute (program : List Stmt)
  | resetErrors

/-- The session after a call. -/
def after (s : Session) : Call → Session
  | .run text => (s.run text).2
  | .parse text => (s.parse text).2
  | .execute program => (s.execute program).2
  | .resetErrors => s.resetErrors

/-- The session after calls, the first of them first. -/
def afterAll (s : Session) (calls : List Call) : Session :=
  calls.foldl after s

variable {s : Session} {text : String} {program : List Stmt}

/-! ## One call -/

theorem mapError_eq_ok {ε ε' α : Type} {f : ε → ε'} {x : Except ε α} {a : α}
    (same : x.mapError f = .ok a) : x = .ok a := by
  cases x with
  | error e => cases same
  | ok a' =>
      cases same
      rfl

theorem mapError_eq_error {ε ε' α : Type} {f : ε → ε'} {x : Except ε α} {e' : ε'}
    (same : x.mapError f = .error e') : ∃ e, x = .error e ∧ e' = f e := by
  cases x with
  | ok a => cases same
  | error e =>
      cases same
      exact ⟨e, rfl, rfl⟩

theorem parse_of_ok (accepted : programOfText s.config.maxDepth text = .ok program) :
    s.parse text = (.ok program, s) := by
  rw [parse, accepted]

theorem parse_of_error {faults : List Diagnostic}
    (rejected : programOfText s.config.maxDepth text = .error faults) :
    s.parse text = (.error (.rejected faults), { s with hadSyntaxError := true }) := by
  rw [parse, rejected]

theorem run_of_ok (accepted : programOfText s.config.maxDepth text = .ok program) :
    s.run text = s.execute program := by
  rw [run, parse_of_ok accepted]

theorem run_of_error {faults : List Diagnostic}
    (rejected : programOfText s.config.maxDepth text = .error faults) :
    s.run text = (.error (.rejected faults), { s with hadSyntaxError := true }) := by
  rw [run, parse_of_error rejected]

theorem parse_fst (s : Session) (text : String) :
    (s.parse text).1 = (programOfText s.config.maxDepth text).mapError .rejected := by
  rw [parse]
  cases programOfText s.config.maxDepth text <;> rfl

theorem execute_fst (s : Session) (program : List Stmt) :
    (s.execute program).1 = (s.interpreter.interpret program).1.mapError .stopped := by
  rw [execute]
  rcases s.interpreter.interpret program with ⟨_ | _, _⟩ <;> rfl

theorem execute_interpreter (s : Session) (program : List Stmt) :
    (s.execute program).2.interpreter = (s.interpreter.interpret program).2 := by
  rw [execute]
  rcases s.interpreter.interpret program with ⟨_ | _, _⟩ <;> rfl

theorem execute_config (s : Session) (program : List Stmt) :
    (s.execute program).2.config = s.config := by
  rw [execute]
  rcases s.interpreter.interpret program with ⟨_ | _, _⟩ <;> rfl

/-- What programs leave in place, and flags do not touch, every call leaves in place. -/
theorem after_preserves {P : Config → Interpreter → Prop}
    (execute : ∀ config i program, P config i → P config (i.interpret program).2)
    (before : P s.config s.interpreter) (call : Call) :
    P (s.after call).config (s.after call).interpreter := by
  have executed (program : List Stmt) :
      P (s.execute program).2.config (s.execute program).2.interpreter := by
    rw [execute_config, execute_interpreter]
    exact execute _ _ _ before
  cases call with
  | resetErrors => exact before
  | execute program => exact executed program
  | parse text =>
      cases came : programOfText s.config.maxDepth text with
      | ok program =>
          rw [after, parse_of_ok came]
          exact before
      | error faults =>
          rw [after, parse_of_error came]
          exact before
  | run text =>
      cases came : programOfText s.config.maxDepth text with
      | ok program =>
          rw [after, run_of_ok came]
          exact executed program
      | error faults =>
          rw [after, run_of_error came]
          exact before

/-! ## Any calls -/

theorem afterAll_preserves {P : Config → Interpreter → Prop}
    (execute : ∀ config i program, P config i → P config (i.interpret program).2)
    (before : P s.config s.interpreter) (calls : List Call) :
    P (s.afterAll calls).config (s.afterAll calls).interpreter := by
  induction calls generalizing s with
  | nil => exact before
  | cons call calls ih => exact ih (after_preserves execute before call)

/-- The session has these limits, and evaluation has room for whatever it accepts. -/
structure Fits (config : Config) (s : Session) : Prop where
  config_eq : s.config = config
  limit_eq : s.interpreter.limit = max config.maxEvalDepth config.maxDepth

theorem fits_afterAll (config : Config) (sink : Sink) (calls : List Call) :
    ((start config sink).afterAll calls).Fits config := by
  obtain ⟨config_eq, limit_eq⟩ := afterAll_preserves (s := start config sink)
    (P := fun config' i => config' = config ∧ i.limit = max config.maxEvalDepth config.maxDepth)
    (fun _ i program before => ⟨before.1, (i.interpret_limit program).trans before.2⟩)
    ⟨rfl, rfl⟩ calls
  exact ⟨config_eq, limit_eq⟩

/-- The sink is changed by writing to it only. -/
theorem afterAll_sink {P : Sink → Prop} (write : ∀ s bytes, P s → P (s.write bytes).2)
    (before : P s.interpreter.sink) (calls : List Call) :
    P (s.afterAll calls).interpreter.sink :=
  afterAll_preserves (P := fun _ i => P i.sink)
    (fun _ _ program before => Interpreter.interpret_sink write program before) before calls

end Lox.Session
