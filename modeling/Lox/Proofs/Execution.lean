/-
# Lox.Proofs.Execution -- what running a program does

A program stops at the first statement that cannot be evaluated or written.  Where the limit
leaves room for every tree of a program and the sink never fails, nothing else matters: what
is written and how the run ends is a function of the program alone.

* `Interpreter.interpret_eq_error` -- what a run can stop at, on any sink.
* `Interpreter.interpret_sink` -- the sink is changed by writing to it only.
* `Stmt.trace` -- what a program writes and how it ends; `Stmt.trace_append_of_ok` and
  `Stmt.trace_append_of_error` for two programs one behind the other.
* `Interpreter.interpret_of_boundless` -- a run on a sink that never fails is that.
-/
import Lox.Interpreter
import Lox.Proofs.Evaluation

namespace Lox

set_option autoImplicit false

/-! ## Sinks -/

namespace Sink

/-- The sink neither fills up nor fails to flush. -/
structure Boundless (s : Sink) : Prop where
  room : s.room = none
  flushes : s.flushFails = false

/-- The sink with more bytes in it. -/
def holding (s : Sink) (bytes : ByteArray) : Sink :=
  { s with content := s.content ++ bytes }

theorem holding_empty (s : Sink) : s.holding .empty = s := by
  simp [holding]

theorem holding_holding (s : Sink) (a b : ByteArray) :
    (s.holding a).holding b = s.holding (a ++ b) := by
  simp [holding, ByteArray.append_assoc]

theorem Boundless.holding {s : Sink} (boundless : s.Boundless) (bytes : ByteArray) :
    (s.holding bytes).Boundless :=
  ⟨boundless.room, boundless.flushes⟩

theorem Boundless.write {s : Sink} (boundless : s.Boundless) (bytes : ByteArray) :
    s.write bytes = (.ok (), s.holding bytes) := by
  simp [Sink.write, Sink.holding, boundless.room]

theorem Boundless.flush {s : Sink} (boundless : s.Boundless) : s.flush = .ok () := by
  simp [Sink.flush, boundless.flushes]

/-- A write only adds to what is there. -/
theorem exists_write_content (s : Sink) (bytes : ByteArray) :
    ∃ more, (s.write bytes).2.content = s.content ++ more := by
  unfold Sink.write
  split
  · exact ⟨bytes, rfl⟩
  · split
    · exact ⟨bytes, rfl⟩
    · exact ⟨_, rfl⟩

end Sink

/-! ## Programs -/

namespace Stmt

/-- What a statement writes, or why it has no value. -/
def effect (stmt : Stmt) : Except RuntimeError ByteArray :=
  match stmt.expr.value, stmt with
  | .error e, _ => .error e
  | .ok value, .print _ => .ok (value.text ++ "\n").toUTF8
  | .ok _, .expression _ => .ok .empty

/-- What the statements write up to the first that has no value, and what is wrong with it. -/
def trace : List Stmt → ByteArray × Except RuntimeError Unit
  | [] => (.empty, .ok ())
  | stmt :: rest =>
    match stmt.effect with
    | .error e => (.empty, .error e)
    | .ok bytes => (bytes ++ (trace rest).1, (trace rest).2)

theorem trace_cons_of_ok {stmt : Stmt} {bytes : ByteArray} (done : stmt.effect = .ok bytes)
    (rest : List Stmt) : trace (stmt :: rest) = (bytes ++ (trace rest).1, (trace rest).2) := by
  rw [trace, done]

theorem trace_cons_of_error {stmt : Stmt} {e : RuntimeError} (failed : stmt.effect = .error e)
    (rest : List Stmt) : trace (stmt :: rest) = (.empty, .error e) := by
  rw [trace, failed]

/-- Behind a program that ends well another one does what it does alone. -/
theorem trace_append_of_ok {a : List Stmt} (done : (trace a).2 = .ok ()) (b : List Stmt) :
    trace (a ++ b) = ((trace a).1 ++ (trace b).1, (trace b).2) := by
  induction a with
  | nil => simp [trace]
  | cons stmt a ih =>
      rw [List.cons_append]
      cases effect : stmt.effect with
      | error e =>
          rw [trace_cons_of_error effect] at done
          cases done
      | ok bytes =>
          rw [trace_cons_of_ok effect] at done
          rw [trace_cons_of_ok effect, trace_cons_of_ok effect, ih done, ByteArray.append_assoc]

/-- Behind a program that fails nothing happens. -/
theorem trace_append_of_error {a : List Stmt} {e : RuntimeError} (failed : (trace a).2 = .error e)
    (b : List Stmt) : trace (a ++ b) = trace a := by
  induction a with
  | nil => cases failed
  | cons stmt a ih =>
      rw [List.cons_append]
      cases effect : stmt.effect with
      | error e => rw [trace_cons_of_error effect, trace_cons_of_error effect]
      | ok bytes =>
          rw [trace_cons_of_ok effect] at failed
          rw [trace_cons_of_ok effect, trace_cons_of_ok effect, ih failed]

end Stmt

namespace Interpreter

/-! ## One statement -/

/-- What executing a statement can come to: its expression has no value; the value is thrown
away; or the value is written, and the sink takes it or refuses. -/
inductive Executes (i : Interpreter) : Stmt → Except RuntimeError Unit → Interpreter → Prop
  | failed {stmt : Stmt} {e : RuntimeError} {line : Nat}
      (evaluates : stmt.expr.eval i.limit i.limit i.line = (.error e, line)) :
      Executes i stmt (.error e) { i with line }
  | discarded {expr : Expr} {value : Value} {line : Nat}
      (evaluates : expr.eval i.limit i.limit i.line = (.ok value, line)) :
      Executes i (.expression expr) (.ok ()) { i with line }
  | printed {expr : Expr} {value : Value} {line : Nat} {sink : Sink}
      (evaluates : expr.eval i.limit i.limit i.line = (.ok value, line))
      (taken : i.sink.write (value.text ++ "\n").toUTF8 = (.ok (), sink)) :
      Executes i (.print expr) (.ok ()) { i with line, sink }
  | refused {expr : Expr} {value : Value} {line : Nat} {fault : SinkFault} {sink : Sink}
      (evaluates : expr.eval i.limit i.limit i.line = (.ok value, line))
      (refuses : i.sink.write (value.text ++ "\n").toUTF8 = (.error fault, sink)) :
      Executes i (.print expr) (.error (.output line fault)) { i with line, sink }

variable {i : Interpreter}

theorem executes_execute (i : Interpreter) (stmt : Stmt) :
    Executes i stmt (i.execute stmt).1 (i.execute stmt).2 := by
  rcases evaluates : stmt.expr.eval i.limit i.limit i.line with ⟨result, line⟩
  cases result with
  | error e =>
      have same : i.execute stmt = (.error e, { i with line }) := by
        simp [execute, evaluate, evaluates]
      rw [same]
      exact .failed evaluates
  | ok value =>
      cases stmt with
      | expression expr =>
          have same : i.execute (.expression expr) = (.ok (), { i with line }) := by
            simp [execute, evaluate, evaluates]
          rw [same]
          exact .discarded evaluates
      | print expr =>
          rcases written : i.sink.write (value.text ++ "\n").toUTF8 with ⟨result, sink⟩
          cases result with
          | ok done =>
              have same : i.execute (.print expr) = (.ok (), { i with line, sink }) := by
                simp only [execute, evaluate, print, evaluates, written]
              rw [same]
              exact .printed evaluates written
          | error fault =>
              have same : i.execute (.print expr) =
                  (.error (.output line fault), { i with line, sink }) := by
                simp only [execute, evaluate, print, evaluates, written]
              rw [same]
              exact .refused evaluates written

namespace Executes

variable {stmt : Stmt} {result : Except RuntimeError Unit} {j : Interpreter}

theorem limit_eq (executes : Executes i stmt result j) : j.limit = i.limit := by
  cases executes <;> rfl

/-- The sink is changed by writing to it only. -/
theorem sink_preserves {P : Sink → Prop} (executes : Executes i stmt result j)
    (write : ∀ s bytes, P s → P (s.write bytes).2) (before : P i.sink) : P j.sink := by
  cases executes with
  | failed | discarded => exact before
  | @printed _ value _ _ _ written | @refused _ value _ _ _ _ written =>
      have after := write i.sink (value.text ++ "\n").toUTF8 before
      rwa [written] at after

/-- With room for the tree, a statement fails because its expression has no value or because
the sink refuses. -/
theorem eq_error {e : RuntimeError} (executes : Executes i stmt (.error e) j)
    (low : stmt.expr.height ≤ i.limit) :
    stmt.expr.value = .error e ∨ ∃ line fault, e = .output line fault := by
  cases executes with
  | failed evaluates => exact .inl (by rw [← Expr.eval_fst_of_height_le low, evaluates])
  | refused => exact .inr ⟨_, _, rfl⟩

/-- With room for the tree and a sink that never fails, the statement has its effect. -/
theorem of_boundless (executes : Executes i stmt result j) (low : stmt.expr.height ≤ i.limit)
    (boundless : i.sink.Boundless) :
    (∃ bytes, stmt.effect = .ok bytes ∧ result = .ok () ∧ j.sink = i.sink.holding bytes) ∨
      ∃ e, stmt.effect = .error e ∧ result = .error e ∧ j.sink = i.sink := by
  have value : (stmt.expr.eval i.limit i.limit i.line).1 = stmt.expr.value :=
    Expr.eval_fst_of_height_le low
  cases executes with
  | failed evaluates =>
      rw [evaluates] at value
      exact .inr ⟨_, by simp [Stmt.effect, ← value], rfl, rfl⟩
  | discarded evaluates =>
      rw [Stmt.expr, evaluates] at value
      exact .inl ⟨.empty, by simp [Stmt.effect, Stmt.expr, ← value], rfl, i.sink.holding_empty.symm⟩
  | printed evaluates taken =>
      rw [Stmt.expr, evaluates] at value
      rw [boundless.write] at taken
      cases taken
      exact .inl ⟨_, by simp [Stmt.effect, Stmt.expr, ← value], rfl, rfl⟩
  | refused evaluates refuses =>
      rw [boundless.write] at refuses
      cases refuses

end Executes

/-! ## Programs -/

theorem executeAll_cons_of_ok {stmt : Stmt} (done : (i.execute stmt).1 = .ok ())
    (rest : List Stmt) :
    i.executeAll (stmt :: rest) = (i.execute stmt).2.executeAll rest := by
  rw [executeAll]
  split
  · rename_i came
    rw [came] at done
    cases done
  · rename_i came
    rw [came]

theorem executeAll_cons_of_error {stmt : Stmt} {e : RuntimeError}
    (failed : (i.execute stmt).1 = .error e) (rest : List Stmt) :
    i.executeAll (stmt :: rest) = (.error e, (i.execute stmt).2) := by
  rw [executeAll]
  split
  · rename_i came
    rw [came] at failed
    cases failed
    rw [came]
  · rename_i came
    rw [came] at failed
    cases failed

/-- A run is over when its statements are, but for the flush if none failed. -/
theorem interpret_eq (i : Interpreter) (program : List Stmt) :
    i.interpret program =
      ((match (i.executeAll program).1 with
        | .error e => .error e
        | .ok () => (i.executeAll program).2.flush), (i.executeAll program).2) := by
  rw [interpret]
  obtain ⟨result, j⟩ := i.executeAll program
  cases result <;> rfl

/-- What every statement leaves in place, a program leaves in place. -/
theorem interpret_preserves {P : Interpreter → Prop}
    (step : ∀ {i stmt result j}, Executes i stmt result j → P i → P j) (program : List Stmt)
    (before : P i) : P (i.interpret program).2 := by
  rw [interpret_eq]
  induction program generalizing i with
  | nil => exact before
  | cons stmt rest ih =>
      have executes := executes_execute i stmt
      have after := step executes before
      cases result : (i.execute stmt).1 with
      | error e =>
          rw [executeAll_cons_of_error result]
          exact after
      | ok =>
          rw [executeAll_cons_of_ok result]
          exact ih after

theorem interpret_limit (i : Interpreter) (program : List Stmt) :
    (i.interpret program).2.limit = i.limit :=
  interpret_preserves (fun executes before => executes.limit_eq.trans before) program rfl

/-- The sink is changed by writing to it only. -/
theorem interpret_sink {P : Sink → Prop} (write : ∀ s bytes, P s → P (s.write bytes).2)
    (program : List Stmt) (before : P i.sink) : P (i.interpret program).2.sink :=
  interpret_preserves (P := fun i => P i.sink) (fun executes => executes.sink_preserves write)
    program before

/-- With room for its trees, a program stops because an expression has no value or because the
sink refuses. -/
theorem interpret_eq_error {program : List Stmt} {e : RuntimeError}
    (low : ∀ stmt ∈ program, stmt.expr.height ≤ i.limit)
    (failed : (i.interpret program).1 = .error e) :
    (∃ stmt ∈ program, stmt.expr.value = .error e) ∨ ∃ line fault, e = .output line fault := by
  rw [interpret_eq] at failed
  induction program generalizing i with
  | nil =>
      simp only [executeAll, flush] at failed
      split at failed
      · cases failed
      · cases failed
        exact .inr ⟨_, _, rfl⟩
  | cons stmt rest ih =>
      rw [List.forall_mem_cons] at low
      have executes := executes_execute i stmt
      cases result : (i.execute stmt).1 with
      | error e' =>
          rw [executeAll_cons_of_error result] at failed
          cases failed
          rw [result] at executes
          exact (executes.eq_error low.1).imp_left fun value => ⟨stmt, List.mem_cons_self, value⟩
      | ok =>
          rw [executeAll_cons_of_ok result] at failed
          rw [← executes.limit_eq] at low
          refine (ih low.2 failed).imp_left fun ⟨stmt', member, value⟩ => ?_
          exact ⟨stmt', List.mem_cons_of_mem _ member, value⟩

/-- With room for its trees and a sink that never fails, a program does what its trace says. -/
theorem interpret_of_boundless {program : List Stmt}
    (low : ∀ stmt ∈ program, stmt.expr.height ≤ i.limit) (boundless : i.sink.Boundless) :
    (i.interpret program).1 = (Stmt.trace program).2 ∧
      (i.interpret program).2.sink = i.sink.holding (Stmt.trace program).1 := by
  rw [interpret_eq]
  induction program generalizing i with
  | nil => simp [executeAll, flush, boundless.flush, Stmt.trace, Sink.holding_empty]
  | cons stmt rest ih =>
      rw [List.forall_mem_cons] at low
      have executes := executes_execute i stmt
      -- Either way the sink stays boundless, so the rest of the program finds it as before.
      obtain ⟨bytes, effect, done, sink⟩ | ⟨e, effect, failed, sink⟩ :=
        executes.of_boundless low.1 boundless
      · rw [executeAll_cons_of_ok done, Stmt.trace_cons_of_ok effect, ← Sink.holding_holding,
          ← sink]
        exact ih (executes.limit_eq ▸ low.2) (sink ▸ boundless.holding bytes)
      · rw [executeAll_cons_of_error failed, Stmt.trace_cons_of_error effect, Sink.holding_empty]
        exact ⟨rfl, sink⟩

end Interpreter

end Lox
