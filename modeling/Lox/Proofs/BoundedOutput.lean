/-
# Lox.Proofs.BoundedOutput -- a sink that fills up

A sink with room for so many bytes holds as many as fit of what programs would write without
it.  Where all of it fits, a program ends as its statements and the flush say.  Where it does
not, the program ends at the first `print` that is too much, whatever stands behind it.

* `Sink.filled` -- a sink after bytes of which it kept those that fit.
* `Stmt.output`, `Stmt.ending` -- what statements write and how they end, up to the first that
  cannot be evaluated, where nothing limits what is written.
* `Stmt.Overflows` -- a `print` is the first that is too much.
* `Interpreter.interpret_bounded` -- running one program after others on the same sink.
-/
import Lox.Proofs.Execution

namespace Lox

set_option autoImplicit false

/-! ## Sinks -/

namespace Sink

/-- The sink, which had this room, with as many of the bytes as fit. -/
def filled (s : Sink) (room : Nat) (bytes : ByteArray) : Sink :=
  { s with content := s.content ++ bytes.extract 0 room, room := some (room - bytes.size) }

variable {s : Sink} {room : Nat} {a b : ByteArray}

theorem extract_of_size_le {bytes : ByteArray} (fits : bytes.size ≤ room) :
    bytes.extract 0 room = bytes := by
  apply ByteArray.ext
  rw [ByteArray.data_extract, Array.extract_eq_self_of_le fits]

theorem filled_of_size_le {bytes : ByteArray} (fits : bytes.size ≤ room) :
    s.filled room bytes =
      { s with content := s.content ++ bytes, room := some (room - bytes.size) } := by
  rw [filled, extract_of_size_le fits]

theorem filled_empty (bounded : s.room = some room) : s.filled room .empty = s := by
  rw [filled_of_size_le (Nat.zero_le room), ByteArray.append_empty]
  obtain ⟨content, _, flushFails⟩ := s
  cases bounded
  rfl

/-- Bytes that are written in two parts are kept as if they came together. -/
theorem filled_filled :
    (s.filled room a).filled (room - a.size) b = s.filled room (a ++ b) := by
  simp [filled, ByteArray.extract_append, ByteArray.append_assoc, Nat.sub_sub]

/-- Nothing is kept behind bytes that take all the room. -/
theorem filled_append_of_le (full : room ≤ a.size) :
    s.filled room (a ++ b) = s.filled room a := by
  simp [filled, ByteArray.extract_append, Nat.sub_eq_zero_of_le full,
    Nat.sub_eq_zero_of_le (Nat.le_add_right_of_le full)]

/-- A write fills the sink, and fails if not all of it fits. -/
theorem write_of_bounded (bounded : s.room = some room) (bytes : ByteArray) :
    s.write bytes = (if bytes.size ≤ room then .ok () else .error .full, s.filled room bytes) := by
  rw [write, bounded]
  by_cases fits : bytes.size ≤ room
  · rw [filled_of_size_le fits]
    simp [fits]
  · rw [filled, Nat.sub_eq_zero_of_le (Nat.le_of_not_le fits)]
    simp [fits]

end Sink

/-! ## Programs where nothing limits what is written -/

/-- Whether a tree has a value, and which, does not hang on the line that is kept. -/
theorem Expr.eval_fst_eq_ok_line {e : Expr} {limit room line : Nat} {v : Value}
    (evaluates : (e.eval limit room line).1 = .ok v) (line' : Nat) :
    (e.eval limit room line').1 = .ok v := by
  induction e generalizing room with
  | literal value =>
      cases room with
      | zero => cases evaluates
      | succ room => exact evaluates
  | grouping inner ih =>
      cases room with
      | zero => cases evaluates
      | succ room => exact ih evaluates
  | unary op arg _ | binary op lhs rhs _ _ =>
      -- An operator brings its own line.
      cases room with
      | zero => cases evaluates
      | succ room => exact evaluates

namespace Stmt

/-- What a statement writes, if its expression can be evaluated within the limit.  The line that
is kept makes no difference to that (`Expr.eval_fst_eq_ok_line`), so any will do. -/
def written? (limit : Nat) (stmt : Stmt) : Option ByteArray :=
  match (stmt.expr.eval limit limit 1).1, stmt with
  | .error _, _ => none
  | .ok value, .print _ => some (value.text ++ "\n").toUTF8
  | .ok _, .expression _ => some .empty

/-- What statements write: the values of those to print, each with a newline, up to the first
statement that cannot be evaluated. -/
def output (limit : Nat) : List Stmt → ByteArray
  | [] => .empty
  | stmt :: rest =>
    match stmt.written? limit with
    | none => .empty
    | some bytes => bytes ++ output limit rest

/-- How statements end if all that they write is taken: with the error of the first that cannot
be evaluated, if there is one; and the line of the operator entered last. -/
def ending (limit line : Nat) : List Stmt → Except RuntimeError Unit × Nat
  | [] => (.ok (), line)
  | stmt :: rest =>
    match stmt.expr.eval limit limit line with
    | (.error e, line) => (.error e, line)
    | (.ok _, line) => ending limit line rest

/-- How a program ends if all that it writes is taken: as its statements do or, if none of them
fails, as the flush does. -/
def outcome (limit line : Nat) (flushFails : Bool) (program : List Stmt) :
    Except RuntimeError Unit :=
  match ending limit line program with
  | (.error e, _) => .error e
  | (.ok (), line) => if flushFails then .error (.output line .flushFailed) else .ok ()

/-- What several programs write one after the other, each up to its own first statement that
cannot be evaluated. -/
def outputs (limit : Nat) : List (List Stmt) → ByteArray
  | [] => .empty
  | program :: rest => output limit program ++ outputs limit rest

variable {limit line room : Nat} {stmt : Stmt} {rest : List Stmt}

theorem written?_of_error {e : RuntimeError} {line' : Nat}
    (failed : stmt.expr.eval limit limit line = (.error e, line')) :
    stmt.written? limit = none := by
  unfold written?
  split
  · rfl
  all_goals
    rename_i value came
    have evaluates := Expr.eval_fst_eq_ok_line came line
    rw [failed] at evaluates
    cases evaluates

theorem written?_print {expr : Expr} {value : Value} {line' : Nat}
    (evaluates : expr.eval limit limit line = (.ok value, line')) :
    (Stmt.print expr).written? limit = some (value.text ++ "\n").toUTF8 := by
  have evaluates := Expr.eval_fst_eq_ok_line (congrArg Prod.fst evaluates) 1
  simp [written?, Stmt.expr, evaluates]

theorem written?_expression {expr : Expr} {value : Value} {line' : Nat}
    (evaluates : expr.eval limit limit line = (.ok value, line')) :
    (Stmt.expression expr).written? limit = some .empty := by
  have evaluates := Expr.eval_fst_eq_ok_line (congrArg Prod.fst evaluates) 1
  simp [written?, Stmt.expr, evaluates]

theorem size_of_expression {expr : Expr} {bytes : ByteArray}
    (came : (Stmt.expression expr).written? limit = some bytes) : bytes.size = 0 := by
  unfold written? at came
  split at came
  · cases came
  · rename_i is
    cases is
  · cases came
    rfl

theorem output_cons_of_none (none : stmt.written? limit = none) (rest : List Stmt) :
    output limit (stmt :: rest) = .empty := by
  rw [output, none]

theorem output_cons_of_some {bytes : ByteArray} (some : stmt.written? limit = some bytes)
    (rest : List Stmt) : output limit (stmt :: rest) = bytes ++ output limit rest := by
  rw [output, some]

theorem ending_cons_of_error {e : RuntimeError} {line' : Nat}
    (failed : stmt.expr.eval limit limit line = (.error e, line')) (rest : List Stmt) :
    ending limit line (stmt :: rest) = (.error e, line') := by
  rw [ending, failed]

theorem ending_cons_of_ok {value : Value} {line' : Nat}
    (evaluates : stmt.expr.eval limit limit line = (.ok value, line')) (rest : List Stmt) :
    ending limit line (stmt :: rest) = ending limit line' rest := by
  rw [ending, evaluates]

/-- More statements only add to what is written. -/
theorem exists_output_append (limit : Nat) (a b : List Stmt) :
    ∃ more, output limit (a ++ b) = output limit a ++ more := by
  induction a with
  | nil => exact ⟨output limit b, ByteArray.empty_append.symm⟩
  | cons stmt a ih =>
      cases came : stmt.written? limit with
      | none => exact ⟨.empty, by simp [output_cons_of_none came]⟩
      | some bytes =>
          obtain ⟨more, same⟩ := ih
          exact ⟨more, by
            rw [List.cons_append, output_cons_of_some came, output_cons_of_some came, same,
              ByteArray.append_assoc]⟩

/-- All that these statements write fits into the room, and the value that is to be printed
behind them does not. -/
def Overflows (limit room : Nat) (before : List Stmt) (expr : Expr) : Prop :=
  (output limit before).size ≤ room ∧ room < (output limit (before ++ [.print expr])).size

theorem Overflows.cons {bytes : ByteArray} {before : List Stmt} {expr : Expr}
    (came : stmt.written? limit = some bytes) (fits : bytes.size ≤ room) :
    Overflows limit room (stmt :: before) expr ↔
      Overflows limit (room - bytes.size) before expr := by
  rw [Overflows, Overflows, List.cons_append, output_cons_of_some came, output_cons_of_some came,
    ByteArray.size_append, ByteArray.size_append]
  omega

/-- A sink that overflows keeps nothing of what stands behind. -/
theorem Overflows.filled_output {before : List Stmt} {expr : Expr}
    (overflows : Overflows limit room before expr) (after : List Stmt) (s : Sink) :
    s.filled room (output limit (before ++ .print expr :: after)) =
      s.filled room (output limit (before ++ [.print expr])) := by
  obtain ⟨more, same⟩ := exists_output_append limit (before ++ [.print expr]) after
  rw [List.append_assoc, List.singleton_append] at same
  rw [same, Sink.filled_append_of_le (Nat.le_of_lt overflows.2)]

/-- Where not everything fits, one of the prints is the first that is too much. -/
theorem exists_overflows {program : List Stmt} (exceeds : room < (output limit program).size) :
    ∃ before expr after, program = before ++ .print expr :: after ∧
      Overflows limit room before expr := by
  induction program generalizing room with
  | nil => exact absurd exceeds (Nat.not_lt_zero room)
  | cons stmt rest ih =>
      cases came : stmt.written? limit with
      | none =>
          rw [output_cons_of_none came] at exceeds
          exact absurd exceeds (Nat.not_lt_zero room)
      | some bytes =>
          rw [output_cons_of_some came, ByteArray.size_append] at exceeds
          by_cases fits : bytes.size ≤ room
          · obtain ⟨before, expr, after, rfl, overflows⟩ :=
              @ih (room - bytes.size) (by omega)
            exact ⟨stmt :: before, expr, after, rfl, (Overflows.cons came fits).2 overflows⟩
          · cases stmt with
            | expression expr => exact absurd (size_of_expression came ▸ Nat.zero_le room) fits
            | print expr =>
                refine ⟨[], expr, rest, rfl, Nat.zero_le room, ?_⟩
                rw [List.nil_append, output_cons_of_some came, output, ByteArray.append_empty]
                exact Nat.lt_of_not_le fits

end Stmt

namespace Interpreter

open Stmt

/-! ## Runs on a bounded sink -/

variable {i : Interpreter} {room : Nat}

/-- What executing a statement comes to on a sink with so much room: its expression cannot be
evaluated; what it writes fits; or that does not fit. -/
inductive ExecutesWithin (i : Interpreter) (room : Nat) :
    Stmt → Except RuntimeError Unit → Interpreter → Prop
  | failed {stmt : Stmt} {e : RuntimeError} {line : Nat}
      (evaluates : stmt.expr.eval i.limit i.limit i.line = (.error e, line)) :
      ExecutesWithin i room stmt (.error e) { i with line }
  | fits {stmt : Stmt} {value : Value} {line : Nat} {bytes : ByteArray}
      (evaluates : stmt.expr.eval i.limit i.limit i.line = (.ok value, line))
      (writes : stmt.written? i.limit = some bytes) (fits : bytes.size ≤ room) :
      ExecutesWithin i room stmt (.ok ()) { i with line, sink := i.sink.filled room bytes }
  | exceeds {expr : Expr} {value : Value} {line : Nat} {bytes : ByteArray}
      (evaluates : expr.eval i.limit i.limit i.line = (.ok value, line))
      (writes : (Stmt.print expr).written? i.limit = some bytes) (exceeds : room < bytes.size) :
      ExecutesWithin i room (.print expr) (.error (.output line .full))
        { i with line, sink := i.sink.filled room bytes }

theorem Executes.within {stmt : Stmt} {result : Except RuntimeError Unit} {j : Interpreter}
    (executes : Executes i stmt result j) (bounded : i.sink.room = some room) :
    ExecutesWithin i room stmt result j := by
  cases executes with
  | failed evaluates => exact .failed evaluates
  | @discarded expr value line evaluates =>
      have fits : ExecutesWithin i room (.expression expr) (.ok ())
          { i with line, sink := i.sink.filled room .empty } :=
        .fits evaluates (written?_expression evaluates) (Nat.zero_le room)
      rwa [Sink.filled_empty bounded] at fits
  | @printed expr value line sink evaluates taken =>
      rw [Sink.write_of_bounded bounded, Prod.mk.injEq] at taken
      obtain ⟨taken, rfl⟩ := taken
      split at taken
      · exact .fits evaluates (written?_print evaluates) ‹_›
      · cases taken
  | @refused expr value line fault sink evaluates refuses =>
      rw [Sink.write_of_bounded bounded, Prod.mk.injEq] at refuses
      obtain ⟨refuses, rfl⟩ := refuses
      split at refuses
      · cases refuses
      · cases refuses
        exact .exceeds evaluates (written?_print evaluates) (Nat.lt_of_not_le ‹_›)

/-- Where all that they write fits, statements end as if nothing limited it. -/
theorem executeAll_of_fits (bounded : i.sink.room = some room) {program : List Stmt}
    (fits : (output i.limit program).size ≤ room) :
    i.executeAll program =
      ((ending i.limit i.line program).1,
        { i with
          line := (ending i.limit i.line program).2
          sink := i.sink.filled room (output i.limit program) }) := by
  induction program generalizing i room with
  | nil =>
      rw [output, Sink.filled_empty bounded]
      rfl
  | cons stmt rest ih =>
      have within := (executes_execute i stmt).within bounded
      rcases came : i.execute stmt with ⟨result, j⟩
      rw [came] at within
      cases within with
      | failed evaluates =>
          rw [executeAll, came, ending_cons_of_error evaluates,
            output_cons_of_none (written?_of_error evaluates), Sink.filled_empty bounded]
      | @fits _ value line bytes evaluates writes fits' =>
          rw [output_cons_of_some writes, ByteArray.size_append] at fits
          have left : (output i.limit rest).size ≤ room - bytes.size := by omega
          rw [executeAll, came, ending_cons_of_ok evaluates, output_cons_of_some writes,
            ← Sink.filled_filled]
          exact ih (i := { i with line, sink := i.sink.filled room bytes }) rfl left
      | exceeds evaluates writes exceeds =>
          rw [output_cons_of_some writes, ByteArray.size_append] at fits
          omega

/-- Statements end at a print that is too much, whatever stands behind it. -/
theorem executeAll_of_overflows (bounded : i.sink.room = some room) {before : List Stmt}
    {expr : Expr} (overflows : Overflows i.limit room before expr) (after : List Stmt) :
    i.executeAll (before ++ .print expr :: after) =
      (.error (.output (ending i.limit i.line (before ++ [.print expr])).2 .full),
        { i with
          line := (ending i.limit i.line (before ++ [.print expr])).2
          sink := i.sink.filled room (output i.limit (before ++ [.print expr])) }) := by
  induction before generalizing i room with
  | nil =>
      have exceeds : room < (output i.limit [.print expr]).size := overflows.2
      have within := (executes_execute i (.print expr)).within bounded
      rcases came : i.execute (.print expr) with ⟨result, j⟩
      rw [came] at within
      rw [List.nil_append, List.nil_append, executeAll, came]
      cases within with
      | failed evaluates =>
          rw [output_cons_of_none (written?_of_error evaluates)] at exceeds
          exact absurd exceeds (Nat.not_lt_zero room)
      | fits evaluates writes fits =>
          rw [output_cons_of_some writes, output, ByteArray.append_empty] at exceeds
          exact absurd fits (Nat.not_le_of_lt exceeds)
      | exceeds evaluates writes exceeds =>
          rw [ending_cons_of_ok evaluates, output_cons_of_some writes, output,
            ByteArray.append_empty]
          rfl
  | cons stmt before ih =>
      have within := (executes_execute i stmt).within bounded
      rcases came : i.execute stmt with ⟨result, j⟩
      rw [came] at within
      rw [List.cons_append, List.cons_append, executeAll, came]
      cases within with
      | failed evaluates =>
          have exceeds := overflows.2
          rw [List.cons_append, output_cons_of_none (written?_of_error evaluates)] at exceeds
          exact absurd exceeds (Nat.not_lt_zero room)
      | @fits _ value line bytes evaluates writes fits =>
          rw [ending_cons_of_ok evaluates, output_cons_of_some writes, ← Sink.filled_filled]
          exact ih (i := { i with line, sink := i.sink.filled room bytes }) rfl
            ((Overflows.cons writes fits).1 overflows)
      | exceeds evaluates writes exceeds =>
          have fits := overflows.1
          rw [output_cons_of_some writes, ByteArray.size_append] at fits
          omega

theorem flush_eq (i : Interpreter) :
    i.flush =
      if i.sink.flushFails then .error (.output i.line .flushFailed) else .ok () := by
  rw [flush, Sink.flush]
  cases i.sink.flushFails <;> rfl

/-- Where all that it writes fits, a program ends as if nothing limited it. -/
theorem interpret_of_fits (bounded : i.sink.room = some room) {program : List Stmt}
    (fits : (output i.limit program).size ≤ room) :
    i.interpret program =
      (outcome i.limit i.line i.sink.flushFails program,
        { i with
          line := (ending i.limit i.line program).2
          sink := i.sink.filled room (output i.limit program) }) := by
  rw [interpret, executeAll_of_fits bounded fits, outcome]
  rcases ending i.limit i.line program with ⟨_ | _, line⟩
  · rfl
  · dsimp only
    rw [flush_eq]
    rfl

/-- A program ends at a print that is too much, and is not flushed. -/
theorem interpret_of_overflows (bounded : i.sink.room = some room) {before : List Stmt}
    {expr : Expr} (overflows : Overflows i.limit room before expr) (after : List Stmt) :
    i.interpret (before ++ .print expr :: after) =
      (.error (.output (ending i.limit i.line (before ++ [.print expr])).2 .full),
        { i with
          line := (ending i.limit i.line (before ++ [.print expr])).2
          sink := i.sink.filled room (output i.limit (before ++ [.print expr])) }) := by
  rw [interpret, executeAll_of_overflows bounded overflows]

/-- The sink keeps what fits of what the program would write. -/
theorem interpret_sink_of_bounded (bounded : i.sink.room = some room) (program : List Stmt) :
    (i.interpret program).2.sink = i.sink.filled room (output i.limit program) := by
  by_cases fits : (output i.limit program).size ≤ room
  · rw [interpret_of_fits bounded fits]
  · obtain ⟨before, expr, after, rfl, overflows⟩ := exists_overflows (Nat.lt_of_not_le fits)
    rw [interpret_of_overflows bounded overflows, overflows.filled_output after]

/-! ## Several runs -/

/-- The interpreter after programs, the first of them first, however each of them ended. -/
def afterPrograms (i : Interpreter) (programs : List (List Stmt)) : Interpreter :=
  programs.foldl (fun i program => (i.interpret program).2) i

theorem afterPrograms_limit (i : Interpreter) (programs : List (List Stmt)) :
    (i.afterPrograms programs).limit = i.limit := by
  induction programs generalizing i with
  | nil => rfl
  | cons program rest ih => exact (ih _).trans (i.interpret_limit program)

/-- The room that one program leaves is that of the next. -/
theorem afterPrograms_sink (bounded : i.sink.room = some room) (programs : List (List Stmt)) :
    (i.afterPrograms programs).sink = i.sink.filled room (outputs i.limit programs) := by
  induction programs generalizing i room with
  | nil => exact (Sink.filled_empty bounded).symm
  | cons program rest ih =>
      have kept := interpret_sink_of_bounded bounded program
      have left : (i.interpret program).2.sink.room =
          some (room - (output i.limit program).size) := by
        rw [kept]
        rfl
      have behind := ih left
      rw [kept, i.interpret_limit program, Sink.filled_filled] at behind
      exact behind

/-- **A bounded sink holds a prefix of what would be written without its bound.**  Take any
interpreter whose sink has room for so many bytes, and run programs on it, one after the other
and however each of them ends.  The sink then holds as many bytes as fit of what they write up
to their first statements that cannot be evaluated.  One more program goes on with the room that
is left.  If all that it writes fits, it is written, and the program ends with the error of that
statement or, if there is none, with the flush.  If not, then the program ends at the first
print that is too much, because the sink is full, and neither the flush nor anything that
stands behind that print has a part in it. -/
theorem interpret_bounded (i : Interpreter) {room : Nat} (bounded : i.sink.room = some room)
    (earlier : List (List Stmt)) (program : List Stmt) :
    let j := i.afterPrograms earlier
    let left := room - (outputs i.limit earlier).size
    j.sink = i.sink.filled room (outputs i.limit earlier) ∧
      (j.interpret program).2.sink = j.sink.filled left (output i.limit program) ∧
      ((output i.limit program).size ≤ left →
        (j.interpret program).1 = outcome i.limit j.line i.sink.flushFails program ∧
          (j.interpret program).2.sink.content = j.sink.content ++ output i.limit program) ∧
      (left < (output i.limit program).size →
        ∃ before expr after, program = before ++ .print expr :: after ∧
          Overflows i.limit left before expr ∧
          ∀ others, j.interpret (before ++ .print expr :: others) =
            (.error (.output (ending i.limit j.line (before ++ [.print expr])).2 .full),
              { j with
                line := (ending i.limit j.line (before ++ [.print expr])).2
                sink := j.sink.filled left (output i.limit program) })) := by
  intro j left
  have kept : j.sink = i.sink.filled room (outputs i.limit earlier) :=
    afterPrograms_sink bounded earlier
  have remains : j.sink.room = some left := by
    rw [kept]
    rfl
  have limit : j.limit = i.limit := i.afterPrograms_limit earlier
  rw [← limit]
  refine ⟨?_, interpret_sink_of_bounded remains program, ?_, ?_⟩
  · rw [limit, kept]
  · intro fits
    rw [interpret_of_fits remains fits, Sink.filled_of_size_le fits, kept]
    exact ⟨rfl, rfl⟩
  · intro exceeds
    obtain ⟨before, expr, after, rfl, overflows⟩ := exists_overflows exceeds
    refine ⟨before, expr, after, rfl, overflows, fun others => ?_⟩
    rw [interpret_of_overflows remains overflows, overflows.filled_output after]

/-- A sink with room for five bytes, which it cannot flush. -/
def narrow : Interpreter :=
  { sink := { room := some 5, flushFails := true } }

/-- A character of two bytes to print, and then the sign of `nil`, which has no value. -/
def accented : List Stmt :=
  [.print (.literal (.string "é")),
    .expression (.unary ⟨.symbol .minus, "-", 7⟩ (.literal .nil))]

/-- The first line fits, although it is not flushed; of the second the first half of its
character is kept, and the statement behind it is not evaluated. -/
theorem interpret_bounded_accented :
    narrow.sink.room = some 5 ∧
      (narrow.interpret [.print (.literal .nil)]).1 = .error (.output 1 .flushFailed) ∧
      let second := (narrow.afterPrograms [[.print (.literal .nil)]]).interpret accented
      second.2.sink.content = "nil\n".toUTF8.push 0xC3 ∧
        ∃ line, second.1 = .error (.output line .full) := by
  have bounded : narrow.sink.room = some 5 := rfl
  obtain ⟨-, -, fits, -⟩ := interpret_bounded narrow bounded [] [.print (.literal .nil)]
  obtain ⟨ended, -⟩ := fits (by decide +kernel)
  obtain ⟨first, kept, -, exceeds⟩ :=
    interpret_bounded narrow bounded [[.print (.literal .nil)]] accented
  obtain ⟨before, expr, after, split, -, ends⟩ := exceeds (by decide +kernel)
  refine ⟨bounded, ended.trans rfl, ?_, ?_⟩
  · rw [kept, first]
    decide +kernel
  · rw [split, ends after]
    exact ⟨_, rfl⟩

end Interpreter

end Lox
