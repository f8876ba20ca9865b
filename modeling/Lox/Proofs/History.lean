/-
# Lox.Proofs.History -- what a session remembers

Of all that it was asked to do, a session keeps two flags, and they say of the calls since the
last reset whether one rejected a text and whether one stopped a program.  A rejected text
leaves no other trace: no interpreter is asked for anything, so nothing is written.

* `Session.Rejects`, `Session.Stops` -- the two ways in which a call goes wrong.
* `Session.SinceReset` -- what some call did behind which no reset came.
* `Session.flag_afterAll` -- a flag that a call raises and a reset lowers.
* `Session.remembers_afterAll` -- the flags of a session after any calls, and its rejections.
-/
import Lox.Proofs.Acceptance

namespace Lox

set_option autoImplicit false

/-- A parser reports what is lexically wrong with a text and then what is wrong with its
tokens, as it does where they stand alone. -/
theorem Parser.reported_ofText (text : String) (bound : Nat) :
    (ofText text bound).program.2.reported = (Scan.ofText text).faults ++
      (ofTokens (Scan.ofText text).tokens bound).program.2.reported := by
  have complaints : (ofText text bound).complaint? =
      (ofTokens (Scan.ofText text).tokens bound).complaint? := rfl
  rw [program_eq, program_eq, complaints]
  rfl

namespace Session

variable {s : Session} {call : Call} {text : String} {program : List Stmt}

/-! ## How calls go wrong -/

/-- The call, a run or a parse, is answered with the faults of its text. -/
inductive Rejects (s : Session) : Call → List Diagnostic → Prop
  | run {text : String} {faults : List Diagnostic}
      (rejected : (s.run text).1 = .error (.rejected faults)) : Rejects s (.run text) faults
  | parse {text : String} {faults : List Diagnostic}
      (rejected : (s.parse text).1 = .error (.rejected faults)) : Rejects s (.parse text) faults

/-- The call, a run or an execution, is answered with the error that stopped a program. -/
inductive Stops (s : Session) : Call → RuntimeError → Prop
  | run {text : String} {error : RuntimeError}
      (stopped : (s.run text).1 = .error (.stopped error)) : Stops s (.run text) error
  | execute {program : List Stmt} {error : RuntimeError}
      (stopped : (s.execute program).1 = .error (.stopped error)) : Stops s (.execute program) error

theorem execute_ne_rejected (s : Session) (program : List Stmt) (faults : List Diagnostic) :
    (s.execute program).1 ≠ .error (.rejected faults) := by
  rw [execute_fst]
  cases (s.interpreter.interpret program).1 <;> simp [Except.mapError]

/-- What is rejected is a text with faults, whatever else there is to the session. -/
theorem rejects_iff {faults : List Diagnostic} :
    s.Rejects call faults ↔
      ∃ text, (call = .run text ∨ call = .parse text) ∧
        programOfText s.config.maxDepth text = .error faults := by
  constructor
  · rintro (rejected | rejected)
    · rename_i text
      cases came : programOfText s.config.maxDepth text with
      | ok program =>
          rw [run_of_ok came] at rejected
          exact absurd rejected (s.execute_ne_rejected program faults)
      | error faults' =>
          rw [run_of_error came] at rejected
          cases rejected
          exact ⟨text, .inl rfl, came⟩
    · rename_i text
      rw [parse_fst] at rejected
      obtain ⟨faults', came, ⟨⟩⟩ := mapError_eq_error rejected
      exact ⟨text, .inr rfl, came⟩
  · rintro ⟨text, rfl | rfl, came⟩
    · exact .run (by rw [run_of_error came])
    · exact .parse (by rw [parse_of_error came])

/-- What is stopped is a program, be it that of an accepted text. -/
theorem stops_iff {error : RuntimeError} :
    s.Stops call error ↔
      ∃ program, (call = .execute program ∨
          ∃ text, call = .run text ∧ programOfText s.config.maxDepth text = .ok program) ∧
        (s.execute program).1 = .error (.stopped error) := by
  constructor
  · rintro (stopped | stopped)
    · rename_i text
      cases came : programOfText s.config.maxDepth text with
      | ok program => exact ⟨program, .inr ⟨text, rfl, came⟩, by rwa [← run_of_ok came]⟩
      | error faults =>
          rw [run_of_error came] at stopped
          cases stopped
    · rename_i program
      exact ⟨program, .inl rfl, stopped⟩
  · rintro ⟨program, rfl | ⟨text, rfl, came⟩, stopped⟩
    · exact .execute stopped
    · exact .run (by rwa [run_of_ok came])

/-- A rejection raises its flag and leaves everything else as it is. -/
theorem Rejects.after_eq {faults : List Diagnostic} (rejects : s.Rejects call faults) :
    s.after call = { s with hadSyntaxError := true } := by
  obtain ⟨text, rfl | rfl, came⟩ := rejects_iff.1 rejects
  · exact congrArg Prod.snd (run_of_error came)
  · exact congrArg Prod.snd (parse_of_error came)

/-! ## The flags after one call -/

theorem execute_hadSyntaxError (s : Session) (program : List Stmt) :
    (s.execute program).2.hadSyntaxError = s.hadSyntaxError := by
  rw [execute]
  rcases s.interpreter.interpret program with ⟨_ | _, _⟩ <;> rfl

theorem execute_hadRuntimeError (s : Session) (program : List Stmt) :
    (s.execute program).2.hadRuntimeError = true ↔
      (∃ error, (s.execute program).1 = .error (.stopped error)) ∨ s.hadRuntimeError = true := by
  rw [execute]
  rcases s.interpreter.interpret program with ⟨_ | _, _⟩ <;> simp

/-- The first flag is raised by a rejection and lowered by a reset. -/
theorem after_hadSyntaxError (s : Session) (call : Call) :
    (s.after call).hadSyntaxError = true ↔
      (∃ faults, s.Rejects call faults) ∨ call ≠ .resetErrors ∧ s.hadSyntaxError = true := by
  cases call with
  | resetErrors => simp [after, resetErrors, rejects_iff]
  | execute program => simp [after, execute_hadSyntaxError, rejects_iff]
  | parse text =>
      cases came : programOfText s.config.maxDepth text with
      | ok program => simp [after, parse_of_ok came, rejects_iff, came]
      | error faults => simp [after, parse_of_error came, rejects_iff, came]
  | run text =>
      cases came : programOfText s.config.maxDepth text with
      | ok program =>
          simp [after, run_of_ok came, execute_hadSyntaxError, rejects_iff, came]
      | error faults => simp [after, run_of_error came, rejects_iff, came]

/-- The second flag is raised by a program that stops and lowered by a reset. -/
theorem after_hadRuntimeError (s : Session) (call : Call) :
    (s.after call).hadRuntimeError = true ↔
      (∃ error, s.Stops call error) ∨ call ≠ .resetErrors ∧ s.hadRuntimeError = true := by
  cases call with
  | resetErrors => simp [after, resetErrors, stops_iff]
  | execute program => simp [after, execute_hadRuntimeError, stops_iff]
  | parse text =>
      cases came : programOfText s.config.maxDepth text with
      | ok program => simp [after, parse_of_ok came, stops_iff]
      | error faults => simp [after, parse_of_error came, stops_iff]
  | run text =>
      cases came : programOfText s.config.maxDepth text with
      | ok program => simp [after, run_of_ok came, execute_hadRuntimeError, stops_iff, came]
      | error faults => simp [after, run_of_error came, stops_iff, came]

/-! ## The flags after any calls -/

/-- Some call did this, and no reset came behind it. -/
def SinceReset (raises : Session → Call → Prop) (s : Session) (calls : List Call) : Prop :=
  ∃ earlier call later, calls = earlier ++ call :: later ∧ .resetErrors ∉ later ∧
    raises (s.afterAll earlier) call

theorem afterAll_concat (s : Session) (calls : List Call) (call : Call) :
    s.afterAll (calls ++ [call]) = (s.afterAll calls).after call := by
  simp [afterAll]

variable {raises : Session → Call → Prop}

/-- What was done since the last reset was done by the last call, or before it if that is no
reset itself. -/
theorem sinceReset_concat_iff {calls : List Call} :
    SinceReset raises s (calls ++ [call]) ↔
      raises (s.afterAll calls) call ∨ call ≠ .resetErrors ∧ SinceReset raises s calls := by
  constructor
  · rintro ⟨earlier, raising, later, split, none, raised⟩
    obtain rfl | ⟨later, last, rfl⟩ := List.eq_nil_or_concat later
    · obtain ⟨rfl, ⟨⟩⟩ := List.append_inj' split rfl
      exact .inl raised
    · have split : calls ++ [call] = (earlier ++ raising :: later) ++ [last] := by simpa using split
      obtain ⟨rfl, ⟨⟩⟩ := List.append_inj' split rfl
      rw [List.concat_eq_append, List.mem_append, not_or, List.mem_singleton] at none
      exact .inr ⟨Ne.symm none.2, earlier, raising, later, rfl, none.1, raised⟩
  · rintro (raised | ⟨noReset, earlier, raising, later, rfl, none, raised⟩)
    · exact ⟨calls, call, [], rfl, List.not_mem_nil, raised⟩
    · refine ⟨earlier, raising, later ++ [call], by simp, ?_, raised⟩
      rw [List.mem_append, not_or, List.mem_singleton]
      exact ⟨none, noReset.symm⟩

/-- A flag that some calls raise and a reset lowers says whether one of those calls was made
since the last reset. -/
theorem flag_afterAll (flag : Session → Bool)
    (step : ∀ s call, flag (s.after call) = true ↔
      raises s call ∨ call ≠ .resetErrors ∧ flag s = true)
    (lowered : flag s = false) (calls : List Call) :
    flag (s.afterAll calls) = true ↔ SinceReset raises s calls := by
  -- The last call decides, so the calls are taken from the end.
  induction calls using List.reverseRecOn with
  | nil => simp [afterAll, lowered, SinceReset]
  | append_singleton calls call ih => rw [afterAll_concat, step, sinceReset_concat_iff, ih]

/-! ## What was written -/

/-- What was written stays, whatever else is written. -/
theorem exists_content_afterAll (s : Session) (calls : List Call) :
    ∃ more, (s.afterAll calls).interpreter.sink.content = s.interpreter.sink.content ++ more := by
  refine afterAll_sink
    (P := fun sink => ∃ more, sink.content = s.interpreter.sink.content ++ more) ?_ ?_ calls
  · rintro sink bytes ⟨more, kept⟩
    obtain ⟨added, grown⟩ := sink.exists_write_content bytes
    exact ⟨more ++ added, by rw [grown, kept, ByteArray.append_assoc]⟩
  · exact ⟨.empty, ByteArray.append_empty.symm⟩

/-! ## Any session -/

/-- **What a session remembers.**  Take any session, whatever it was asked to do, with any limits
and any sink, be it one that has begun to fail.  Its first flag says whether a run or a parse
since the last reset was answered with faults, and its second whether a run or an execution was
stopped by an error.  A text is rejected if and only if scanning or parsing it has something to
report, and then with all of it, the lexical faults first.  A rejection does nothing but raise
its flag: whichever interpreter the session had, it would be left as it is.  And what was
written is never taken back. -/
theorem remembers_afterAll (config : Config) (sink : Sink) (calls : List Call) :
    let s := (start config sink).afterAll calls
    (s.hadSyntaxError = true ↔
        SinceReset (fun s call => ∃ faults, s.Rejects call faults) (start config sink) calls) ∧
      (s.hadRuntimeError = true ↔
        SinceReset (fun s call => ∃ error, s.Stops call error) (start config sink) calls) ∧
      (∀ text call faults, call = .run text ∨ call = .parse text →
        (s.Rejects call faults ↔ faults ≠ [] ∧ faults = (Scan.ofText text).faults ++
          (Parser.ofTokens (Scan.ofText text).tokens config.maxDepth).program.2.reported)) ∧
      (∀ call faults, s.Rejects call faults → ∀ i,
        { s with interpreter := i : Session }.Rejects call faults ∧
          { s with interpreter := i : Session }.after call =
            { s with interpreter := i, hadSyntaxError := true }) ∧
      ∀ later, ∃ more, (s.afterAll later).interpreter.sink.content =
        s.interpreter.sink.content ++ more := by
  intro s
  have limits : s.config = config := (fits_afterAll config sink calls).config_eq
  refine ⟨?_, ?_, ?_, ?_, s.exists_content_afterAll⟩
  · exact flag_afterAll hadSyntaxError after_hadSyntaxError rfl calls
  · exact flag_afterAll hadRuntimeError after_hadRuntimeError rfl calls
  · intro text call faults reads
    rw [rejects_iff, limits, ← Parser.reported_ofText, and_comm, eq_comm (a := faults),
      ← programOfText_eq_error_iff]
    constructor
    · rintro ⟨text', reads', rejected⟩
      obtain rfl : text' = text := by
        rcases reads with rfl | rfl <;> rcases reads' with ⟨⟨⟩⟩ | ⟨⟨⟩⟩ <;> rfl
      exact rejected
    · exact fun rejected => ⟨text, reads, rejected⟩
  · intro call faults rejects i
    have rejected := rejects_iff.1 rejects
    have rejects : { s with interpreter := i : Session }.Rejects call faults :=
      rejects_iff.2 rejected
    exact ⟨rejects, rejects.after_eq⟩

/-- A line is printed, a text rejected, a second line stopped by the sink, and then, with both
flags lowered, the sign of `nil` refused. -/
def troubledCalls : List Call :=
  [.run "print nil;", .parse ")", .run "print nil;", .resetErrors, .run "-nil;"]

/-- The sink has taken the first line and no more; what was rejected before the reset is
forgotten, and a text whose tokens are a program is withheld for its stray character. -/
theorem remembers_afterAll_troubledCalls :
    let s := (start {} { room := some 4 }).afterAll troubledCalls
    let faults := [⟨1, .nowhere, "Unexpected character."⟩]
    s.hadRuntimeError = true ∧ s.hadSyntaxError = false ∧
      s.Rejects (.run "print nil; @") faults ∧
      s.after (.run "print nil; @") = { s with hadSyntaxError := true } := by
  intro s faults
  obtain ⟨-, runtime, rejections, withheld, -⟩ :=
    remembers_afterAll {} { room := some 4 } troubledCalls
  have stopped : s.hadRuntimeError = true :=
    runtime.2 ⟨troubledCalls.dropLast, .run "-nil;", [], rfl, List.not_mem_nil,
      .type ⟨.symbol .minus, "-", 1⟩ .negation, .run (by cbv)⟩
  have forgotten :
      ((start {} { room := some 4 }).afterAll troubledCalls).hadSyntaxError = false := by
    cbv
  have rejects : s.Rejects (.run "print nil; @") faults :=
    (rejections _ _ _ (.inl rfl)).2 ⟨List.cons_ne_nil _ _, by cbv⟩
  exact ⟨stopped, forgotten, rejects, (withheld _ _ rejects s.interpreter).2⟩

end Session

end Lox
