/-
# Lox.Proofs.Concatenation -- one text above another

Running one text with another below it is running the one and then the other.  The first has
to be accepted and must not leave a comment open, or else the second would be part of it;
then scanning, parsing and running go on behind the newline as from the start, only that many
lines further down.

* `linesOf` -- how many lines further down the second text begins.
* `Parser.ofText_append_newline`, `programOfText_append_newline` -- parsing.
* `Session.run_append_newline` -- running.
-/
import Lox.Proofs.Independence
import Lox.Proofs.Recovery
import Lox.Proofs.Seam

namespace Lox

set_option autoImplicit false

open Stmt Piece

/-- The number of lines that a text takes. -/
def linesOf (text : String) : Nat :=
  1 + text.toList.count '\n'

/-! ## Parsing -/

namespace Parser

/-- Statements of the grammar before what a parser has ahead are read first. -/
theorem program_of_sentences {p : Parser} {stmts : List Stmt} {front : List Token}
    (sentences : Sentences p.bound stmts front) :
    { p with ahead := front ++ p.ahead : Parser }.program =
      (stmts ++ p.program.1, p.program.2) := by
  have complaints : { p with ahead := front ++ p.ahead : Parser }.complaint? = p.complaint? := rfl
  obtain ⟨read, silent⟩ := (@eq_map_done_iff p _ stmts).2 rfl
  rw [program_eq, program_eq, complaints]
  dsimp only
  rw [Parse.attempts_of_sentences sentences, List.filterMap_append, List.filterMap_append, read,
    silent]
  rfl

/-- The parser of a text: its tokens, the end of the input on its last line, and its lexical
faults. -/
theorem ofText_eq (text : String) (bound : Nat) :
    ofText text bound =
      { ahead := (Scan.ofChars 1 text.toList).tokens
        last := .eof (linesOf text)
        bound
        reported := (Scan.ofChars 1 text.toList).faults } := by
  have inner : ∀ t ∈ (Scan.ofChars 1 text.toList).tokens, t.isEof = false :=
    fun t member => (Scan.scanned_of_mem member).inner
  have last : (ofText text bound).last = .eof (linesOf text) :=
    last_ofTokens_append (B := [Token.eof (linesOf text)]) bound inner (List.cons_ne_nil _ _)
  rw [← ahead_ofText text bound, ← last]
  rfl

theorem linesOf_append_newline (a b : String) :
    linesOf (a ++ "\n" ++ b) = linesOf b + linesOf a := by
  simp only [linesOf, String.toList_append, List.count_append]
  simp
  omega

/-- The parser of two texts is that of the second, further down, with the tokens of the first
before its own. -/
theorem ofText_append_newline {a : String} (faultless : (Scan.ofText a).faults = [])
    (closed : ¬ LeavesCommentOpen a) (b : String) (bound : Nat) :
    ofText (a ++ "\n" ++ b) bound =
      { (ofText b bound).shifted (linesOf a) with
        ahead := (Scan.ofChars 1 a.toList).tokens ++
          ((ofText b bound).shifted (linesOf a)).ahead } := by
  have split : (a ++ "\n" ++ b).toList = a.toList ++ '\n' :: b.toList := by simp
  have faults : (Scan.ofChars 1 a.toList).faults = [] := faultless
  rw [ofText_eq, ofText_eq, split, linesOf_append_newline,
    Scan.ofChars_append_newline (Scan.finished_of_faultless faultless closed), faults]
  rfl

end Parser

/-- Below an accepted text another one is accepted or rejected as it is alone. -/
theorem programOfText_append_newline {maxDepth : Nat} {a : String} {program : List Stmt}
    (accepted : programOfText maxDepth a = .ok program) (closed : ¬ LeavesCommentOpen a)
    (b : String) :
    programOfText maxDepth (a ++ "\n" ++ b) =
      match programOfText maxDepth b with
      | .ok others => .ok (program ++ others.map (Stmt.shifted (linesOf a)))
      | .error faults => .error (faults.map (Diagnostic.shifted (linesOf a))) := by
  obtain ⟨faultless, sentences⟩ := programOfText_eq_ok_iff.1 accepted
  have read : (Parser.ofText (a ++ "\n" ++ b) maxDepth).program =
      (program ++ (Parser.ofText b maxDepth).program.1.map (Stmt.shifted (linesOf a)),
        (Parser.ofText b maxDepth).program.2.shifted (linesOf a)) := by
    rw [Parser.ofText_append_newline faultless closed, Parser.program_of_sentences sentences,
      Parser.program_shifted]
  cases alone : programOfText maxDepth b with
  | ok others =>
      obtain ⟨silent, same⟩ := programOfText_eq_ok_iff_silent.1 alone
      refine programOfText_eq_ok_iff_silent.2 ?_
      rw [read, same]
      exact ⟨by simp [Parser.shifted, silent], rfl⟩
  | error faults =>
      obtain ⟨same, some⟩ := programOfText_eq_error_iff.1 alone
      refine programOfText_eq_error_iff.2 ?_
      rw [read, ← same]
      exact ⟨rfl, by simpa [same] using some⟩

/-! ## Running -/

namespace Session

/-- **Running one text above another is running the one and then the other.**  Take
sessions with the same limits whose sinks never fail, in any states, and an accepted text that
leaves no comment open.  With another text below it, it is run as follows: if the other is
accepted and the first runs to its end, both write what they write alone, and the result is
that of the second, further down; if the first stops, it is as if there were no second; and if
the second is rejected nothing is written, and its faults are reported, further down. -/
theorem run_append_newline {config : Config} {s first second : Session} (steady : s.Steady config)
    (steadyFirst : first.Steady config) (steadySecond : second.Steady config) {a : String}
    {program : List Stmt} (accepted : (first.parse a).1 = .ok program)
    (closed : ¬ LeavesCommentOpen a) (b : String) :
    ∃ written writtenBelow, first.Writes a written ∧ second.Writes b writtenBelow ∧
      (∀ others, (second.parse b).1 = .ok others → (first.run a).1 = .ok () →
        (s.run (a ++ "\n" ++ b)).1 = (second.run b).1.mapError (RunError.shifted (linesOf a)) ∧
          s.Writes (a ++ "\n" ++ b) (written ++ writtenBelow)) ∧
      (∀ others, (second.parse b).1 = .ok others → ∀ error, (first.run a).1 = .error error →
        (s.run (a ++ "\n" ++ b)).1 = .error error ∧ s.Writes (a ++ "\n" ++ b) written) ∧
      ∀ error, (second.parse b).1 = .error error → ∃ faults, error = .rejected faults ∧
        (s.run (a ++ "\n" ++ b)).1 =
            .error (.rejected (faults.map (Diagnostic.shifted (linesOf a)))) ∧
          s.Writes (a ++ "\n" ++ b) .empty := by
  have steady := steady.able
  have steadyFirst := steadyFirst.able
  have steadySecond := steadySecond.able
  have accepted := steadyFirst.parse_eq_ok accepted
  have joined := programOfText_append_newline accepted closed b
  obtain ⟨ran, writes⟩ := steadyFirst.run_of_ok accepted
  cases below : programOfText config.maxDepth b with
  | error faults =>
      -- The whole is rejected with the second text, before any of the first is executed.
      rw [below] at joined
      obtain ⟨-, writesBelow⟩ := steadySecond.run_of_error below
      have failed : (second.parse b).1 = .error (.rejected faults) := by
        rw [steadySecond.parse_eq, below]
        rfl
      refine ⟨_, _, writes, writesBelow, ?_, ?_, ?_⟩
      · intro others parsed
        cases failed.symm.trans parsed
      · intro others parsed
        cases failed.symm.trans parsed
      · intro error failed'
        cases failed.symm.trans failed'
        exact ⟨faults, rfl, steady.run_of_error joined⟩
  | ok others =>
      rw [below] at joined
      obtain ⟨ranBelow, writesBelow⟩ := steadySecond.run_of_ok below
      obtain ⟨ranJoined, writesJoined⟩ := steady.run_of_ok joined
      rw [ran, ranBelow, ranJoined]
      refine ⟨_, _, writes, writesBelow, ?_, ?_, ?_⟩
      · -- The first program ends well, so the second begins where it does alone.
        intro _ _ done
        have done := mapError_eq_ok done
        rw [trace_append_of_ok done, trace_shifted] at writesJoined ⊢
        refine ⟨?_, writesJoined⟩
        cases (trace others).2 <;> rfl
      · -- The first program stops, and the joined one never gets past it.
        intro _ _ error stopped
        obtain ⟨e, failed, -⟩ := mapError_eq_error stopped
        rw [trace_append_of_error failed] at writesJoined ⊢
        exact ⟨stopped, writesJoined⟩
      · intro error failed
        obtain ⟨faults, -, rejected⟩ := steadySecond.parse_eq_error failed
        cases below.symm.trans rejected

/-- `nil` is printed and its sign refused two lines below; below a sign that is refused nothing
is printed; and above a parenthesis that nothing opened nothing is printed either. -/
theorem run_append_newline_negatedNil :
    (start {}).Writes ("print nil;" ++ "\n" ++ "\nprint -nil;") "nil\n".toUTF8 ∧
      ((start {}).run ("print nil;" ++ "\n" ++ "\nprint -nil;")).1 =
        .error (.stopped (.type ⟨.symbol .minus, "-", 3⟩ .negation)) ∧
      ((start {}).run ("-nil;" ++ "\n" ++ "print nil;")).1 =
        .error (.stopped (.type ⟨.symbol .minus, "-", 1⟩ .negation)) ∧
      ((start {}).run ("print nil;" ++ "\n" ++ ")")).1 =
        .error (.rejected [⟨2, .atLexeme ")", "Expect expression."⟩]) := by
  have steady : (start {}).Steady {} := ⟨{}, [], ⟨rfl, rfl⟩, rfl⟩
  have parsed : ((start {}).parse "print nil;").1 = .ok [.print (.literal .nil)] := by cbv
  have signed : ((start {}).parse "-nil;").1 =
      .ok [.expression (.unary ⟨.symbol .minus, "-", 1⟩ (.literal .nil))] := by cbv
  have closed : ¬ LeavesCommentOpen "print nil;" := not_leavesCommentOpen (by cbv)
  have closed' : ¬ LeavesCommentOpen "-nil;" := not_leavesCommentOpen (by cbv)
  have printed : ((start {}).run "print nil;").2.interpreter.sink.content = "nil\n".toUTF8 := by
    cbv
  have nothing : ((start {}).run "\nprint -nil;").2.interpreter.sink.content = .empty := by cbv
  obtain ⟨written, writtenBelow, writes, writesBelow, both, _, _⟩ :=
    run_append_newline steady steady steady parsed closed "\nprint -nil;"
  obtain ⟨ran, together⟩ := both
    [.print (.unary ⟨.symbol .minus, "-", 2⟩ (.literal .nil))] (by cbv) (by cbv)
  have written_eq : "nil\n".toUTF8 = written :=
    (printed.symm.trans writes).trans ByteArray.empty_append
  have below_eq : ByteArray.empty = writtenBelow :=
    (nothing.symm.trans writesBelow).trans ByteArray.empty_append
  obtain ⟨_, _, _, _, _, stops, _⟩ :=
    run_append_newline steady steady steady signed closed' "print nil;"
  obtain ⟨_, _, _, _, _, _, rejects⟩ :=
    run_append_newline steady steady steady parsed closed ")"
  obtain ⟨faults, same, rejected, -⟩ :=
    rejects (.rejected [⟨1, .atLexeme ")", "Expect expression."⟩]) (by cbv)
  refine ⟨?_, ?_, ?_, ?_⟩
  · rwa [← written_eq, ← below_eq, ByteArray.append_empty] at together
  · rw [ran]
    cbv
  · exact (stops [.print (.literal .nil)] (by cbv) _ (by cbv)).1
  · cases same
    exact rejected

end Session

end Lox
