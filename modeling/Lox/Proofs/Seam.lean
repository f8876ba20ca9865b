/-
# Lox.Proofs.Seam -- a newline between two texts

A newline ends every piece of text but a string and a block comment.  So where neither is left
open at the end of a text, a newline and another text behind it change nothing in its pieces,
and the other text is cut as if it stood alone.

* `Piece.Finished` -- the piece is neither an open string nor an open block comment.
* `Piece.Cut.append_newline` -- the first piece of a text with a newline and more behind it.
* `Piece.segmentsAfter_append_newline`, `Scan.ofChars_append_newline` -- all pieces, and what
  they come to.
* `Scan.ofText_append_newline_append` -- a whole text above another, whatever is wrong with
  either.
-/
import Lox.Proofs.Lines

namespace Lox

set_option autoImplicit false

namespace Piece

/-! ## Open pieces -/

/-- The piece is a block comment without its closer. -/
def OpenComment (p : Piece) : Prop :=
  p.shape = .blockComment ∧
    ∃ text, p.chars = '/' :: '*' :: text ∧ ∀ body, body <+: text → ¬ CommentBody body

/-- The piece ends where it does for a reason other than the end of the text. -/
structure Finished (p : Piece) : Prop where
  quoted : p.shape ≠ .unclosed
  closed : ¬ p.OpenComment

/-- The text ends inside a block comment. -/
def LeavesCommentOpen (text : String) : Prop :=
  ∃ p ∈ segments text.toList, p.OpenComment

/-- A text without block comments leaves none open. -/
theorem not_leavesCommentOpen {text : String}
    (none : (segments text.toList).all (·.shape != .blockComment) = true) :
    ¬ LeavesCommentOpen text := by
  rintro ⟨p, member, comment, -⟩
  simpa [comment] using List.all_eq_true.1 none p member

/-! ## The first piece -/

/-- A newline and more behind a text leave its first piece as it is. -/
theorem Cut.append_newline {shape : Shape} {chars rest : List Char} (cut : Cut shape chars rest)
    {line : Nat} (finished : (⟨shape, chars, line⟩ : Piece).Finished) (more : List Char) :
    Cut shape chars (rest ++ '\n' :: more) := by
  have ends {P : Char → Prop} (before : ∀ c ∈ rest.head?, P c) (newline : P '\n') :
      ∀ c ∈ (rest ++ '\n' :: more).head?, P c := by
    cases rest with
    | nil => simpa using newline
    | cons c rest => simpa using before
  have within {front : List Char} (free : '\n' ∉ front)
      (starts : front <+: chars ++ (rest ++ '\n' :: more)) : front <+: chars ++ rest := by
    rw [← List.append_assoc] at starts
    exact prefix_of_prefix_append_cons free starts
  -- What is excluded is what only the end of the text ends; the rest a newline ends as well.
  cases cut with
  | quoted free => exact .quoted free
  | unclosed => exact absurd rfl finished.quoted
  | closedComment closed => exact .closedComment closed
  | openComment stays => exact absurd ⟨rfl, _, rfl, stays⟩ finished.closed
  | lineComment free before => exact .lineComment free (ends before rfl)
  | newline => exact .newline
  | blank inside before => exact .blank inside (ends before rfl)
  | lexeme line block longest =>
      refine .lexeme (fun starts => line (within (by decide) starts))
        (fun starts => block (within (by decide) starts)) ⟨longest.lexeme, ?_⟩
      exact fun lexeme starts => longest.longest lexeme (within (lexeme.space_notMem rfl) starts)
  | stray quote newline blank none =>
      exact .stray quote newline blank fun lexeme starts =>
        none lexeme (within (lexeme.space_notMem rfl) starts)

/-! ## All pieces -/

/-- Behind a text without open pieces a newline is a piece of its own, and another text is cut
as if it stood alone. -/
theorem segmentsAfter_append_newline {line : Nat} {text : List Char}
    (finished : ∀ p ∈ segmentsAfter [] line text, p.Finished) (more : List Char) :
    segmentsAfter [] line (text ++ '\n' :: more) =
      segmentsAfter [] line text ++
        ⟨.newline, ['\n'], line + (1 + text.count '\n')⟩ ::
          segmentsAfter [] (line + (1 + text.count '\n')) more := by
  induction text using cut_induction generalizing line with
  | nil =>
      have cut : Cut .newline ['\n'] more := .newline
      simpa [segmentsAfter] using segmentsAfter_of_cut cut line
  | @cut shape chars rest front ih =>
      rw [segmentsAfter_of_cut front, List.forall_mem_cons] at finished
      rw [List.append_assoc, segmentsAfter_of_cut (front.append_newline finished.1 more),
        segmentsAfter_of_cut front, ih finished.2]
      simp [Nat.add_assoc, Nat.add_left_comm 1]

end Piece

namespace Scan

open Piece

/-- What a text comes to with a newline and another text behind it: what it comes to alone, and
then what the other does, further down. -/
theorem ofChars_append_newline {text : List Char} (finished : ∀ p ∈ segments text, p.Finished)
    (more : List Char) :
    ofChars 1 (text ++ '\n' :: more) =
      { tokens := (ofChars 1 text).tokens ++
          ((ofChars 1 more).shifted (1 + text.count '\n')).tokens
        faults := (ofChars 1 text).faults ++
          ((ofChars 1 more).shifted (1 + text.count '\n')).faults } := by
  rw [← ofChars_add]
  unfold ofChars
  rw [segmentsAfter_append_newline finished, List.filterMap_append, List.filterMap_append]
  rfl

/-- A text in which every string is closed, and every comment, has no open piece. -/
theorem finished_of_terminated {text : String} (terminated : ∀ d ∈ (ofText text).faults,
      d.message ≠ LexicalFault.unterminatedString.message)
    (closed : ¬ LeavesCommentOpen text) : ∀ p ∈ segments text.toList, p.Finished := by
  intro p member
  constructor
  · intro unclosed
    have fault : p.diagnostic? = some (.onLine p.line LexicalFault.unterminatedString.message) := by
      simp [diagnostic?, meaning, unclosed]
    exact terminated _ (List.mem_filterMap.2 ⟨p, member, fault⟩) rfl
  · exact fun opens => closed ⟨p, member, opens⟩

/-- A text without lexical faults and without an open comment has no open piece. -/
theorem finished_of_faultless {text : String} (faultless : (ofText text).faults = [])
    (closed : ¬ LeavesCommentOpen text) : ∀ p ∈ segments text.toList, p.Finished :=
  finished_of_terminated (by simp [faultless]) closed

/-- **Scanning goes on below a newline as from the start.**  Take a text, with whatever faults,
whose strings are all closed and which leaves no comment open.  With a newline and another text
behind it, it scans to its own tokens but the last, which stands for the end of the input, and
then to those of the other text; and what is reported are its faults and then those of the other.
Of the other text every line is higher by the lines that the first takes. -/
theorem ofText_append_newline_append {a : String} (terminated : ∀ d ∈ (ofText a).faults,
      d.message ≠ LexicalFault.unterminatedString.message)
    (closed : ¬ LeavesCommentOpen a) (b : String) :
    ofText (a ++ "\n" ++ b) =
      { tokens := (ofText a).tokens.dropLast ++
          (ofText b).tokens.map (Token.shifted (1 + a.toList.count '\n'))
        faults := (ofText a).faults ++
          (ofText b).faults.map (Diagnostic.shifted (1 + a.toList.count '\n')) } := by
  have split : (a ++ "\n" ++ b).toList = a.toList ++ '\n' :: b.toList := by simp
  have cut := ofChars_append_newline (finished_of_terminated terminated closed) b.toList
  rw [ofText_eq_ofChars, ofText_eq_ofChars a, ofText_eq_ofChars b, split, cut]
  simp [shifted, Token.shifted, Token.eof, List.count_append]
  omega

/-- A string over two lines, a stray character, a nested comment, a numeral, and at the end a line
comment with a quote in it. -/
def faultyText : String :=
  "\"x\ny\" é /*/**/*/ 0 // \""

theorem faultyText_closed : ¬ LeavesCommentOpen faultyText := by
  have comments : (segments faultyText.toList).all (fun p =>
      p.shape != .blockComment || p.chars == ['/', '*', '/', '*', '*', '/', '*', '/']) = true := by
    cbv
  have body : CommentBody ['/', '*', '*', '/', '*', '/'] := .nested .closer .closer
  rintro ⟨p, member, comment, text, chars, stays⟩
  have same := List.all_eq_true.1 comments p member
  rw [comment, chars] at same
  obtain rfl : text = ['/', '*', '*', '/', '*', '/'] := by simpa using same
  exact stays _ List.prefix_rfl body

/-- Below the line comment a numeral is read as such, and the faults of both texts are told, those
of the lower one on the lines where they stand. -/
theorem ofText_append_newline_append_faultyText :
    (∀ d ∈ (ofText faultyText).faults, d.message ≠ LexicalFault.unterminatedString.message) ∧
      ¬ LeavesCommentOpen faultyText ∧
      (ofText (faultyText ++ "\n" ++ "0 @\n\"")).tokens.map Token.line = [2, 2, 3, 4] ∧
      (ofText (faultyText ++ "\n" ++ "0 @\n\"")).faults =
        [.onLine 2 "Unexpected character.", .onLine 3 "Unexpected character.",
          .onLine 4 "Unterminated string."] := by
  have faults : (ofText faultyText).faults = [.onLine 2 "Unexpected character."] := by cbv
  have terminated : ∀ d ∈ (ofText faultyText).faults,
      d.message ≠ LexicalFault.unterminatedString.message := by
    rw [faults]
    decide
  have joined := ofText_append_newline_append terminated faultyText_closed "0 @\n\""
  refine ⟨terminated, faultyText_closed, ?_, ?_⟩
  · rw [joined]
    cbv
  · rw [joined, faults]
    cbv

end Scan

end Lox
