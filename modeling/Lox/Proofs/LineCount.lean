/-
# Lox.Proofs.LineCount -- every line is a count of newlines

While a text is cut, the line is counted on from piece to piece.  Only a newline, a string and a
block comment can hold newlines, so a counter need not look into any other piece; and what is
counted piece by piece is, at the end of each, the number of newlines in all of the text so far.
So the line of whatever a piece comes to can be read off the text.

* `Piece.lineFeeds` -- by how much a piece moves the counter; `Piece.Cut.lineFeeds_eq` says that
  these are the newlines in it.
* `Piece.Segmented.line_eq_count`, `Piece.Segmented.sum_lineFeeds` -- the line on which a piece
  ends, as a count of newlines and as the state of the counter.
* `Scan.ofText_lines` -- the lines of tokens and faults.
-/
import Lox.Proofs.Segmentation

namespace Lox

set_option autoImplicit false

namespace Piece

/-! ## One piece -/

/-- By how much a piece moves the line counter.  A newline moves it by one, a string by the
newlines behind its opening quote and a block comment by those behind its opener; nothing else
moves it. -/
def lineFeeds (p : Piece) : Nat :=
  match p.shape with
  | .newline => 1
  | .quoted | .unclosed => (p.chars.drop 1).count '\n'
  | .blockComment => (p.chars.drop 2).count '\n'
  | _ => 0

/-- The counter moves by the newlines in the piece. -/
theorem Cut.lineFeeds_eq {shape : Shape} {chars rest : List Char} (cut : Cut shape chars rest)
    (line : Nat) : (⟨shape, chars, line⟩ : Piece).lineFeeds = chars.count '\n' := by
  cases cut with
  | quoted | unclosed | closedComment | openComment => simp [lineFeeds]
  | newline => rfl
  | lineComment free =>
      symm
      simpa [lineFeeds, List.count_eq_zero] using free
  | blank inside =>
      have free : '\n' ∉ _ := fun member => Bool.noConfusion (inside '\n' member)
      exact (List.count_eq_zero.2 free).symm
  | stray _ newline =>
      symm
      simpa [lineFeeds, List.count_eq_zero] using newline.symm
  | lexeme _ _ longest =>
      have lexeme := longest.lexeme
      have free : chars.count '\n' = 0 := List.count_eq_zero.2 (lexeme.space_notMem rfl)
      rw [free]
      cases lexeme <;> rfl

/-! ## All pieces -/

variable {line : Nat} {text : List Char} {pieces : List Piece}

/-- A piece ends on the line that the newlines up to its end make. -/
theorem Segmented.line_eq_count (segmented : Segmented line text pieces)
    {before behind : List Piece} {p : Piece} (split : pieces = before ++ p :: behind) :
    p.line = line + (before.flatMap chars ++ p.chars).count '\n' := by
  induction segmented generalizing before with
  | nil => simp at split
  | cons cut others ih =>
      cases before with
      | nil =>
          cases split
          rfl
      | cons front before =>
          cases split
          rw [ih rfl, List.flatMap_cons, List.append_assoc, Nat.add_assoc, ← List.count_append]

/-- The counter, moved on by some of the pieces in front, has counted their newlines. -/
theorem Segmented.sum_lineFeeds (segmented : Segmented line text pieces) {front : List Piece}
    (within : front ⊆ pieces) :
    (front.map lineFeeds).sum = (front.flatMap chars).count '\n' := by
  induction front with
  | nil => rfl
  | cons p front ih =>
      rw [List.cons_subset] at within
      obtain ⟨rest, cut⟩ := segmented.forall_cut p within.1
      rw [List.map_cons, List.sum_cons, List.flatMap_cons, List.count_append, ih within.2]
      exact congrArg (· + _) (cut.lineFeeds_eq p.line)

end Piece

namespace Scan

open Piece

theorem line_of_diagnostic? {p : Piece} {d : Diagnostic} (made : p.diagnostic? = some d) :
    d.line = p.line := by
  unfold diagnostic? at made
  split at made
  · cases made
    rfl
  · cases made

/-- **Every line is exact.**  A text is cut into pieces, and each token and each fault stands on
the line of the piece that it was made from.  That line is one more than the newlines of the text
from its beginning to the end of the piece, those in the piece itself included; and it is where a
counter stands that begins with one and is moved by each piece in turn.  The end of the input
stands on the line that all newlines of the text make.  So neither the tokens nor the faults ever
go up again. -/
theorem ofText_lines (text : String) :
    ∃ pieces tokens, Segmented 1 text.toList pieces ∧
      Reading pieces tokens (ofText text).faults ∧
      (ofText text).tokens = tokens ++ [.eof (1 + text.toList.count '\n')] ∧
      (∀ before p behind, pieces = before ++ p :: behind →
        text.toList = before.flatMap chars ++ p.chars ++ behind.flatMap chars ∧
          p.line = 1 + (before.flatMap chars ++ p.chars).count '\n' ∧
          p.line = 1 + ((before ++ [p]).map lineFeeds).sum) ∧
      text.toList.count '\n' = (pieces.map lineFeeds).sum ∧
      ((ofText text).tokens.Pairwise fun t u => t.line ≤ u.line) ∧
      (ofText text).faults.Pairwise fun d e => d.line ≤ e.line := by
  have segmented : Segmented 1 text.toList (segments text.toList) := segmented_segmentsAfter ..
  have joined := chars_segments text.toList
  refine ⟨segments text.toList, _, segmented, segmented.reading, rfl, ?_, ?_,
    pairwise_line_ofText text, segmented.pairwise_filterMap_line fun p d => line_of_diagnostic?⟩
  · intro before p behind split
    have counted := segmented.line_eq_count split
    have moved : ((before ++ [p]).map lineFeeds).sum =
        ((before ++ [p]).flatMap chars).count '\n' := by
      apply segmented.sum_lineFeeds
      rw [split, List.append_cons before p behind]
      exact List.subset_append_left ..
    rw [split] at joined
    refine ⟨?_, counted, ?_⟩
    · rw [← joined]
      simp
    · rw [counted, moved]
      simp
  · rw [segmented.sum_lineFeeds (List.Subset.refl _), joined]

end Scan

end Lox
