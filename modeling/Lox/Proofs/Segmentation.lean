/-
# Lox.Proofs.Segmentation -- a text is its pieces, and its tokens are what they denote

Nothing of a text is lost, nothing is counted twice, and what each piece comes to does not
hang on the others.

* `Piece.Segmented` -- a text cut into pieces from left to right; `segmented_iff` says that
  there is one way to do it.
* `Piece.Denotes`, `Piece.Faulty`, `Piece.Skipped` -- what a piece can come to.
* `Scan.ofText_eq_iff_reading` -- the tokens and the faults of a text.
-/
import Lox.Proofs.Cutting

namespace Lox

set_option autoImplicit false

namespace Piece

/-! ## Cutting a text -/

/-- The pieces of a text that begins on `line`, each with the line on which it ends. -/
inductive Segmented : Nat → List Char → List Piece → Prop
  | nil {line : Nat} : Segmented line [] []
  | cons {line : Nat} {shape : Shape} {chars rest : List Char} {pieces : List Piece}
      (cut : Cut shape chars rest)
      (others : Segmented (line + chars.count '\n') rest pieces) :
      Segmented line (chars ++ rest) (⟨shape, chars, line + chars.count '\n'⟩ :: pieces)

theorem segmentsAfter_of_cut {shape : Shape} {chars rest : List Char} (cut : Cut shape chars rest)
    (line : Nat) :
    segmentsAfter [] line (chars ++ rest) =
      ⟨shape, chars, line + chars.count '\n'⟩ ::
        segmentsAfter [] (line + chars.count '\n') rest := by
  obtain ⟨c, tail, rfl⟩ := List.exists_cons_of_ne_nil cut.ne_nil
  exact segmentsAfter_cons cut.first_eq line

theorem segmented_segmentsAfter (line : Nat) (text : List Char) :
    Segmented line text (segmentsAfter [] line text) := by
  induction text using cut_induction generalizing line with
  | nil =>
      rw [segmentsAfter]
      exact .nil
  | cut front ih =>
      rw [segmentsAfter_of_cut front]
      exact .cons front (ih _)

/-- A text is cut in one way only. -/
theorem segmented_iff {line : Nat} {text : List Char} {pieces : List Piece} :
    Segmented line text pieces ↔ pieces = segmentsAfter [] line text := by
  constructor
  · intro segmented
    induction segmented with
    | nil =>
        rw [segmentsAfter]
        rfl
    | cons front others ih => rw [segmentsAfter_of_cut front, ih]
  · rintro rfl
    exact segmented_segmentsAfter line text

/-- What holds of everything that can be cut holds of the pieces of a text. -/
theorem Segmented.forall_cut {line : Nat} {text : List Char} {pieces : List Piece}
    (segmented : Segmented line text pieces) :
    ∀ p ∈ pieces, ∃ rest, Cut p.shape p.chars rest := by
  induction segmented with
  | nil => simp
  | @cons _ _ _ rest _ front others ih =>
      rw [List.forall_mem_cons]
      exact ⟨⟨rest, front⟩, ih⟩

theorem Segmented.line_mem {line : Nat} {text : List Char} {pieces : List Piece}
    (segmented : Segmented line text pieces) :
    ∀ p ∈ pieces, line ≤ p.line ∧ p.line ≤ line + text.count '\n' := by
  induction segmented with
  | nil => simp
  | @cons line _ chars rest _ front others ih =>
      rw [List.forall_mem_cons, List.count_append]
      constructor
      · exact ⟨Nat.le_add_right .., Nat.add_le_add_left (Nat.le_add_right ..) line⟩
      · intro p member
        have := ih p member
        omega

/-- The pieces of a text go down its lines. -/
theorem Segmented.pairwise_line {line : Nat} {text : List Char} {pieces : List Piece}
    (segmented : Segmented line text pieces) : pieces.Pairwise fun p q => p.line ≤ q.line := by
  induction segmented with
  | nil => exact .nil
  | cons front others ih => exact .cons (fun q member => (others.line_mem q member).1) ih

/-! ## What the pieces come to -/

/-- The number that a numeral stands for, as near as there is one. -/
def numeralValue (chars : List Char) : Float :=
  (Decimal.ofNumeral chars).toFloat

/-- What the token of a piece is.  Only strings and numbers carry a literal. -/
inductive Denotes : Piece → Kind → Prop
  | string {inside : List Char} {line : Nat} :
      Denotes ⟨.quoted, '"' :: (inside ++ ['"']), line⟩
        (.string (some (.string (String.ofList inside))))
  | symbol {s : Symbol} {chars : List Char} {line : Nat} :
      Denotes ⟨.symbol s, chars, line⟩ (.symbol s)
  | keyword {k : Keyword} {line : Nat} : Denotes ⟨.word, k.chars, line⟩ (.keyword k)
  | identifier {chars : List Char} {line : Nat} (free : ∀ k : Keyword, k.chars ≠ chars) :
      Denotes ⟨.word, chars, line⟩ .identifier
  | number {chars : List Char} {line : Nat} (finite : (numeralValue chars).isFinite = true) :
      Denotes ⟨.number, chars, line⟩ (.number (some (.number (numeralValue chars))))

/-- What is wrong with a piece. -/
inductive Faulty : Piece → LexicalFault → Prop
  | unterminatedString {chars : List Char} {line : Nat} :
      Faulty ⟨.unclosed, chars, line⟩ .unterminatedString
  | unexpectedCharacter {chars : List Char} {line : Nat} :
      Faulty ⟨.stray, chars, line⟩ .unexpectedCharacter
  | numberOutOfRange {chars : List Char} {line : Nat}
      (infinite : (numeralValue chars).isFinite = false) :
      Faulty ⟨.number, chars, line⟩ .numberOutOfRange

/-- The piece only separates others. -/
def Skipped (p : Piece) : Prop :=
  p.shape ∈ [Shape.blockComment, .lineComment, .newline, .blank]

theorem ofChars?_chars (k : Keyword) : Keyword.ofChars? k.chars = some k := by
  cases k <;> rfl

theorem ofChars?_eq_none_iff {chars : List Char} :
    Keyword.ofChars? chars = none ↔ ∀ k : Keyword, k.chars ≠ chars := by
  simp [Keyword.ofChars?, Keyword.mem_all]

theorem Denotes.meaning_eq {p : Piece} {kind : Kind} (denotes : p.Denotes kind) :
    p.meaning = .token kind := by
  cases denotes with
  | string => simp [meaning, unquoted]
  | symbol => rfl
  | keyword => simp [meaning, wordKind, ofChars?_chars]
  | identifier free => simp [meaning, wordKind, ofChars?_eq_none_iff.2 free]
  | number finite => exact if_pos finite

theorem Faulty.meaning_eq {p : Piece} {fault : LexicalFault} (faulty : p.Faulty fault) :
    p.meaning = .fault fault := by
  cases faulty with
  | unterminatedString | unexpectedCharacter => rfl
  | numberOutOfRange infinite => exact if_neg (by simpa [numeralValue] using infinite)

theorem Skipped.meaning_eq {p : Piece} (skipped : p.Skipped) : p.meaning = .skipped := by
  obtain ⟨shape, chars, line⟩ := p
  simp only [Skipped, List.mem_cons, List.not_mem_nil, or_false] at skipped
  rcases skipped with rfl | rfl | rfl | rfl <;> rfl

/-- Whatever is cut off a text is a token, a fault or skipped. -/
theorem denotes_or_faulty_or_skipped {p : Piece} {rest : List Char}
    (cut : Cut p.shape p.chars rest) :
    (∃ kind, p.Denotes kind) ∨ (∃ fault, p.Faulty fault) ∨ p.Skipped := by
  obtain ⟨shape, chars, line⟩ := p
  cases cut with
  | quoted => exact .inl ⟨_, .string⟩
  | unclosed => exact .inr (.inl ⟨_, .unterminatedString⟩)
  | stray => exact .inr (.inl ⟨_, .unexpectedCharacter⟩)
  | closedComment | openComment | lineComment | newline | blank =>
      exact .inr (.inr (by simp [Skipped]))
  | lexeme _ _ longest =>
      have lexeme := longest.lexeme
      cases shape with
      | symbol => exact .inl ⟨_, .symbol⟩
      | word =>
          by_cases keyword : ∃ k : Keyword, k.chars = chars
          · obtain ⟨k, rfl⟩ := keyword
            exact .inl ⟨_, .keyword⟩
          · exact .inl ⟨_, .identifier (not_exists.1 keyword)⟩
      | number =>
          cases finite : (numeralValue chars).isFinite with
          | true => exact .inl ⟨_, .number finite⟩
          | false => exact .inr (.inl ⟨_, .numberOutOfRange finite⟩)
      | _ => cases lexeme

theorem exists_meaning_of_token? {p : Piece} {t : Token} (made : p.token? = some t) :
    ∃ kind, p.meaning = .token kind ∧ t = ⟨kind, String.ofList p.chars, p.line⟩ := by
  unfold token? at made
  split at made
  · exact ⟨_, ‹_›, (Option.some.inj made).symm⟩
  · cases made

theorem line_of_token? {p : Piece} {t : Token} (made : p.token? = some t) : t.line = p.line := by
  obtain ⟨kind, -, rfl⟩ := exists_meaning_of_token? made
  rfl

/-- What is made of some of the pieces, each on the line of its piece, goes down the lines. -/
theorem Segmented.pairwise_filterMap_line {line : Nat} {text : List Char} {pieces : List Piece}
    (segmented : Segmented line text pieces) {α : Type} {make : Piece → Option α}
    {lineOf : α → Nat} (line_of : ∀ p a, make p = some a → lineOf a = p.line) :
    (pieces.filterMap make).Pairwise fun a b => lineOf a ≤ lineOf b := by
  refine segmented.pairwise_line.filterMap _ ?_
  intro p q ordered a made b made'
  rwa [line_of p a made, line_of q b made']

/-- Pieces, the tokens and the diagnostics that they come to: one token, one diagnostic or
neither for each piece, in their order. -/
inductive Reading : List Piece → List Token → List Diagnostic → Prop
  | nil : Reading [] [] []
  | token {p : Piece} {kind : Kind} {pieces : List Piece} {tokens : List Token}
      {faults : List Diagnostic} (denotes : p.Denotes kind)
      (others : Reading pieces tokens faults) :
      Reading (p :: pieces) (⟨kind, String.ofList p.chars, p.line⟩ :: tokens) faults
  | fault {p : Piece} {fault : LexicalFault} {pieces : List Piece} {tokens : List Token}
      {faults : List Diagnostic} (faulty : p.Faulty fault)
      (others : Reading pieces tokens faults) :
      Reading (p :: pieces) tokens (.onLine p.line fault.message :: faults)
  | skip {p : Piece} {pieces : List Piece} {tokens : List Token} {faults : List Diagnostic}
      (skipped : p.Skipped) (others : Reading pieces tokens faults) :
      Reading (p :: pieces) tokens faults

theorem Reading.eq_filterMap {pieces : List Piece} {tokens : List Token}
    {faults : List Diagnostic} (reading : Reading pieces tokens faults) :
    tokens = pieces.filterMap token? ∧ faults = pieces.filterMap diagnostic? := by
  induction reading with
  | nil => exact ⟨rfl, rfl⟩
  | token denotes others ih => simp [token?, diagnostic?, denotes.meaning_eq, ← ih.1, ← ih.2]
  | fault faulty others ih => simp [token?, diagnostic?, faulty.meaning_eq, ← ih.1, ← ih.2]
  | skip skipped others ih => simp [token?, diagnostic?, skipped.meaning_eq, ← ih.1, ← ih.2]

theorem Segmented.reading {line : Nat} {text : List Char} {pieces : List Piece}
    (segmented : Segmented line text pieces) :
    Reading pieces (pieces.filterMap token?) (pieces.filterMap diagnostic?) := by
  induction segmented with
  | nil => exact .nil
  | @cons line shape chars rest pieces front others ih =>
      obtain ⟨kind, denotes⟩ | ⟨fault, faulty⟩ | skipped :=
        denotes_or_faulty_or_skipped (p := ⟨shape, chars, line + chars.count '\n'⟩) front
      · simpa [token?, diagnostic?, denotes.meaning_eq] using ih.token denotes
      · simpa [token?, diagnostic?, faulty.meaning_eq] using ih.fault faulty
      · simpa [token?, diagnostic?, skipped.meaning_eq] using ih.skip skipped

end Piece

namespace Scan

open Piece

/-- The tokens of a text go down its lines. -/
theorem pairwise_line_ofText (text : String) :
    (ofText text).tokens.Pairwise fun t u => t.line ≤ u.line := by
  have segmented := segmented_segmentsAfter 1 text.toList
  refine List.pairwise_append.2
    ⟨segmented.pairwise_filterMap_line fun p t => line_of_token?, by simp, ?_⟩
  intro t member u last
  obtain ⟨p, cut, made⟩ := List.mem_filterMap.1 member
  rw [List.mem_singleton.1 last, line_of_token? made]
  exact (segmented.line_mem p cut).2

/-- **Scanning cuts a text into its longest pieces and loses nothing.**  There is one way to
cut a text from left to right; its pieces are not empty and joined they are the text.  What a
text scans to is one token for each string, symbol, word and numeral in range, spelled as the
piece is, and then the end of the input; and one diagnostic for each quote that is not closed,
character that begins nothing and numeral out of range. -/
theorem ofText_eq_iff_reading (text : String) :
    ∃ pieces, (∀ other, Segmented 1 text.toList other ↔ other = pieces) ∧
      (∀ p ∈ pieces, p.chars ≠ []) ∧ pieces.flatMap chars = text.toList ∧
      ∀ scan, ofText text = scan ↔
        ∃ tokens, Reading pieces tokens scan.faults ∧
          scan.tokens = tokens ++ [.eof (1 + text.toList.count '\n')] := by
  have segmented := segmented_segmentsAfter 1 text.toList
  refine ⟨segments text.toList, fun other => segmented_iff, ?_, chars_segments text.toList, ?_⟩
  · intro p member
    obtain ⟨rest, cut⟩ := segmented.forall_cut p member
    exact cut.ne_nil
  · intro scan
    constructor
    · rintro rfl
      exact ⟨_, segmented.reading, rfl⟩
    · rintro ⟨tokens, reading, ends⟩
      obtain ⟨tokens_eq, faults_eq⟩ := reading.eq_filterMap
      obtain ⟨scanTokens, faults⟩ := scan
      subst ends tokens_eq faults_eq
      rfl

end Scan

end Lox
