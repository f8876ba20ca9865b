/-
# Lox.Proofs.Rescanning -- tokens written out and scanned again

A token does not hang on the text it was scanned from: before a blank or a newline it is cut
whole from any other text as well.  So the tokens of a text can be written out with whatever
separates them, and scanning gives them back.

* `Piece.Filling`, `Piece.Separator` -- what may stand between two tokens.
* `Piece.Cut.before_space`, `Scan.Recurs` -- a token is cut whole where it is written anew.
* `Scan.reads_filling` -- whatever stands between is skipped, and its lines are counted.
* `Scan.ofText_writeOut` -- a text written out from the tokens of another.
-/
import Lox.Proofs.Segmentation

namespace Lox

set_option autoImplicit false

namespace Piece

/-! ## What stands between tokens -/

/-- Blanks, newlines, closed block comments and line comments with their newline, in any
order. -/
inductive Filling : List Char → Prop
  | nil : Filling []
  | space {c : Char} {others : List Char} (space : isSpace c = true) (beyond : Filling others) :
      Filling (c :: others)
  | blockComment {body others : List Char} (closed : CommentBody body)
      (beyond : Filling others) : Filling ('/' :: '*' :: (body ++ others))
  | lineComment {inside others : List Char} (free : '\n' ∉ inside) (beyond : Filling others) :
      Filling ('/' :: '/' :: (inside ++ '\n' :: others))

/-- What keeps two tokens apart: a blank or a newline comes first, since a comment right behind
a slash would be another one. -/
def Separator (gap : List Char) : Prop :=
  ∃ c others, gap = c :: others ∧ isSpace c = true ∧ Filling others

theorem Separator.filling {gap : List Char} (apart : Separator gap) : Filling gap := by
  obtain ⟨c, others, rfl, space, beyond⟩ := apart
  exact .space space beyond

/-- The text ends, or goes on with a blank or a newline. -/
def Apart (rest : List Char) : Prop :=
  ∀ c ∈ rest.head?, isSpace c = true

theorem Separator.apart {gap : List Char} (apart : Separator gap) (rest : List Char) :
    Apart (gap ++ rest) := by
  obtain ⟨c, others, rfl, space, -⟩ := apart
  intro d next
  cases next
  exact space

/-! ## Tokens in another text -/

/-- What holds no space stands before the first one. -/
theorem prefix_of_prefix_append {front text rest : List Char}
    (free : ∀ c, isSpace c = true → c ∉ front) (apart : Apart rest)
    (starts : front <+: text ++ rest) : front <+: text := by
  cases rest with
  | nil => simpa using starts
  | cons c rest => exact prefix_of_prefix_append_cons (free c (apart c rfl)) starts

/-- A piece that makes a token is the first one again where another text goes on behind it with
a space. -/
theorem Cut.before_space {shape : Shape} {chars rest rest' : List Char}
    (cut : Cut shape chars rest) {line : Nat} {t : Token}
    (made : (⟨shape, chars, line⟩ : Piece).token? = some t) (apart : Apart rest') :
    Cut shape chars rest' := by
  have within {front : List Char} (free : ∀ c, isSpace c = true → c ∉ front)
      (starts : front <+: chars ++ rest') : front <+: chars ++ rest :=
    (prefix_of_prefix_append free apart starts).trans (List.prefix_append chars rest)
  have solid {d : Char} (plain : d = '/' ∨ d = '*') :
      ∀ c, isSpace c = true → c ∉ ['/', d] := by
    intro c space
    rcases eq_of_isSpace space with rfl | rfl | rfl | rfl
    all_goals rcases plain with rfl | rfl <;> decide
  cases cut with
  | quoted free => exact .quoted free
  | lexeme line block longest =>
      refine .lexeme (fun starts => line (within (solid (.inl rfl)) starts))
        (fun starts => block (within (solid (.inr rfl)) starts)) ⟨longest.lexeme, ?_⟩
      intro shape' chars' lexeme starts
      exact longest.longest lexeme (within (fun c space => lexeme.space_notMem space) starts)
  | unclosed | stray | closedComment | openComment | lineComment | newline | blank => cases made

end Piece

namespace Scan

open Piece

/-- The first piece of a text, if it is no fault. -/
theorem reads_of_cut {shape : Shape} {chars rest : List Char} (cut : Cut shape chars rest)
    (line : Nat)
    (flawless : (⟨shape, chars, line + chars.count '\n'⟩ : Piece).diagnostic? = none) :
    Reads line chars (⟨shape, chars, line + chars.count '\n'⟩ : Piece).token?.toList rest := by
  unfold Reads ofChars
  rw [segmentsAfter_of_cut cut, List.filterMap_cons_none flawless]
  cases made : (⟨shape, chars, line + chars.count '\n'⟩ : Piece).token? with
  | none => rw [List.filterMap_cons_none made]; rfl
  | some t => rw [List.filterMap_cons_some made]; rfl

/-- The token is scanned from any text that holds its lexeme where the text ends or goes on
with a space. -/
def Recurs (t : Token) : Prop :=
  ∀ (line : Nat) (rest : List Char), Apart rest →
    Reads line t.lexeme.toList [{ t with line := line + t.lexeme.toList.count '\n' }] rest

/-- Whatever was scanned once is scanned again. -/
theorem recurs_of_mem {line : Nat} {text : List Char} {t : Token}
    (member : t ∈ (ofChars line text).tokens) : Recurs t := by
  obtain ⟨p, inside, made⟩ := List.mem_filterMap.1 member
  obtain ⟨rest, cut⟩ := (segmented_segmentsAfter line text).forall_cut p inside
  obtain ⟨kind, means, rfl⟩ := exists_meaning_of_token? made
  intro line' rest' apart
  let q : Piece := { p with line := line' + p.chars.count '\n' }
  have means' : q.meaning = .token kind := means
  have flawless : q.diagnostic? = none := by rw [diagnostic?, means']
  have again : q.token? = some ⟨kind, String.ofList p.chars, q.line⟩ := by rw [token?, means']
  have reads := reads_of_cut (cut.before_space made apart) line' flawless
  rw [show (⟨p.shape, p.chars, _⟩ : Piece) = q from rfl, again] at reads
  simpa using reads

/-! ## A whole text -/

/-- Whatever stands between tokens is skipped. -/
theorem reads_filling {gap : List Char} (filling : Filling gap) (line : Nat)
    (rest : List Char) : Reads line gap [] rest := by
  induction filling generalizing line with
  | nil => rfl
  | @space c others space beyond ih =>
      -- One space alone: blanks behind it belong to the same piece, but change nothing.
      have first : Reads line [c] [] (others ++ rest) := by
        rcases Bool.or_eq_true_iff.1 space with blank | newline
        · exact reads_blank blank line _
        · rw [beq_iff_eq.1 newline]
          exact reads_of_cut .newline line rfl
      exact first.append (ih _)
  | @blockComment body others closed beyond ih =>
      have first : Reads line ('/' :: '*' :: body) [] (others ++ rest) :=
        reads_of_cut (.closedComment closed) line rfl
      exact first.append (ih _)
  | @lineComment inside others free beyond ih =>
      have first : Reads line ('/' :: '/' :: inside) [] ('\n' :: others ++ rest) :=
        reads_of_cut (.lineComment free (by simp)) line rfl
      have newline (line : Nat) : Reads line ['\n'] [] (others ++ rest) :=
        reads_of_cut .newline line rfl
      exact first.append ((newline _).append (ih _))

/-- A token and what is written behind it. -/
structure Spaced where
  token : Token
  gap : List Char

/-- A token written out with its gap. -/
def Spaced.chars (s : Spaced) : List Char :=
  s.token.lexeme.toList ++ s.gap

/-- Tokens written out, one behind the other. -/
def writeOut (items : List Spaced) : List Char :=
  items.flatMap Spaced.chars

/-- The tokens that a text written out from `line` on comes to: those it was written from, each
on the line where its lexeme ends. -/
def placed (line : Nat) (items : List Spaced) : List Token :=
  items.mapIdx fun k s =>
    { s.token with
      line := line + (writeOut (items.take k) ++ s.token.lexeme.toList).count '\n' }

theorem placed_cons (line : Nat) (s : Spaced) (items : List Spaced) :
    placed line (s :: items) =
      { s.token with line := line + s.token.lexeme.toList.count '\n' } ::
        placed (line + s.chars.count '\n') items := by
  simp [placed, writeOut, Nat.add_assoc]

/-- A separator stands behind every token but the last, and behind that one or nothing. -/
structure Spacing (items : List Spaced) : Prop where
  between : ∀ s ∈ items.dropLast, Separator s.gap
  behind : ∀ s ∈ items.getLast?, s.gap = [] ∨ Separator s.gap

theorem Spacing.of_cons {s : Spaced} {items : List Spaced} (spacing : Spacing (s :: items)) :
    Spacing items ∧ (s.gap = [] ∧ items = [] ∨ Separator s.gap) := by
  obtain ⟨between, behind⟩ := spacing
  cases items with
  | nil =>
      refine ⟨⟨by simp, by simp⟩, ?_⟩
      simpa using behind s rfl
  | cons s' items =>
      rw [List.dropLast_cons_of_ne_nil (List.cons_ne_nil _ _), List.forall_mem_cons] at between
      exact ⟨⟨between.2, behind⟩, .inr between.1⟩

theorem reads_writeOut {items : List Spaced} (recurs : ∀ s ∈ items, Recurs s.token)
    (spacing : Spacing items) (line : Nat) :
    Reads line (writeOut items) (placed line items) [] := by
  induction items generalizing line with
  | nil => rfl
  | cons s items ih =>
      rw [List.forall_mem_cons] at recurs
      obtain ⟨others, gap⟩ := spacing.of_cons
      -- Only the last gap can be empty, and then the text ends behind the token.
      have filling : Filling s.gap := by
        rcases gap with ⟨none, -⟩ | apart
        · exact none ▸ .nil
        · exact apart.filling
      have apart : Apart (s.gap ++ (writeOut items ++ [])) := by
        rcases gap with ⟨none, rfl⟩ | apart
        · simp [none, Apart, writeOut]
        · exact apart.apart _
      have front : Reads line s.chars
          [{ s.token with line := line + s.token.lexeme.toList.count '\n' }]
          (writeOut items ++ []) :=
        (recurs.1 _ _ apart).append (reads_filling filling _ _)
      rw [placed_cons]
      exact front.append (ih recurs.2 others _)

/-- **Tokens survive being written out and scanned again.**  The tokens of a text, each written
with a separator of any kind behind it (the last also without one), scan to themselves without
a fault: every token has its kind, and so its literal, and its lexeme again, and stands on the
line where its lexeme ends in the new text. -/
theorem ofText_writeOut {source : String} {items : List Spaced}
    (written : items.map Spaced.token = (ofText source).tokens.filter fun t => !t.isEof)
    (spacing : Spacing items) :
    ofText (String.ofList (writeOut items)) =
      { tokens := placed 1 items ++ [.eof (1 + (writeOut items).count '\n')]
        faults := [] } := by
  have recurs : ∀ s ∈ items, Recurs s.token := by
    intro s member
    have scanned := List.mem_map_of_mem (f := Spaced.token) member
    rw [written, List.mem_filter] at scanned
    obtain ⟨scanned, inner⟩ := scanned
    rcases List.mem_append.1 scanned with scanned | last
    · exact recurs_of_mem scanned
    · rw [List.mem_singleton.1 last] at inner
      cases inner
  have reads := reads_writeOut recurs spacing 1
  rw [Reads, ofChars_nil, List.append_nil] at reads
  have scan : ofText (String.ofList (writeOut items)) =
      { ofChars 1 (writeOut items) with
        tokens := (ofChars 1 (writeOut items)).tokens ++
          [.eof (1 + (writeOut items).count '\n')] } := by
    simp [ofText, ofChars, segments]
  rw [scan, reads]
  simp [behind]

/-- A string over two lines that looks like a comment, a numeral before a point, a slash before
an equals sign, and a word that begins as a keyword does, moved apart. -/
def spreadOut : List Spaced :=
  [⟨⟨.string (some (.string "\n/*")), "\"\n/*\"", 2⟩, " /* /* */ \n*/".toList⟩,
    ⟨⟨.number (some (.number (Float.ofBits 0))), "0", 2⟩, "\t".toList⟩,
    ⟨.fixed (.symbol .dot) 2, "\n//\n".toList⟩, ⟨.fixed (.symbol .slash) 2, "\r".toList⟩,
    ⟨.fixed (.symbol .equalEqual) 2, " ".toList⟩, ⟨⟨.identifier, "classy", 2⟩, []⟩]

theorem spacing_spreadOut : Spacing spreadOut := by
  have inner : CommentBody [' ', '*', '/'] := .char (by decide) (by decide) .closer
  have beyond : CommentBody [' ', '\n', '*', '/'] :=
    .char (by decide) (by decide) (.char (by decide) (by decide) .closer)
  have body : CommentBody (' ' :: '/' :: '*' :: ([' ', '*', '/'] ++ [' ', '\n', '*', '/'])) :=
    .char (by decide) (by decide) (.nested inner beyond)
  have comment : Separator " /* /* */ \n*/".toList :=
    ⟨' ', _, rfl, rfl, @Filling.blockComment _ [] body .nil⟩
  have lines : Separator "\n//\n".toList :=
    ⟨'\n', _, rfl, rfl, @Filling.lineComment [] [] (by decide) .nil⟩
  constructor
  · show ∀ s ∈ ([_, _, _, _, _] : List Spaced), Separator s.gap
    simp only [List.forall_mem_cons]
    exact ⟨comment, ⟨'\t', _, rfl, rfl, .nil⟩, lines, ⟨'\r', _, rfl, rfl, .nil⟩,
      ⟨' ', _, rfl, rfl, .nil⟩, List.forall_mem_nil _⟩
  · intro s last
    cases last
    exact .inl rfl

/-- Only the lines change. -/
theorem ofText_writeOut_spreadOut :
    spreadOut.map Spaced.token =
        (ofText "\"\n/*\"0./==classy").tokens.filter (fun t => !t.isEof) ∧
      Spacing spreadOut ∧
      writeOut spreadOut = "\"\n/*\" /* /* */ \n*/0\t.\n//\n/\r== classy".toList ∧
      ofText (String.ofList (writeOut spreadOut)) =
        { tokens :=
            [⟨.string (some (.string "\n/*")), "\"\n/*\"", 2⟩,
              ⟨.number (some (.number (Float.ofBits 0))), "0", 3⟩,
              .fixed (.symbol .dot) 3, .fixed (.symbol .slash) 5, .fixed (.symbol .equalEqual) 5,
              ⟨.identifier, "classy", 5⟩, .eof 5]
          faults := [] } := by
  have written : spreadOut.map Spaced.token =
      (ofText "\"\n/*\"0./==classy").tokens.filter fun t => !t.isEof := by
    cbv
  have scan := ofText_writeOut written spacing_spreadOut
  refine ⟨written, spacing_spreadOut, by cbv, scan.trans ?_⟩
  cbv

end Scan

end Lox
