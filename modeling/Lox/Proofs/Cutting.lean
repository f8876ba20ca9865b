/-
# Lox.Proofs.Cutting -- what the first piece of a text is

The pieces of a text are laid down by what they are, not by how they are found: a string goes
through the next quote, a block comment through the closer that matches its opener, and a
symbol, a word or a numeral is the longest that stands there.  `Piece.first`, which looks at
one character after the other, finds exactly these.

* `CommentBody` -- the inside of a block comment, nested comments and closer included;
  `commentLength_append` and `commentLength_of_open` say how far a comment goes.
* `Lexeme`, `IsLongest` -- symbols, words and numerals, and the longest of them at a place;
  characters are a lexeme of one shape only (`Lexeme.shape_eq`), and none of them is a space
  (`Lexeme.space_notMem`).
* `Cut` -- the first piece; `cut_iff` says that `first` finds it and nothing else, and
  `cut_induction` goes along a text piece by piece.
-/
import Lox.Proofs.Scanning

namespace Lox.Piece

set_option autoImplicit false

/-! ## Comments -/

/-- What stands behind the opener of a block comment, its closer included. -/
inductive CommentBody : List Char → Prop
  | closer : CommentBody ['*', '/']
  | nested {inner others : List Char} (inside : CommentBody inner) (beyond : CommentBody others) :
      CommentBody ('/' :: '*' :: (inner ++ others))
  | char {c : Char} {others : List Char} (opens : ¬ ['/', '*'] <+: c :: others)
      (closes : ¬ ['*', '/'] <+: c :: others) (beyond : CommentBody others) :
      CommentBody (c :: others)

theorem CommentBody.ne_nil {body : List Char} (closed : CommentBody body) : body ≠ [] := by
  cases closed <;> exact List.cons_ne_nil _ _

/-- Whether a pair stands at the front of a text hangs on its first two characters. -/
theorem pair_prefix_append_iff {a b c : Char} {others : List Char} (more : others ≠ [])
    (rest : List Char) : [a, b] <+: c :: (others ++ rest) ↔ [a, b] <+: c :: others := by
  obtain ⟨d, others, rfl⟩ := List.exists_cons_of_ne_nil more
  simp

theorem commentLength_cons {c : Char} {text : List Char} (opens : ¬ ['/', '*'] <+: c :: text)
    (closes : ¬ ['*', '/'] <+: c :: text) (inner count : Nat) :
    commentLength inner count (c :: text) = commentLength inner (count + 1) text := by
  rw [commentLength.eq_def]
  split
  case h_1 same => cases same
  case h_2 same =>
    cases same
    simp at opens
  case h_3 same =>
    cases same
    simp at closes
  case h_4 same =>
    cases same
    rfl

/-- A comment's body brings the count to its closer, which closes the innermost comment. -/
theorem CommentBody.commentLength_append {body : List Char} (closed : CommentBody body)
    (inner count : Nat) (rest : List Char) :
    commentLength inner count (body ++ rest) =
      match inner with
      | 0 => count + body.length
      | inner + 1 => commentLength inner (count + body.length) rest := by
  induction closed generalizing inner count rest with
  | closer => cases inner <;> rfl
  | @nested inside others _ _ ihInside ihBeyond =>
      have opened : commentLength inner count ('/' :: '*' :: (inside ++ others) ++ rest) =
          commentLength (inner + 1) (count + 2) (inside ++ (others ++ rest)) := by
        simp [commentLength]
      rw [opened, ihInside]
      dsimp only
      rw [ihBeyond]
      cases inner <;> simp [Nat.add_assoc, Nat.add_comm 2]
  | @char c others opens closes beyond ih =>
      rw [← pair_prefix_append_iff beyond.ne_nil rest] at opens closes
      rw [List.cons_append, commentLength_cons opens closes, ih]
      cases inner <;> simp [Nat.add_assoc, Nat.add_comm 1]

/-- Without a closer of its own a comment takes the whole text, however many are around it. -/
theorem commentLength_of_open {text : List Char}
    (stays : ∀ body, body <+: text → ¬ CommentBody body) (inner count : Nat) :
    commentLength inner count text = count + text.length := by
  induction n : text.length using Nat.strongRecOn generalizing text inner count with
  | ind n ih =>
      subst n
      by_cases opens : ['/', '*'] <+: text
      · obtain ⟨text, rfl⟩ := opens
        have opened : commentLength inner count (['/', '*'] ++ text) =
            commentLength (inner + 1) (count + 2) text := by simp [commentLength]
        rw [opened]
        by_cases closed : ∃ body, body <+: text ∧ CommentBody body
        · obtain ⟨body, ⟨beyond, rfl⟩, closed⟩ := closed
          have beyondStays : ∀ body', body' <+: beyond → ¬ CommentBody body' := by
            rintro body' ⟨rest, rfl⟩ closed'
            exact stays _ ⟨rest, by simp⟩ (.nested closed closed')
          rw [closed.commentLength_append]
          dsimp only
          rw [ih beyond.length (by simp; omega) beyondStays _ _ rfl]
          simp
          omega
        · have textStays : ∀ body, body <+: text → ¬ CommentBody body :=
            fun body front closed' => closed ⟨body, front, closed'⟩
          rw [ih text.length (by simp) textStays _ _ rfl]
          simp
          omega
      · by_cases closes : ['*', '/'] <+: text
        · exact absurd .closer (stays _ closes)
        · cases text with
          | nil => rfl
          | cons c text =>
              have textStays : ∀ body, body <+: text → ¬ CommentBody body := by
                rintro body ⟨rest, rfl⟩ closed
                rw [pair_prefix_append_iff closed.ne_nil] at opens closes
                exact stays _ ⟨rest, rfl⟩ (.char opens closes closed)
              rw [commentLength_cons opens closes, ih text.length (by simp) textStays _ _ rfl]
              simp
              omega

/-! ## Lexemes -/

/-- The symbols, the words and the numerals, with their shapes. -/
inductive Lexeme : Shape → List Char → Prop
  | symbol {s : Symbol} {chars : List Char} (spelled : chars = s.chars) : Lexeme (.symbol s) chars
  | word {c : Char} {tail : List Char} (start : isWordStart c = true)
      (inside : ∀ d ∈ tail, isWordChar d = true) : Lexeme .word (c :: tail)
  | number {chars : List Char} (numeral : Decimal.IsNumeral chars) : Lexeme .number chars

theorem isWordStart_of_isDigit {c : Char} (digit : c.isDigit = true) : isWordStart c = false := by
  obtain ⟨low, high⟩ := Char.isDigit_iff_toNat.1 digit
  have plain : ∀ n, n < 58 → 48 ≤ n → isWordStart (Char.ofNat n) = false := by
    decide
  simpa [Char.ofNat_toNat] using plain c.toNat (Nat.lt_succ_of_le high) low

theorem isDigit_of_isWordStart {c : Char} (start : isWordStart c = true) : c.isDigit = false := by
  by_contra digit
  rw [isWordStart_of_isDigit (by simpa using digit)] at start
  cases start

/-- Whether a lexeme of the shape begins as a word and whether it begins with a digit. -/
def Shape.lead : Shape → Bool × Bool
  | .word => (true, false)
  | .number => (false, true)
  | _ => (false, false)

theorem Lexeme.exists_cons {shape : Shape} {chars : List Char} (lexeme : Lexeme shape chars) :
    ∃ c tail, chars = c :: tail ∧ (isWordStart c, c.isDigit) = Shape.lead shape := by
  cases lexeme with
  | @symbol s chars spelled =>
      subst spelled
      cases s <;> exact ⟨_, _, rfl, rfl⟩
  | word start inside =>
      exact ⟨_, _, rfl, by rw [start, isDigit_of_isWordStart start]; rfl⟩
  | number numeral =>
      obtain ⟨whole, fraction, rfl, some, digits⟩ := numeral
      obtain ⟨c, whole, rfl⟩ := List.exists_cons_of_ne_nil some
      have digit := digits c (by simp)
      refine ⟨c, Decimal.pointed whole fraction, ?_, ?_⟩
      · cases fraction <;> rfl
      · rw [digit, isWordStart_of_isDigit digit]
        rfl

theorem Lexeme.lead {shape : Shape} {c : Char} {tail : List Char}
    (lexeme : Lexeme shape (c :: tail)) : (isWordStart c, c.isDigit) = Shape.lead shape := by
  obtain ⟨d, tail', same, lead⟩ := lexeme.exists_cons
  cases same
  exact lead

/-- A symbol that no equals sign follows is the longest at the front. -/
theorem longest?_chars_append {rest : List Char} (next : rest.head? ≠ some '=') (s : Symbol) :
    Symbol.longest? (s.chars ++ rest) = some s := by
  cases s with
  | bang | equal | greater | less =>
      cases rest with
      | nil => rfl
      | cons d rest => simp_all [Symbol.chars, Symbol.longest?]
  | _ => rfl

theorem Symbol.chars_ne_nil (s : Symbol) : s.chars ≠ [] := by
  cases s <;> exact List.cons_ne_nil _ _

theorem Symbol.chars_inj {s s' : Symbol} (same : s.chars = s'.chars) : s = s' := by
  have whole (s : Symbol) : Symbol.longest? s.chars = some s := by
    simpa using @longest?_chars_append [] (by simp) s
  have found := whole s
  rw [same, whole] at found
  exact (Option.some.inj found).symm

/-- The same characters are lexemes of one shape only. -/
theorem Lexeme.shape_eq {shape shape' : Shape} {chars : List Char} (lexeme : Lexeme shape chars)
    (lexeme' : Lexeme shape' chars) : shape = shape' := by
  obtain ⟨c, tail, rfl, lead⟩ := lexeme.exists_cons
  have same := lead.symm.trans lexeme'.lead
  cases lexeme with
  | @symbol s _ spelled =>
      cases lexeme' with
      | @symbol s' _ spelled' => rw [Symbol.chars_inj (spelled.symm.trans spelled')]
      | word | number => cases same
  | word =>
      cases lexeme' with
      | word => rfl
      | symbol | number => cases same
  | number =>
      cases lexeme' with
      | number => rfl
      | symbol | word => cases same

/-- The characters that a lexeme never holds: the blanks and the newline. -/
def isSpace (c : Char) : Bool :=
  isBlank c || c == '\n'

theorem eq_of_isSpace {c : Char} (space : isSpace c = true) :
    c = ' ' ∨ c = '\t' ∨ c = '\r' ∨ c = '\n' := by
  simpa [isSpace, isBlank, or_assoc] using space

theorem Lexeme.space_notMem {shape : Shape} {chars : List Char} (lexeme : Lexeme shape chars)
    {c : Char} (space : isSpace c = true) : c ∉ chars := by
  have plain : isWordStart c = false ∧ isWordChar c = false ∧ c.isDigit = false ∧ c ≠ '.' ∧
      ∀ s : Symbol, c ∉ s.chars := by
    rcases eq_of_isSpace space with rfl | rfl | rfl | rfl
    all_goals exact ⟨rfl, rfl, rfl, by decide, fun s => by cases s <;> decide⟩
  obtain ⟨start, word, digit, point, symbol⟩ := plain
  cases lexeme with
  | @symbol s _ spelled => exact spelled ▸ symbol s
  | word start' inside =>
      rintro (_ | ⟨_, member⟩)
      · cases start.symm.trans start'
      · cases word.symm.trans (inside _ member)
  | number numeral =>
      obtain ⟨whole, fraction, rfl, -, digits⟩ := numeral
      intro member
      have inside : c ∈ whole ++ fraction := by
        cases fraction <;> simpa [Decimal.pointed, point] using member
      cases digit.symm.trans (digits _ inside)

/-- What stands at the front of a text and does not hold a character stands before that. -/
theorem prefix_of_prefix_append_cons {c : Char} {front text more : List Char} (free : c ∉ front)
    (starts : front <+: text ++ c :: more) : front <+: text := by
  rcases List.prefix_or_prefix_of_prefix starts (List.prefix_append text _) with within | beyond
  · exact within
  · obtain ⟨behind, rfl⟩ := beyond
    rw [List.prefix_append_right_inj] at starts
    cases behind with
    | nil => simp
    | cons d behind =>
        obtain ⟨rfl, -⟩ := List.cons_prefix_cons.1 starts
        simp at free

/-- In a text that begins with `chars` and goes on with `rest`, no longer lexeme stands at the
front than `chars`. -/
structure IsLongest (shape : Shape) (chars rest : List Char) : Prop where
  lexeme : Lexeme shape chars
  longest : ∀ {shape' chars'}, Lexeme shape' chars' → chars' <+: chars ++ rest →
    chars'.length ≤ chars.length

theorem IsLongest.unique {shape shape' : Shape} {chars chars' rest rest' : List Char}
    (front : IsLongest shape chars rest) (front' : IsLongest shape' chars' rest')
    (same : chars ++ rest = chars' ++ rest') : shape = shape' ∧ chars = chars' := by
  have starts : chars <+: chars ++ rest := List.prefix_append chars rest
  have starts' : chars' <+: chars ++ rest := same ▸ List.prefix_append chars' rest'
  have length := Nat.le_antisymm (front'.longest front.lexeme (same ▸ starts))
    (front.longest front'.lexeme starts')
  obtain rfl : chars = chars' :=
    (List.prefix_of_prefix_length_le starts starts' length.le).eq_of_length length
  exact ⟨front.lexeme.shape_eq front'.lexeme, rfl⟩

/-! ### Words -/

theorem take_spanLength (p : Char → Bool) (text : List Char) :
    text.take (spanLength p text) = text.takeWhile p :=
  (List.prefix_iff_eq_take.1 (List.takeWhile_prefix p)).symm

theorem drop_spanLength (p : Char → Bool) (text : List Char) :
    text.drop (spanLength p text) = text.dropWhile p := by
  have split := List.takeWhile_append_dropWhile (p := p) (l := text)
  rw [← take_spanLength p text] at split
  exact List.append_cancel_left ((List.take_append_drop _ text).trans split.symm)

theorem length_le_spanLength {p : Char → Bool} {front text : List Char} (starts : front <+: text)
    (inside : ∀ c ∈ front, p c = true) : front.length ≤ spanLength p text := by
  obtain ⟨rest, rfl⟩ := starts
  rw [spanLength, List.takeWhile_append_of_pos inside]
  simp

theorem isLongest_word {c : Char} (start : isWordStart c = true) (text : List Char) :
    IsLongest .word (c :: text.takeWhile isWordChar) (text.dropWhile isWordChar) := by
  constructor
  · exact .word start fun d member => List.mem_takeWhile_imp member
  · intro shape' chars' lexeme' starts
    rw [List.cons_append, List.takeWhile_append_dropWhile] at starts
    obtain ⟨d, tail, rfl, lead⟩ := lexeme'.exists_cons
    obtain ⟨rfl, within⟩ := List.cons_prefix_cons.1 starts
    rw [start] at lead
    cases lexeme' with
    | word start' inside => exact Nat.succ_le_succ (length_le_spanLength within inside)
    | symbol | number => cases lead

/-! ### Numerals -/

/-- The parts of a numeral behind its first digit. -/
theorem exists_pointed_of_isNumeral {c : Char} {tail : List Char}
    (numeral : Decimal.IsNumeral (c :: tail)) :
    c.isDigit = true ∧ ∃ whole fraction, tail = Decimal.pointed whole fraction ∧
      ∀ d ∈ whole ++ fraction, d.isDigit = true := by
  obtain ⟨whole, fraction, same, some, digits⟩ := numeral
  obtain ⟨d, whole, rfl⟩ := List.exists_cons_of_ne_nil some
  have split : c = d ∧ tail = Decimal.pointed whole fraction := by
    cases fraction <;> exact List.cons_eq_cons.1 same
  obtain ⟨rfl, rfl⟩ := split
  rw [List.cons_append, List.forall_mem_cons] at digits
  exact ⟨digits.1, whole, fraction, rfl, digits.2⟩

theorem isNumeral_pointed {c : Char} {whole fraction : List Char} (digit : c.isDigit = true)
    (digits : ∀ d ∈ whole ++ fraction, d.isDigit = true) :
    Decimal.IsNumeral (c :: Decimal.pointed whole fraction) := by
  refine ⟨c :: whole, fraction, ?_, List.cons_ne_nil c whole, ?_⟩
  · cases fraction <;> rfl
  · rw [List.cons_append, List.forall_mem_cons]
    exact ⟨digit, digits⟩

theorem numberLength_le_length (text : List Char) : numberLength text ≤ text.length := by
  have span (text : List Char) : spanLength Char.isDigit text ≤ text.length :=
    (List.takeWhile_prefix _).length_le
  have whole := span text
  simp only [numberLength]
  split
  · rename_i fraction point
    have lengths := congrArg List.length point
    have digits := span fraction
    rw [List.length_drop, List.length_cons] at lengths
    split <;> omega
  · exact whole

/-- What continues a number is a numeral with it. -/
theorem isNumeral_take_numberLength {c : Char} (digit : c.isDigit = true) (text : List Char) :
    Decimal.IsNumeral (c :: text.take (numberLength text)) := by
  have inside (text : List Char) : ∀ d ∈ text.takeWhile Char.isDigit, d.isDigit = true :=
    fun d member => List.mem_takeWhile_imp member
  have whole : Decimal.IsNumeral (c :: text.takeWhile Char.isDigit) :=
    @isNumeral_pointed c _ [] digit (by simpa using inside text)
  simp only [numberLength]
  split
  case h_1 fraction point =>
    split
    · rwa [take_spanLength]
    · rename_i digits length
      replace length : spanLength Char.isDigit fraction = digits + 1 := length
      have some : fraction.takeWhile Char.isDigit ≠ [] := by
        rw [← List.length_pos_iff]
        show 0 < spanLength Char.isDigit fraction
        omega
      have taken : text.take (spanLength Char.isDigit text + digits + 2) =
          Decimal.pointed (text.takeWhile Char.isDigit) (fraction.takeWhile Char.isDigit) := by
        obtain ⟨d, more, cons⟩ := List.exists_cons_of_ne_nil some
        rw [Nat.add_assoc, List.take_add, take_spanLength, point, List.take_succ_cons, ← length,
          take_spanLength, cons]
        rfl
      rw [taken]
      refine isNumeral_pointed digit fun d member => ?_
      exact (List.mem_append.1 member).elim (inside text d) (inside fraction d)
  case h_2 => rwa [take_spanLength]

/-- Nothing longer at the front of a text continues a number. -/
theorem length_le_numberLength {c : Char} {tail text : List Char} (starts : tail <+: text)
    (numeral : Decimal.IsNumeral (c :: tail)) : tail.length ≤ numberLength text := by
  obtain ⟨-, whole, fraction, rfl, digits⟩ := exists_pointed_of_isNumeral numeral
  have inside : ∀ d ∈ whole, d.isDigit = true := fun d member => digits d (by simp [member])
  cases fraction with
  | nil =>
      refine Nat.le_trans (length_le_spanLength starts inside) ?_
      simp only [numberLength]
      split
      · split <;> omega
      · exact Nat.le_refl _
  | cons d fraction =>
      obtain ⟨rest, rfl⟩ := starts
      have text_eq : Decimal.pointed whole (d :: fraction) ++ rest =
          whole ++ '.' :: (d :: fraction ++ rest) := by
        simp [Decimal.pointed]
      have span : spanLength Char.isDigit (whole ++ '.' :: (d :: fraction ++ rest)) =
          whole.length :=
        spanLength_append inside (by simp)
      have more := length_le_spanLength (List.prefix_append (d :: fraction) rest)
        fun e member => digits e (List.mem_append_right whole member)
      simp only [numberLength, text_eq, span, List.drop_left]
      split
      · rename_i none
        rw [none] at more
        cases more
      · rename_i length
        simp only [length, List.length_cons] at more
        simp [Decimal.pointed]
        omega

theorem isLongest_number {c : Char} (digit : c.isDigit = true) (text : List Char) :
    IsLongest .number (c :: text.take (numberLength text)) (text.drop (numberLength text)) := by
  constructor
  · exact .number (isNumeral_take_numberLength digit text)
  · intro shape' chars' lexeme' starts
    rw [List.cons_append, List.take_append_drop] at starts
    have lexeme := Lexeme.number (isNumeral_take_numberLength digit text)
    obtain ⟨d, tail, rfl, lead⟩ := lexeme'.exists_cons
    obtain ⟨rfl, within⟩ := List.cons_prefix_cons.1 starts
    rw [lexeme.lead] at lead
    cases lexeme' with
    | number numeral =>
        have short := length_le_numberLength within numeral
        have := within.length_le
        simp only [List.length_cons, List.length_take]
        omega
    | symbol | word => cases lead

/-! ### Symbols -/

/-- Any symbol at the front of a text is found, or a longer one. -/
theorem exists_longest?_of_prefix {s : Symbol} {text : List Char} (starts : s.chars <+: text) :
    ∃ found, Symbol.longest? text = some found ∧ s.chars.length ≤ found.chars.length := by
  obtain ⟨rest, rfl⟩ := starts
  by_cases next : rest.head? = some '='
  · obtain ⟨rest, rfl⟩ := List.head?_eq_some_iff.1 next
    cases s <;> exact ⟨_, rfl, by decide⟩
  · exact ⟨s, longest?_chars_append next s, Nat.le_refl _⟩

theorem exists_append_of_longest? {text : List Char} {s : Symbol}
    (found : Symbol.longest? text = some s) : ∃ rest, text = s.chars ++ rest := by
  unfold Symbol.longest? at found
  split at found
  all_goals cases found
  all_goals exact ⟨_, rfl⟩

theorem isLongest_symbol {s : Symbol} {rest : List Char}
    (found : Symbol.longest? (s.chars ++ rest) = some s) : IsLongest (.symbol s) s.chars rest := by
  constructor
  · exact .symbol rfl
  · intro shape' chars' lexeme' starts
    obtain ⟨c, tail, cons, lead⟩ := (Lexeme.symbol (s := s) rfl).exists_cons
    obtain ⟨d, tail', rfl, lead'⟩ := lexeme'.exists_cons
    have same : d = c := by
      rw [cons] at starts
      exact (List.cons_prefix_cons.1 starts).1
    rw [same, lead] at lead'
    cases lexeme' with
    | symbol spelled =>
        rw [spelled] at starts ⊢
        obtain ⟨longer, found', length⟩ := exists_longest?_of_prefix starts
        cases found.symm.trans found'
        exact length
    | word | number => cases lead'

/-! ## The first piece -/

/-- In a text that begins with `chars` and goes on with `rest`, the first piece is `chars`, and
it is of this shape. -/
inductive Cut : Shape → List Char → List Char → Prop
  /-- From a quote through the next quote. -/
  | quoted {inside rest : List Char} (free : '"' ∉ inside) :
      Cut .quoted ('"' :: (inside ++ ['"'])) rest
  /-- From a quote without a next one to the end of the text. -/
  | unclosed {inside : List Char} (free : '"' ∉ inside) : Cut .unclosed ('"' :: inside) []
  /-- Through the closer that matches the opener. -/
  | closedComment {body rest : List Char} (closed : CommentBody body) :
      Cut .blockComment ('/' :: '*' :: body) rest
  /-- Without such a closer, to the end of the text. -/
  | openComment {text : List Char} (stays : ∀ body, body <+: text → ¬ CommentBody body) :
      Cut .blockComment ('/' :: '*' :: text) []
  /-- Up to the next newline, which is left. -/
  | lineComment {inside rest : List Char} (free : '\n' ∉ inside)
      (ends : ∀ c ∈ rest.head?, c = '\n') : Cut .lineComment ('/' :: '/' :: inside) rest
  | newline {rest : List Char} : Cut .newline ['\n'] rest
  /-- As many blanks as there are. -/
  | blank {c : Char} {tail rest : List Char} (inside : ∀ d ∈ c :: tail, isBlank d = true)
      (ends : ∀ d ∈ rest.head?, isBlank d = false) : Cut .blank (c :: tail) rest
  /-- The longest lexeme, where no comment begins. -/
  | lexeme {shape : Shape} {chars rest : List Char} (line : ¬ ['/', '/'] <+: chars ++ rest)
      (block : ¬ ['/', '*'] <+: chars ++ rest) (longest : IsLongest shape chars rest) :
      Cut shape chars rest
  /-- One character, where nothing else begins. -/
  | stray {c : Char} {rest : List Char} (quote : c ≠ '"') (newline : c ≠ '\n')
      (blank : isBlank c = false)
      (none : ∀ {shape chars}, Lexeme shape chars → ¬ chars <+: c :: rest) : Cut .stray [c] rest

theorem Cut.ne_nil {shape : Shape} {chars rest : List Char} (cut : Cut shape chars rest) :
    chars ≠ [] := by
  cases cut with
  | lexeme line block longest =>
      obtain ⟨c, tail, rfl, -⟩ := longest.lexeme.exists_cons
      exact List.cons_ne_nil c tail
  | _ => exact List.cons_ne_nil _ _

/-! ### How it is found -/

section First

variable {c : Char}

theorem first_of_isBlank (blank : isBlank c = true) (text : List Char) :
    first c text = (.blank, spanLength isBlank text) := by
  have cases := blank
  simp only [isBlank, Bool.or_eq_true, beq_iff_eq] at cases
  rcases cases with (rfl | rfl) | rfl <;> rfl

theorem first_of_isWordStart (start : isWordStart c = true) (text : List Char) :
    first c text = (.word, spanLength isWordChar text) := by
  have quote : c ≠ '"' := by rintro rfl; cases start
  have newline : c ≠ '\n' := by rintro rfl; cases start
  have slash : c ≠ '/' := by rintro rfl; cases start
  have blank : isBlank c = false := by
    by_contra blank
    simp only [isBlank, Bool.not_eq_false, Bool.or_eq_true, beq_iff_eq] at blank
    rcases blank with (rfl | rfl) | rfl <;> cases start
  simp [first, quote, newline, blank, slash, start]

/-- A character that begins no string, no blanks, no comment, no word and no number. -/
theorem first_of_lead {text : List Char} (quote : c ≠ '"') (newline : c ≠ '\n')
    (blank : isBlank c = false) (line : ¬ ['/', '/'] <+: c :: text)
    (block : ¬ ['/', '*'] <+: c :: text) (start : isWordStart c = false)
    (digit : c.isDigit = false) :
    first c text =
      match Symbol.longest? (c :: text) with
      | some s => (.symbol s, s.chars.length - 1)
      | none => (.stray, 0) := by
  have notLine : ¬ (c = '/' ∧ text.head? = some '/') := by
    rintro ⟨rfl, next⟩
    obtain ⟨rest, rfl⟩ := List.head?_eq_some_iff.1 next
    exact line ⟨rest, rfl⟩
  have notBlock : ¬ (c = '/' ∧ text.head? = some '*') := by
    rintro ⟨rfl, next⟩
    obtain ⟨rest, rfl⟩ := List.head?_eq_some_iff.1 next
    exact block ⟨rest, rfl⟩
  refine (if_neg quote).trans ?_
  refine (if_neg newline).trans ?_
  refine (if_neg (by simp [blank])).trans ?_
  refine (if_neg notLine).trans ?_
  refine (if_neg notBlock).trans ?_
  refine (if_neg (by simp [start])).trans ?_
  exact if_neg (by simp [digit])

end First

/-- A text goes on from a span with a character outside. -/
theorem outside_of_dropWhile {p : Char → Bool} (text : List Char) :
    ∀ c ∈ (text.dropWhile p).head?, p c = false := by
  intro c next
  have := List.head?_dropWhile_not p text
  rw [Option.mem_def.1 next] at this
  exact this

theorem cut_first_quote (text : List Char) :
    Cut (first '"' text).1 ('"' :: text.take (first '"' text).2)
      (text.drop (first '"' text).2) := by
  have free : '"' ∉ text.takeWhile (· != '"') := by
    intro member
    simpa using List.mem_takeWhile_imp member
  have split := List.takeWhile_append_dropWhile (p := (· != '"')) (l := text)
  have cut : first '"' text =
      if (text.dropWhile (· != '"')).isEmpty then (.unclosed, spanLength (· != '"') text)
      else (.quoted, spanLength (· != '"') text + 1) := by
    rw [← drop_spanLength]
    rfl
  rw [cut]
  cases beyond : text.dropWhile (· != '"') with
  | nil =>
      rw [beyond, List.append_nil] at split
      rw [List.isEmpty_nil, if_pos rfl, take_spanLength, drop_spanLength, beyond]
      exact .unclosed free
  | cons d rest =>
      have ends := outside_of_dropWhile (p := (· != '"')) text d (by rw [beyond]; rfl)
      obtain rfl : d = '"' := by simpa using ends
      have taken : text.take (spanLength (· != '"') text + 1) =
          text.takeWhile (· != '"') ++ ['"'] := by
        rw [List.take_add, take_spanLength, drop_spanLength, beyond]
        rfl
      have dropped : text.drop (spanLength (· != '"') text + 1) = rest := by
        rw [← List.drop_drop, drop_spanLength, beyond]
        rfl
      rw [List.isEmpty_cons, if_neg Bool.false_ne_true, taken, dropped]
      exact .quoted free

theorem cut_first_line (text : List Char) :
    Cut .lineComment ('/' :: ('/' :: text).take (spanLength (· != '\n') ('/' :: text)))
      (('/' :: text).drop (spanLength (· != '\n') ('/' :: text))) := by
  rw [take_spanLength, drop_spanLength]
  have free : '\n' ∉ text.takeWhile (· != '\n') := by
    intro member
    simpa using List.mem_takeWhile_imp member
  refine .lineComment free fun c next => ?_
  simpa using outside_of_dropWhile (p := (· != '\n')) text c next

theorem cut_first_block (text : List Char) :
    Cut .blockComment ('/' :: ('*' :: text).take (commentLength 0 1 text))
      (('*' :: text).drop (commentLength 0 1 text)) := by
  by_cases closed : ∃ body, body <+: text ∧ CommentBody body
  · obtain ⟨body, ⟨rest, rfl⟩, closed⟩ := closed
    have length : commentLength 0 1 (body ++ rest) = body.length + 1 := by
      rw [closed.commentLength_append, Nat.add_comm]
    rw [length, List.take_succ_cons, List.drop_succ_cons, List.take_left, List.drop_left]
    exact .closedComment closed
  · have stays : ∀ body, body <+: text → ¬ CommentBody body :=
      fun body starts closed' => closed ⟨body, starts, closed'⟩
    have length : commentLength 0 1 text = text.length + 1 := by
      rw [commentLength_of_open stays, Nat.add_comm]
    rw [length, List.take_succ_cons, List.drop_succ_cons, List.take_length, List.drop_length]
    exact .openComment stays

/-- What is cut off the front of a text is its first piece. -/
theorem cut_first (c : Char) (text : List Char) :
    Cut (first c text).1 (c :: text.take (first c text).2) (text.drop (first c text).2) := by
  by_cases quote : c = '"'
  · subst quote
    exact cut_first_quote text
  by_cases newline : c = '\n'
  · subst newline
    exact .newline
  by_cases blank : isBlank c = true
  · rw [first_of_isBlank blank, take_spanLength, drop_spanLength]
    refine .blank ?_ (outside_of_dropWhile text)
    rw [List.forall_mem_cons]
    exact ⟨blank, fun d member => List.mem_takeWhile_imp member⟩
  by_cases line : ['/', '/'] <+: c :: text
  · obtain ⟨text, same⟩ := line
    cases same
    exact cut_first_line text
  by_cases block : ['/', '*'] <+: c :: text
  · obtain ⟨text, same⟩ := block
    cases same
    exact cut_first_block text
  by_cases start : isWordStart c = true
  · rw [first_of_isWordStart start]
    refine .lexeme ?_ ?_ ?_
    · rwa [List.cons_append, List.take_append_drop]
    · rwa [List.cons_append, List.take_append_drop]
    · rw [take_spanLength, drop_spanLength]
      exact isLongest_word start text
  by_cases digit : c.isDigit = true
  · rw [Scan.first_of_isDigit digit]
    refine .lexeme ?_ ?_ (isLongest_number digit text)
    · rwa [List.cons_append, List.take_append_drop]
    · rwa [List.cons_append, List.take_append_drop]
  rw [Bool.not_eq_true] at blank start digit
  rw [first_of_lead quote newline blank line block start digit]
  cases found : Symbol.longest? (c :: text) with
  | some s =>
      obtain ⟨rest, same⟩ := exists_append_of_longest? found
      obtain ⟨d, tail, cons⟩ := List.exists_cons_of_ne_nil (Symbol.chars_ne_nil s)
      rw [cons, List.cons_append] at same
      cases same
      rw [← List.cons_append, ← cons] at line block found
      have cut : Cut (.symbol s) (c :: tail) rest := by
        rw [← cons]
        exact .lexeme line block (isLongest_symbol found)
      simpa [cons] using cut
  | none =>
      refine .stray quote newline blank fun {shape chars} lexeme starts => ?_
      obtain ⟨d, tail, rfl, lead⟩ := lexeme.exists_cons
      obtain ⟨rfl, -⟩ := List.cons_prefix_cons.1 starts
      rw [start, digit] at lead
      cases lexeme with
      | symbol spelled =>
          rw [spelled] at starts
          obtain ⟨longer, found', -⟩ := exists_longest?_of_prefix starts
          cases found.symm.trans found'
      | word | number => cases lead

/-- A longest lexeme is the first piece where no comment begins. -/
theorem IsLongest.first_eq {shape : Shape} {c : Char} {tail rest : List Char}
    (line : ¬ ['/', '/'] <+: c :: (tail ++ rest)) (block : ¬ ['/', '*'] <+: c :: (tail ++ rest))
    (front : IsLongest shape (c :: tail) rest) :
    first c (tail ++ rest) = (shape, tail.length) := by
  have lexeme := front.lexeme
  cases lexeme with
  | word start =>
      have other := isLongest_word start (tail ++ rest)
      obtain ⟨-, same⟩ := front.unique other (by simp)
      rw [first_of_isWordStart start, spanLength, ← (List.cons.inj same).2]
  | number numeral =>
      obtain ⟨digit, -⟩ := exists_pointed_of_isNumeral numeral
      have other := isLongest_number digit (tail ++ rest)
      obtain ⟨-, same⟩ := front.unique other (by simp)
      have length := congrArg List.length (List.cons.inj same).2
      rw [List.length_take, Nat.min_eq_left (numberLength_le_length _)] at length
      rw [Scan.first_of_isDigit digit, length]
  | @symbol s _ spelled =>
      have lead := front.lexeme.lead
      obtain ⟨start, digit⟩ := Prod.mk.inj lead
      have quote : c ≠ '"' := by
        rintro rfl
        cases s <;> cases spelled
      have newline : c ≠ '\n' := by
        rintro rfl
        cases s <;> cases spelled
      have blank : isBlank c = false := by
        cases s <;> cases spelled <;> rfl
      have starts : s.chars <+: c :: (tail ++ rest) := by
        rw [← spelled]
        exact List.prefix_append (c :: tail) rest
      obtain ⟨longer, found, -⟩ := exists_longest?_of_prefix starts
      obtain ⟨rest', text⟩ := exists_append_of_longest? found
      obtain ⟨same, -⟩ := front.unique (isLongest_symbol (text ▸ found)) text
      cases same
      rw [first_of_lead quote newline blank line block start digit, found]
      dsimp only
      rw [← spelled]
      rfl

/-- The first piece of a text is what is cut off its front. -/
theorem Cut.first_eq {shape : Shape} {c : Char} {tail rest : List Char}
    (cut : Cut shape (c :: tail) rest) : first c (tail ++ rest) = (shape, tail.length) := by
  cases cut with
  | @quoted inside _ free =>
      have span : spanLength (· != '"') (inside ++ '"' :: rest) = inside.length := by
        refine spanLength_append (fun c member => bne_iff_ne.2 ?_) (by simp)
        rintro rfl
        exact free member
      simp [first, span]
  | unclosed free =>
      have span : spanLength (· != '"') (tail ++ []) = tail.length := by
        refine spanLength_append (fun c member => bne_iff_ne.2 ?_) (by simp)
        rintro rfl
        exact free member
      simp only [List.append_nil] at span ⊢
      simp [first, span]
  | @closedComment body _ closed =>
      show (Shape.blockComment, commentLength 0 1 (body ++ rest)) = _
      rw [closed.commentLength_append, Nat.add_comm]
      rfl
  | @openComment text stays =>
      show (Shape.blockComment, commentLength 0 1 (text ++ [])) = _
      rw [List.append_nil, commentLength_of_open stays, Nat.add_comm]
      rfl
  | @lineComment inside _ free ends =>
      have span : spanLength (· != '\n') ('/' :: inside ++ rest) = ('/' :: inside).length := by
        refine spanLength_append (fun c member => bne_iff_ne.2 ?_) fun c next => ?_
        · rintro rfl
          simp [free] at member
        · simpa using ends c next
      exact congrArg (Prod.mk Shape.lineComment) span
  | newline => rfl
  | blank inside ends =>
      rw [List.forall_mem_cons] at inside
      rw [first_of_isBlank inside.1, spanLength_append inside.2 ends]
  | lexeme line block longest => exact longest.first_eq line block
  | stray quote newline blank none =>
      have slash (d : Char) : ¬ ['/', d] <+: c :: rest := by
        intro starts
        exact none (.symbol (s := .slash) rfl) ((List.prefix_append ['/'] [d]).trans starts)
      have front : [c] <+: c :: rest := ⟨rest, rfl⟩
      have start : isWordStart c = false := by
        by_contra start
        have lexeme : Lexeme .word [c] := .word (by simpa using start) (by simp)
        exact none lexeme front
      have digit : c.isDigit = false := by
        by_contra digit
        have numeral : Decimal.IsNumeral [c] :=
          ⟨[c], [], rfl, List.cons_ne_nil c [], by simpa using digit⟩
        exact none (.number numeral) front
      have nothing : Symbol.longest? (c :: rest) = Option.none := by
        refine Option.eq_none_iff_forall_ne_some.2 fun s found => ?_
        obtain ⟨rest', text⟩ := exists_append_of_longest? found
        exact none (.symbol rfl) ⟨rest', text.symm⟩
      rw [List.nil_append, first_of_lead quote newline blank (slash '/') (slash '*') start digit,
        nothing]
      rfl

theorem cut_iff {shape : Shape} {c : Char} {tail rest : List Char} :
    Cut shape (c :: tail) rest ↔ first c (tail ++ rest) = (shape, tail.length) := by
  constructor
  · exact Cut.first_eq
  · intro found
    have cut := cut_first c (tail ++ rest)
    rwa [found, List.take_left, List.drop_left] at cut

theorem exists_cut {text : List Char} (some : text ≠ []) :
    ∃ shape chars rest, text = chars ++ rest ∧ Cut shape chars rest := by
  obtain ⟨c, text, rfl⟩ := List.exists_cons_of_ne_nil some
  exact ⟨_, _, _, by simp, cut_first c text⟩

/-- Induction along the pieces of a text. -/
theorem cut_induction {motive : List Char → Prop} (nil : motive [])
    (cut : ∀ {shape chars rest}, Cut shape chars rest → motive rest → motive (chars ++ rest))
    (text : List Char) : motive text := by
  induction n : text.length using Nat.strongRecOn generalizing text with
  | ind n ih =>
      subst n
      by_cases none : text = []
      · exact none ▸ nil
      · obtain ⟨shape, chars, rest, rfl, front⟩ := exists_cut none
        have shorter : rest.length < (chars ++ rest).length := by
          have := List.length_pos_iff.2 front.ne_nil
          rw [List.length_append]
          omega
        exact cut front (ih _ shorter rest rfl)

end Lox.Piece
