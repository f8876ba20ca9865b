/-
# Lox.Proofs.Scanned -- what a program's trees can hold

Scanning makes tokens of one kind only: a symbol is spelled as it is, a string ends before
any quote, and a number is finite and has no sign.  A tree that is parsed keeps tokens and
values of those it was parsed from, so that whatever a program parses to can be written out.

* `Scan.scanned_of_mem` -- the tokens of a text.
* `Parse.derives_of_mem_attempts`, `Expr.Yields.writable` -- the statements of a program.
-/
import Lox.Proofs.Cutting
import Lox.Proofs.Sentences
import Lox.Proofs.Written

namespace Lox

set_option autoImplicit false

attribute [local instance(high)] instPowNat

/-- A token that a piece of text can make. -/
structure Token.Scanned (t : Token) : Prop where
  spelled : ∀ s, t.kind = .symbol s → t.Spelled
  writable : ∀ value, t.kind.value? = some value → value.Writable
  inner : t.isEof = false

/-! ## Pieces -/

namespace Piece

/-- The piece was cut off the front of some text. -/
def IsCut (p : Piece) : Prop :=
  ∃ c text more, first c text = (p.shape, more) ∧ p.chars = c :: text.take more

theorem IsCut.exists_cut {p : Piece} (isCut : p.IsCut) : ∃ rest, Cut p.shape p.chars rest := by
  obtain ⟨c, text, more, found, chars⟩ := isCut
  have cut := cut_first c text
  rw [found, ← chars] at cut
  exact ⟨_, cut⟩

theorem isCut_of_mem_segmentsAfter {cut : List Piece} {line : Nat} {text : List Char} {p : Piece}
    (member : p ∈ segmentsAfter cut line text) : p ∈ cut ∨ p.IsCut := by
  fun_induction segmentsAfter cut line text with
  | case1 => exact .inl (List.mem_reverse.1 member)
  | case2 cut line c text shape more first chars last ih =>
      rcases ih member with member | isCut
      · rcases List.mem_cons.1 member with rfl | member
        · exact .inr ⟨c, text, more, first, rfl⟩
        · exact .inl member
      · exact .inr isCut

/-- A word is a keyword that is spelled so, or an identifier. -/
theorem wordKind_eq (word : List Char) :
    (∃ k : Keyword, word = k.chars ∧ wordKind word = .keyword k) ∨
      wordKind word = .identifier := by
  unfold wordKind
  split
  · rename_i k found
    have same := @List.find?_some _ (fun k : Keyword => k.chars == word) _ _ found
    exact .inl ⟨k, (eq_of_beq same).symm, rfl⟩
  · exact .inr rfl

/-- A numeral that makes a token is in range. -/
theorem kind_of_number {chars : List Char} {line : Nat} {t : Token}
    (made : (⟨.number, chars, line⟩ : Piece).token? = some t) :
    (Decimal.ofNumeral chars).toFloat.isFinite = true ∧
      t.kind = .number (some (.number (Decimal.ofNumeral chars).toFloat)) := by
  by_cases finite : (Decimal.ofNumeral chars).toFloat.isFinite = true
  · have means : (⟨.number, chars, line⟩ : Piece).meaning =
        .token (.number (some (.number (Decimal.ofNumeral chars).toFloat))) :=
      if_pos finite
    rw [token?, means] at made
    cases made
    exact ⟨finite, rfl⟩
  · have means : (⟨.number, chars, line⟩ : Piece).meaning = .fault .numberOutOfRange :=
      if_neg finite
    rw [token?, means] at made
    cases made

theorem scanned_of_number {chars : List Char} {line : Nat} {t : Token}
    (made : (⟨.number, chars, line⟩ : Piece).token? = some t) : t.Scanned := by
  obtain ⟨finite, kind⟩ := kind_of_number made
  have low := Decimal.word_le_infinity (Decimal.ofNumeral chars)
  rw [← Decimal.toNat_toBits_toFloat] at low
  constructor
  · intro s same
    cases kind.symm.trans same
  · intro value denotes
    rw [kind] at denotes
    cases denotes
    exact ⟨finite, Nat.lt_of_le_of_lt low Binary64.infinity_lt⟩
  · simp [Token.isEof, kind]

/-- A piece that is cut off a text makes a token of one kind only. -/
theorem scanned_of_token? {p : Piece} (cut : p.IsCut) {t : Token} (made : p.token? = some t) :
    t.Scanned := by
  obtain ⟨rest, cut⟩ := cut.exists_cut
  obtain ⟨shape, chars, line⟩ := p
  cases shape with
  | symbol s =>
      cases made
      cases cut with
      | lexeme _ _ longest =>
          cases longest.lexeme with
          | symbol spelled =>
              constructor
              · intro s' same
                cases same
                exact congrArg (fun chars => some (String.ofList chars)) spelled.symm
              · intro value denotes
                cases denotes
              · rfl
  | quoted =>
      cases made
      cases cut with
      | quoted free =>
          constructor
          · intro s same
            cases same
          · intro value denotes
            cases denotes
            simpa [Value.Writable, unquoted] using free
          · rfl
      | lexeme _ _ longest => cases longest.lexeme
  | word =>
      cases made
      obtain ⟨k, -, kind⟩ | kind := wordKind_eq chars
      · constructor
        · intro s same
          cases kind.symm.trans same
        · intro value denotes
          rw [kind] at denotes
          cases k <;> cases denotes <;> trivial
        · simp [Token.isEof, kind]
      · constructor
        · intro s same
          cases kind.symm.trans same
        · intro value denotes
          rw [kind] at denotes
          cases denotes
        · simp [Token.isEof, kind]
  | number => exact scanned_of_number made
  | unclosed | blockComment | lineComment | newline | blank | stray => cases made

end Piece

/-- Scanning makes tokens of that kind only. -/
theorem Scan.scanned_of_mem {line : Nat} {text : List Char} {t : Token}
    (member : t ∈ (ofChars line text).tokens) : t.Scanned := by
  obtain ⟨p, cut, made⟩ := List.mem_filterMap.1 member
  obtain outside | isCut := Piece.isCut_of_mem_segmentsAfter cut
  · cases outside
  · exact Piece.scanned_of_token? isCut made

/-! ## Trees -/

/-- A tree of the grammar that such tokens write can be written out. -/
theorem Expr.Yields.writable {e : Expr} {tokens : List Token} (yields : e.Yields tokens)
    (canonical : e.Canonical) (scanned : ∀ t ∈ tokens, t.Scanned) : e.Writable := by
  induction yields with
  | literal denotes => exact (scanned _ (List.mem_singleton.2 rfl)).writable _ denotes
  | grouping opens yields closes ih =>
      exact ih canonical fun t member => scanned t (by simp [member])
  | unary yields ih =>
      obtain ⟨unary, _, canonical⟩ := canonical
      obtain ⟨s, kind⟩ := Token.exists_symbol_of_isUnary unary
      exact ⟨unary, (scanned _ (by simp)).spelled s kind,
        ih canonical fun t member => scanned t (by simp [member])⟩
  | binary left right ihLeft ihRight =>
      obtain ⟨level, found, _, _, canonical, canonical'⟩ := canonical
      have binary := Option.isSome_of_eq_some found
      obtain ⟨s, kind⟩ := Token.exists_symbol_of_level? binary
      exact ⟨binary, (scanned _ (by simp)).spelled s kind,
        ihLeft canonical fun t member => scanned t (by simp [member]),
        ihRight canonical' fun t member => scanned t (by simp [member])⟩

namespace Parse

variable {bound : Nat} {tokens : List Token} {stmt : Stmt}

/-- Some of the tokens write the tree, which is one of the grammar within the bound. -/
def Derives (bound : Nat) (tokens : List Token) (e : Expr) : Prop :=
  ∃ read, read ⊆ tokens ∧ e.Yields read ∧ e.Canonical ∧ e.height ≤ bound

/-- Whatever else goes wrong, every statement read comes from the tokens. -/
theorem derives_of_mem_attempts (member : .done stmt ∈ attempts bound tokens) :
    Derives bound tokens stmt.expr := by
  have read : stmt ∈ (attempts bound tokens).filterMap Attempt.stmt? :=
    List.mem_filterMap.2 ⟨_, member, rfl⟩
  obtain ⟨front, within, canonical, low, yields⟩ :=
    (attempts_scattered bound tokens).exists_sentence read
  obtain ⟨inner, inside, yields⟩ := yields.exists_expr
  exact ⟨inner, fun t scanned => within (inside scanned), yields, canonical, low⟩

end Parse

namespace Parser

/-- A text is parsed from its own tokens. -/
theorem ahead_ofText (text : String) (bound : Nat) :
    (ofText text bound).ahead = (Scan.ofChars 1 text.toList).tokens := by
  have inner : ∀ t ∈ (Scan.ofChars 1 text.toList).tokens, (!t.isEof) = true := by
    intro t member
    rw [(Scan.scanned_of_mem member).inner]
    rfl
  show ((Scan.ofChars 1 text.toList).tokens ++ [Token.eof _]).takeWhile (fun t => !t.isEof) = _
  rw [List.takeWhile_append_of_pos inner]
  simp [Token.isEof, Token.eof]

end Parser

end Lox
