/-
# Lox.Proofs.PrefixLanguage -- the texts that the reader of prefix form accepts

A tree in prefix form is one sequence of tokens, but for the spelling of its numbers.  The reader
of prefix form accepts exactly the texts with such tokens: what it accepts is, token by token,
what the tree that it returns is written with, so that nothing was passed over or put right, and
what it refuses is the written form of no tree within the bound.

* `Token.Matches` -- tokens that differ at most in the spelling of a number and in their lines.
* `Expr.PrefixYields.matches` -- tokens of a text that write a tree are those of its prefix form.
* `Expr.exists_prefixYields_of_matches` -- whatever matches the prefix form of a tree is read.
* `Parser.prefixExpr_accepts_exactly` -- the two together.
-/
import Lox.Proofs.Correspondence
import Lox.Proofs.RoundTrip

namespace Lox

set_option autoImplicit false

/-! ## The tokens of written trees -/

/-- Two tokens of one kind with one literal, and of one spelling unless they are numbers. -/
structure Token.Matches (t t' : Token) : Prop where
  kind : t.kind = t'.kind
  lexeme : (∀ literal, t.kind ≠ .number literal) → t.lexeme = t'.lexeme

namespace Token

theorem matches_onLine (t : Token) (line : Nat) : t.Matches (t.onLine line) :=
  ⟨rfl, fun _ => rfl⟩

theorem Spelled.matches {t : Token} {s : Symbol} (spelled : t.Spelled) (kind : t.kind = .symbol s)
    (line : Nat) : t.Matches (.fixed (.symbol s) line) :=
  ⟨kind, fun _ => spelled.lexeme_eq kind⟩

theorem matches_group {t : Token} (group : Parse.isGroupHead t = true) (line : Nat) :
    t.Matches ⟨.identifier, "group", line⟩ := by
  simp only [Parse.isGroupHead, Bool.and_eq_true, beq_iff_eq] at group
  exact ⟨group.1, fun _ => group.2⟩

end Token

namespace Piece

/-- The token of a piece that denotes a value is the one that the value is written with. -/
theorem matches_of_token? {p : Piece} (cut : p.IsCut) {t : Token} (made : p.token? = some t)
    {value : Value} (denotes : t.kind.value? = some value) (line : Nat) :
    t.Matches (value.token line) := by
  obtain ⟨rest, cut⟩ := cut.exists_cut
  obtain ⟨shape, chars, last⟩ := p
  cases shape with
  | symbol s =>
      cases made
      cases denotes
  | quoted =>
      cases made
      cases denotes
      cases cut with
      | @quoted inside _ free =>
          refine ⟨rfl, fun _ => ?_⟩
          simp [Value.token, Value.literalText, unquoted, String.append_assoc]
      | lexeme _ _ longest => cases longest.lexeme
  | word =>
      cases made
      obtain ⟨k, spelled, kind⟩ | kind := wordKind_eq chars
      · rw [kind] at denotes
        refine ⟨?_, fun _ => ?_⟩
        · show wordKind chars = value.kind
          rw [kind]
          cases k <;> cases denotes <;> rfl
        · show String.ofList chars = value.literalText
          rw [spelled]
          cases k <;> cases denotes <;> rfl
      · rw [kind] at denotes
        cases denotes
  | number =>
      obtain ⟨-, kind⟩ := kind_of_number made
      rw [kind] at denotes
      cases denotes
      exact ⟨kind, fun other => absurd kind (other _)⟩
  | unclosed | blockComment | lineComment | newline | blank | stray => cases made

end Piece

/-- A token of a text that denotes a value is the one that the value is written with. -/
theorem Scan.matches_of_mem {first : Nat} {text : List Char} {t : Token}
    (member : t ∈ (ofChars first text).tokens) {value : Value}
    (denotes : t.kind.value? = some value) (line : Nat) : t.Matches (value.token line) := by
  obtain ⟨p, cut, made⟩ := List.mem_filterMap.1 member
  obtain outside | isCut := Piece.isCut_of_mem_segmentsAfter cut
  · cases outside
  · exact Piece.matches_of_token? isCut made denotes line

namespace Expr

section Matching

variable {first : Nat} {text : List Char} {e : Expr} {tokens : List Token}

/-- A tree that tokens of a text write in prefix form can be written out. -/
theorem PrefixYields.writable (yields : e.PrefixYields tokens)
    (scanned : ∀ t ∈ tokens, t.Scanned) : e.Writable := by
  induction yields with
  | literal denotes => exact (scanned _ (by simp)).writable _ denotes
  | grouping _ _ _ _ ih => exact ih fun t member => scanned t (by simp [member])
  | unary _ unary _ _ ih =>
      obtain ⟨s, kind⟩ := Token.exists_symbol_of_isUnary unary
      exact ⟨unary, (scanned _ (by simp)).spelled s kind,
        ih fun t member => scanned t (by simp [member])⟩
  | binary _ binary _ _ _ ihLeft ihRight =>
      obtain ⟨s, kind⟩ := Token.exists_symbol_of_level? binary
      exact ⟨binary, (scanned _ (by simp)).spelled s kind,
        ihLeft fun t member => scanned t (by simp [member]),
        ihRight fun t member => scanned t (by simp [member])⟩

/-- The parenthesis of a text is the one that trees are written with. -/
theorem matches_paren {t : Token} {s : Symbol} (member : t ∈ (Scan.ofChars first text).tokens)
    (symbol : t.is s = true) (line : Nat) : t.Matches (.fixed (.symbol s) line) := by
  have kind := Token.is_iff.1 symbol
  exact ((Scan.scanned_of_mem member).spelled s kind).matches kind line

theorem forall₂_form {inside body : List Token} {opening head head' closing : Token}
    {line line' : Nat} (opens : opening.Matches (.fixed (.symbol .leftParen) line))
    (heads : head.Matches head') (bodies : List.Forall₂ Token.Matches inside body)
    (closes : closing.Matches (.fixed (.symbol .rightParen) line')) :
    List.Forall₂ Token.Matches (opening :: head :: (inside ++ [closing]))
      (.fixed (.symbol .leftParen) line :: head' ::
        (body ++ [.fixed (.symbol .rightParen) line'])) :=
  .cons opens (.cons heads (List.rel_append bodies (.cons closes .nil)))

/-- The tokens of a text that write a tree are those of its prefix form. -/
theorem PrefixYields.matches (yields : e.PrefixYields tokens)
    (within : tokens ⊆ (Scan.ofChars first text).tokens) (line : Nat) :
    List.Forall₂ Token.Matches tokens (e.prefixTokens line) := by
  induction yields generalizing line with
  | literal denotes => exact .cons (Scan.matches_of_mem (within (by simp)) denotes line) .nil
  | grouping opens group _ closes ih =>
      have inside := ih (fun t member => within (by simp [member])) line
      exact forall₂_form (matches_paren (within (by simp)) opens line)
        (Token.matches_group group line) inside (matches_paren (within (by simp)) closes _)
  | unary opens _ _ closes ih =>
      have inside := ih (fun t member => within (by simp [member])) line
      exact forall₂_form (matches_paren (within (by simp)) opens line)
        (Token.matches_onLine _ line) inside (matches_paren (within (by simp)) closes _)
  | @binary _ lhs _ _ _ _ _ opens _ _ _ closes ihLeft ihRight =>
      have left := ihLeft (fun t member => within (by simp [member])) line
      have right := ihRight (fun t member => within (by simp [member])) (line + lhs.newlines)
      rw [prefixTokens, ← List.append_assoc]
      exact forall₂_form (matches_paren (within (by simp)) opens line)
        (Token.matches_onLine _ line) (List.rel_append left right)
        (matches_paren (within (by simp)) closes _)

end Matching

/-- What matches two sequences one behind the other is two such sequences. -/
theorem exists_of_forall₂_append {tokens before after : List Token}
    (same : List.Forall₂ Token.Matches tokens (before ++ after)) :
    ∃ front behind, tokens = front ++ behind ∧ List.Forall₂ Token.Matches front before ∧
      List.Forall₂ Token.Matches behind after :=
  ⟨_, _, (List.take_append_drop _ _).symm, List.forall₂_take_append _ _ _ same,
    List.forall₂_drop_append _ _ _ same⟩

/-- What matches a form is a form. -/
theorem exists_of_forall₂_form {tokens body : List Token} {head : Token} {line line' : Nat}
    (same : List.Forall₂ Token.Matches tokens (.fixed (.symbol .leftParen) line :: head ::
      (body ++ [.fixed (.symbol .rightParen) line']))) :
    ∃ opening head' inside closing, tokens = opening :: head' :: (inside ++ [closing]) ∧
      opening.is .leftParen = true ∧ head'.Matches head ∧
      List.Forall₂ Token.Matches inside body ∧ closing.is .rightParen = true := by
  obtain ⟨opening, others, opens, others_same, rfl⟩ := List.forall₂_cons_right_iff.1 same
  obtain ⟨head', others, heads, behind_same, rfl⟩ := List.forall₂_cons_right_iff.1 others_same
  obtain ⟨inside, behind, rfl, bodies, last_same⟩ := exists_of_forall₂_append behind_same
  obtain ⟨closing, none, closes, ⟨⟩, rfl⟩ := List.forall₂_cons_right_iff.1 last_same
  exact ⟨opening, head', inside, closing, rfl, Token.is_iff.2 opens.kind, heads, bodies,
    Token.is_iff.2 closes.kind⟩

/-- Whatever matches the prefix form of a tree writes a tree as high in prefix form. -/
theorem exists_prefixYields_of_matches {e : Expr} (writable : e.Writable) {tokens : List Token}
    {line : Nat} (same : List.Forall₂ Token.Matches tokens (e.prefixTokens line)) :
    ∃ e' : Expr, e'.height = e.height ∧ e'.PrefixYields tokens := by
  -- The other tree has the tokens themselves for its operators, which stand on other lines.
  induction e generalizing tokens line with
  | literal value =>
      obtain ⟨t, none, matched, ⟨⟩, rfl⟩ := List.forall₂_cons_right_iff.1 same
      have denotes : t.kind.value? = some value := by
        rw [matched.kind]
        exact value.value?_kind
      exact ⟨.literal value, rfl, .literal denotes⟩
  | grouping inner ih =>
      obtain ⟨opening, head, inside, closing, rfl, opens, heads, same, closes⟩ :=
        exists_of_forall₂_form same
      obtain ⟨inner', height, yields⟩ := ih writable same
      have group : Parse.isGroupHead head = true := by
        have kind : head.kind = .identifier := heads.kind
        have lexeme : head.lexeme = "group" := heads.lexeme (by simp [kind])
        simp [Parse.isGroupHead, kind, lexeme]
      exact ⟨.grouping inner', by simp [height, Expr.height], .grouping opens group yields closes⟩
  | unary op arg ih =>
      obtain ⟨unary, -, writable⟩ := writable
      obtain ⟨opening, head, inside, closing, rfl, opens, heads, same, closes⟩ :=
        exists_of_forall₂_form same
      obtain ⟨arg', height, yields⟩ := ih writable same
      have unary' : head.isUnary = true :=
        (Parse.isUnary_eq Token.Matches.kind heads).trans unary
      exact ⟨.unary head arg', by simp [height, Expr.height], .unary opens unary' yields closes⟩
  | binary op lhs rhs ihLeft ihRight =>
      obtain ⟨binary, -, writable, writable'⟩ := writable
      rw [prefixTokens, ← List.append_assoc] at same
      obtain ⟨opening, head, inside, closing, rfl, opens, heads, same, closes⟩ :=
        exists_of_forall₂_form same
      obtain ⟨before, after, rfl, sameLeft, sameRight⟩ := exists_of_forall₂_append same
      obtain ⟨lhs', height, left⟩ := ihLeft writable sameLeft
      obtain ⟨rhs', height', right⟩ := ihRight writable' sameRight
      have binary' : head.level?.isSome = true := by
        rwa [Parse.level?_eq Token.Matches.kind heads]
      exact ⟨.binary head lhs' rhs', by simp [height, height', Expr.height],
        .binary opens binary' left right closes⟩

end Expr

/-! ## Texts -/

/-- The tokens of the text are those of the tree in prefix form, numbers spelled in any way. -/
def Expr.Renders (e : Expr) (text : String) : Prop :=
  List.Forall₂ Token.Matches (Scan.ofText text).tokens (Scan.ofText e.prefixText).tokens

namespace Parser

open Parse

/-- The end of the input stands behind both. -/
theorem renders_iff {e : Expr} (writable : e.Writable) (text : String) :
    e.Renders text ↔
      List.Forall₂ Token.Matches (Scan.ofChars 1 text.toList).tokens (e.prefixTokens 1) := by
  have written : (Scan.ofText e.prefixText).tokens = e.prefixTokens 1 ++ [.eof _] :=
    congrArg (fun scan : Scan => scan.tokens ++ [_]) (ofChars_prefixText writable)
  rw [Expr.Renders, written]
  constructor
  · intro same
    obtain ⟨front, behind, split, fronts, behinds⟩ := Expr.exists_of_forall₂_append same
    obtain ⟨last, none, -, ⟨⟩, rfl⟩ := List.forall₂_cons_right_iff.1 behinds
    obtain ⟨rfl, -⟩ := List.append_inj' split rfl
    exact fronts
  · intro same
    exact List.rel_append same (.cons ⟨rfl, fun _ => rfl⟩ .nil)

theorem prefixExpr_ofText_eq_ok_iff {text : String} {bound : Nat} {e : Expr} :
    (ofText text bound).prefixExpr.1 = .ok e ↔
      e.height ≤ bound ∧ e.PrefixYields (Scan.ofChars 1 text.toList).tokens := by
  rw [← ahead_ofText text bound, prefixExpr_ofText]
  constructor
  · intro done
    obtain ⟨rest, read, -⟩ := read_eq_ok_iff.1 (Prod.ext done rfl)
    exact (outcome_prefixExpression_eq_ok_iff.1 read).2
  · rintro ⟨low, yields⟩
    rw [read_of_ok (outcome_prefixExpression_eq_ok_iff.2 ⟨rfl, low, yields⟩)]

/-- **The reader of prefix form accepts what trees are written as, and nothing else.**  A tree
that it returns can be written, is within the bound, and is written with the very tokens of the
text, but for the spelling of numbers.  If it refuses the text, then no tree that can be written
and is within the bound is written with these tokens. -/
theorem prefixExpr_accepts_exactly (text : String) (bound : Nat) :
    (∀ e, (ofText text bound).prefixExpr.1 = .ok e →
        e.Writable ∧ e.height ≤ bound ∧ (Scan.ofText e.prefixText).faults = [] ∧
          e.Renders text) ∧
      ((∃ rejection, (ofText text bound).prefixExpr.1 = .error rejection) →
        ¬ ∃ e : Expr, e.Writable ∧ e.height ≤ bound ∧ e.Renders text) := by
  constructor
  · intro e accepted
    obtain ⟨low, yields⟩ := prefixExpr_ofText_eq_ok_iff.1 accepted
    have writable := yields.writable fun t member => Scan.scanned_of_mem member
    have faultless := (roundTrips_of_writable writable bound).faultless
    exact ⟨writable, low, faultless,
      (renders_iff writable text).2 (yields.matches (List.Subset.refl _) 1)⟩
  · rintro ⟨rejection, refused⟩ ⟨e, writable, low, renders⟩
    obtain ⟨e', height, yields⟩ :=
      Expr.exists_prefixYields_of_matches writable ((renders_iff writable text).1 renders)
    have accepted := prefixExpr_ofText_eq_ok_iff.2 ⟨height.trans_le low, yields⟩
    cases refused.symm.trans accepted

/-- `1.5 - "a b"`, spaced and spelled as nobody writes it. -/
def looseText : String :=
  "( // minus\n - 01.50\"a b\" )"

/-- The loose text is accepted for the tree that is written `(- 1.5 "a b")`, and nothing is
written as a negation of two operands. -/
theorem prefixExpr_accepts_exactly_looseText :
    let e : Expr :=
      .binary (.fixed (.symbol .minus) 2) (.literal (.number (Float.ofBits 0x3FF8000000000000)))
        (.literal (.string "a b"))
    (ofText looseText 2).prefixExpr.1 = .ok e ∧ e.Writable ∧ e.Renders looseText ∧
      (ofText looseText 2).reported = [] ∧
      ¬ ∃ e : Expr, e.Writable ∧ e.height ≤ 9 ∧ e.Renders "(! nil nil)" := by
  intro e
  have accepted : (ofText looseText 2).prefixExpr.1 = .ok e := by decide +kernel
  have faultless : (ofText looseText 2).reported = [] := by decide +kernel
  obtain ⟨writable, -, -, renders⟩ := (prefixExpr_accepts_exactly looseText 2).1 e accepted
  have refused : ∃ rejection, (ofText "(! nil nil)" 9).prefixExpr.1 = .error rejection :=
    ⟨_, by cbv⟩
  exact ⟨accepted, writable, renders, faultless,
    (prefixExpr_accepts_exactly "(! nil nil)" 9).2 refused⟩

end Parser

end Lox
