/-
# Lox.Proofs.Written -- the tokens of a tree in prefix form

A tree can be written out and read back if its operators are spelled as their kinds lay down
and its literals can stand in a program: a number needs no sign and a string holds no quote.
The written text then scans to the tokens that one expects, without a fault.  Only the lines
are new: they count the newlines written before a token, which strings may hold.

* `Expr.Writable` -- the trees that can be written out.
* `Expr.renumbered`, `Expr.prefixTokens` -- a tree and its tokens, on the lines of its text.
* `Scan.reads_prefixText` -- the written text scans to those tokens.
-/
import Lox.Expr.Form
import Lox.Expr.Level
import Lox.Proofs.Grammar
import Lox.Proofs.Scanning

namespace Lox

set_option autoImplicit false

attribute [local instance(high)] instPowNat

/-! ## What can be written -/

/-- The token is spelled as its kind lays down. -/
def Token.Spelled (t : Token) : Prop :=
  t.kind.lexeme? = some t.lexeme

theorem Token.Spelled.lexeme_eq {t : Token} {s : Symbol} (spelled : t.Spelled)
    (kind : t.kind = .symbol s) : t.lexeme = String.ofList s.chars := by
  rw [Spelled, kind] at spelled
  exact (Option.some.inj spelled).symm

theorem Token.Spelled.toList_lexeme {t : Token} {s : Symbol} (spelled : t.Spelled)
    (kind : t.kind = .symbol s) : t.lexeme.toList = s.chars := by
  rw [spelled.lexeme_eq kind, String.toList_ofList]

/-- The token on another line. -/
def Token.onLine (line : Nat) (t : Token) : Token :=
  { t with line }

@[simp] theorem Token.lexeme_onLine (line : Nat) (t : Token) :
    (t.onLine line).lexeme = t.lexeme :=
  rfl

@[simp] theorem Token.isUnary_onLine (line : Nat) (t : Token) :
    (t.onLine line).isUnary = t.isUnary :=
  rfl

@[simp] theorem Token.level?_onLine (line : Nat) (t : Token) :
    (t.onLine line).level? = t.level? :=
  rfl

/-- The value can stand in a program as a literal. -/
def Value.Writable : Value → Prop
  | .number x => x.isFinite = true ∧ x.toBits.toNat < 2 ^ (63 : Nat)
  | .string s => '"' ∉ s.toList
  | .boolean _ | .nil => True

namespace Expr

/-- Every operator is one of the language and spelled as its kind lays down, and every literal
can stand in a program. -/
def Writable : Expr → Prop
  | .literal value => value.Writable
  | .grouping inner => inner.Writable
  | .unary op arg => op.isUnary = true ∧ op.Spelled ∧ arg.Writable
  | .binary op lhs rhs => op.level?.isSome = true ∧ op.Spelled ∧ lhs.Writable ∧ rhs.Writable

/-- How many newlines a tree holds in prefix form. -/
def newlines (e : Expr) : Nat :=
  e.prefixText.toList.count '\n'

/-- The tree with every operator on the line where it stands in prefix form, when that begins
on `line`. -/
def renumbered (line : Nat) : Expr → Expr
  | .literal value => .literal value
  | .grouping inner => .grouping (inner.renumbered line)
  | .unary op arg => .unary (op.onLine line) (arg.renumbered line)
  | .binary op lhs rhs =>
    .binary (op.onLine line) (lhs.renumbered line) (rhs.renumbered (line + lhs.newlines))

/-- Lines are not written. -/
theorem prefixText_renumbered (e : Expr) (line : Nat) :
    (e.renumbered line).prefixText = e.prefixText := by
  induction e generalizing line with
  | literal value => rfl
  | grouping inner ih => simp [renumbered, prefixText, ih]
  | unary op arg ih => simp [renumbered, prefixText, ih]
  | binary op lhs rhs left right => simp [renumbered, prefixText, left, right]

end Expr

/-! ## Its tokens -/

/-- The kind of the token that a value is read from. -/
def Value.kind : Value → Kind
  | .number x => .number (some (.number x))
  | .string s => .string (some (.string s))
  | .boolean true => .keyword .trueWord
  | .boolean false => .keyword .falseWord
  | .nil => .keyword .nilWord

@[simp] theorem Value.value?_kind (value : Value) : value.kind.value? = some value := by
  cases value with
  | boolean b => cases b <;> rfl
  | _ => rfl

/-- The token of a written literal that begins on `line`. -/
def Value.token (line : Nat) (value : Value) : Token :=
  ⟨value.kind, value.literalText, line + value.literalText.toList.count '\n'⟩

/-- The tokens of a tree in prefix form that begins on `line`. -/
def Expr.prefixTokens (line : Nat) : Expr → List Token
  | .literal value => [value.token line]
  | .grouping inner =>
    .fixed (.symbol .leftParen) line :: ⟨.identifier, "group", line⟩ ::
      (inner.prefixTokens line ++ [.fixed (.symbol .rightParen) (line + inner.newlines)])
  | .unary op arg =>
    .fixed (.symbol .leftParen) line :: op.onLine line ::
      (arg.prefixTokens line ++ [.fixed (.symbol .rightParen) (line + arg.newlines)])
  | .binary op lhs rhs =>
    .fixed (.symbol .leftParen) line :: op.onLine line ::
      (lhs.prefixTokens line ++
        (rhs.prefixTokens (line + lhs.newlines) ++
          [.fixed (.symbol .rightParen) (line + lhs.newlines + rhs.newlines)]))

namespace Scan

/-! ## Scanning -/

theorem reads_literalText {value : Value} (writable : value.Writable) {rest : List Char}
    (ends : Ends rest) (line : Nat) :
    Reads line value.literalText.toList [value.token line] rest := by
  cases value with
  | number x =>
      have finite : x.toBits.toNat < Magnitude.infinity := by
        obtain ⟨finite, positive⟩ := writable
        rw [Binary64.isFinite_iff, Nat.mod_eq_of_lt positive] at finite
        exact finite
      have same := Decimal.toFloat_ofNumeral_floatText finite
      have read := reads_numeral ends (Decimal.isNumeral_floatText finite)
        (by rw [same]; exact writable.1) line
      rwa [same, String.ofList_toList] at read
  | string s =>
      have text : (Value.string s).literalText.toList = '"' :: (s.toList ++ ['"']) := by
        simp [Value.literalText]
      have read := reads_string writable line rest
      rwa [← text, String.ofList_toList, String.ofList_toList] at read
  | boolean b =>
      cases b with
      | true => exact reads_word ends (fun _ => rfl) rfl line
      | false => exact reads_word ends (fun _ => rfl) rfl line
  | nil => exact reads_word ends (fun _ => rfl) rfl line

theorem reads_operator {op : Token} {s : Symbol} (kind : op.kind = .symbol s)
    (spelled : op.Spelled) {rest : List Char} (ends : Ends rest) (line : Nat) :
    Reads line op.lexeme.toList [op.onLine line] rest := by
  have read := reads_symbol s ends line
  rw [← spelled.toList_lexeme kind] at read
  have same : op.onLine line = .fixed (.symbol s) line := by
    rw [Token.onLine, spelled.lexeme_eq kind, kind]
    rfl
  rwa [same]

theorem count_lexeme {op : Token} {s : Symbol} (kind : op.kind = .symbol s)
    (spelled : op.Spelled) : op.lexeme.toList.count '\n' = 0 := by
  rw [spelled.toList_lexeme kind]
  cases s <;> rfl

theorem reads_group (line : Nat) (rest : List Char) :
    Reads line "group".toList [⟨.identifier, "group", line⟩] (' ' :: rest) := by
  have ends : Ends (' ' :: rest) := by simp [Ends]
  exact reads_word ends (fun _ => rfl) rfl line

/-- A head and what it applies to, in parentheses. -/
theorem reads_form {head body rest : List Char} {token : Token} {tokens : List Token} {line : Nat}
    (reads_head : ∀ rest, Reads line head [token] (' ' :: rest)) (flat : head.count '\n' = 0)
    (reads_body : Reads line body tokens (')' :: rest)) :
    Reads line ('(' :: (head ++ ' ' :: (body ++ [')'])))
      (.fixed (.symbol .leftParen) line :: token ::
        (tokens ++ [.fixed (.symbol .rightParen) (line + body.count '\n')])) rest := by
  show Reads line (['('] ++ (head ++ ([' '] ++ (body ++ [')']))))
    ([.fixed (.symbol .leftParen) line] ++ ([token] ++ ([] ++ (tokens ++ [_])))) rest
  refine (reads_leftParen line _).append ?_
  rw [show line + ['('].count '\n' = line from rfl]
  refine (reads_head _).append ?_
  rw [flat, Nat.add_zero]
  refine (reads_blank rfl line _).append ?_
  rw [show line + [' '].count '\n' = line from rfl]
  exact reads_body.append (reads_rightParen _ rest)

/-- Two trees with a blank between them. -/
theorem reads_operands {body body' rest : List Char} {tokens tokens' : List Token} {line : Nat}
    (reads_lhs : Reads line body tokens (' ' :: (body' ++ rest)))
    (reads_rhs : Reads (line + body.count '\n') body' tokens' rest) :
    Reads line (body ++ ' ' :: body') (tokens ++ tokens') rest := by
  show Reads line (body ++ ([' '] ++ body')) (tokens ++ ([] ++ tokens')) rest
  exact reads_lhs.append ((reads_blank rfl _ _).append reads_rhs)

/-- A tree in prefix form comes to its tokens. -/
theorem reads_prefixText {e : Expr} (writable : e.Writable) {rest : List Char} (ends : Ends rest)
    (line : Nat) : Reads line e.prefixText.toList (e.prefixTokens line) rest := by
  have closes (rest : List Char) : Ends (')' :: rest) := by simp [Ends]
  have separates (rest : List Char) : Ends (' ' :: rest) := by simp [Ends]
  induction e generalizing line rest with
  | literal value => exact reads_literalText writable ends line
  | grouping inner ih =>
      have read := reads_form (reads_group line) rfl (ih writable (closes rest) line)
      simpa [Expr.prefixText, Expr.prefixTokens, Expr.newlines, Nat.add_assoc] using read
  | unary op arg ih =>
      obtain ⟨unary, spelled, writable⟩ := writable
      obtain ⟨s, kind⟩ := Token.exists_symbol_of_isUnary unary
      have read := reads_form (fun rest => reads_operator kind spelled (separates rest) line)
        (count_lexeme kind spelled) (ih writable (closes rest) line)
      simpa [Expr.prefixText, Expr.prefixTokens, Expr.newlines, Nat.add_assoc] using read
  | binary op lhs rhs left right =>
      obtain ⟨level, spelled, writable, writable'⟩ := writable
      obtain ⟨s, kind⟩ := Token.exists_symbol_of_level? level
      have operands := reads_operands (left writable (separates _) line)
        (right writable' (closes rest) _)
      have read := reads_form (fun rest => reads_operator kind spelled (separates rest) line)
        (count_lexeme kind spelled) operands
      simpa [Expr.prefixText, Expr.prefixTokens, Expr.newlines, Nat.add_assoc] using read

end Scan

end Lox
