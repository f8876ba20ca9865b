/-
# Lox.Proofs.Grammar -- the trees of the grammar and the tokens they are written with

The grammar has one rule for each level of binary operators, all of them associating to the
left, and below them unary operators, groupings and literals.  Its trees are the canonical
ones: no operand binds looser than the operator above it, and a right operand binds tighter.

* `Expr.Canonical` -- the trees that the grammar derives.
* `Expr.Yields` -- a tree written as tokens, in order.  It is a relation, since a tree keeps
  the values of its literals but not their tokens, and no parentheses.
-/
import Lox.Expr.Level
import Lox.Expr.Basic

namespace Lox

set_option autoImplicit false

/-! ## Tokens -/

namespace Token

theorem is_iff {t : Token} {s : Symbol} : t.is s = true ↔ t.kind = .symbol s := by
  simp [Token.is]

theorem isUnary_iff {t : Token} :
    t.isUnary = true ↔ t.kind = .symbol .bang ∨ t.kind = .symbol .minus := by
  simp [isUnary, is_iff]

theorem level?_of_kind {t : Token} {s : Symbol} (kind : t.kind = .symbol s) :
    t.level? = s.level? := by
  simp [level?, kind]

theorem exists_symbol_of_isUnary {t : Token} (unary : t.isUnary = true) :
    ∃ s, t.kind = .symbol s := by
  rcases isUnary_iff.1 unary with kind | kind
  · exact ⟨.bang, kind⟩
  · exact ⟨.minus, kind⟩

theorem exists_symbol_of_level? {t : Token} (binary : t.level?.isSome = true) :
    ∃ s, t.kind = .symbol s := by
  unfold level? at binary
  split at binary
  · exact ⟨_, ‹_›⟩
  · cases binary

/-- A token with a value is no operator and no parenthesis. -/
theorem not_symbol_of_value? {t : Token} {value : Value} (literal : t.kind.value? = some value)
    (s : Symbol) : t.kind ≠ .symbol s := by
  rintro kind
  simp [kind, Kind.value?, Kind.literal] at literal

theorem value?_of_symbol {t : Token} {s : Symbol} (kind : t.kind = .symbol s) :
    t.kind.value? = none := by
  simp [kind, Kind.value?, Kind.literal]

end Token

/-! ## Trees -/

/-- The place of a level among the levels, the loosest at zero. -/
def Level.rank : Level → Nat
  | .equality => 0
  | .comparison => 1
  | .term => 2
  | .factor => 3

theorem Level.rank_inj {a b : Level} (same : a.rank = b.rank) : a = b := by
  cases a <;> cases b <;> first | rfl | cases same

theorem Level.rank_lt (level : Level) : level.rank < 4 := by
  cases level <;> decide

namespace Expr

/-- How tightly the root of a tree binds: a binary operator as its level says, and everything
else tighter than all levels. -/
def rank : Expr → Nat
  | .binary op _ _ => (op.level?.map Level.rank).getD 0
  | _ => 4

/-- The grammar derives the tree. -/
def Canonical : Expr → Prop
  | .literal _ => True
  | .grouping inner => inner.Canonical
  | .unary op arg => op.isUnary = true ∧ 4 ≤ arg.rank ∧ arg.Canonical
  | .binary op lhs rhs =>
      ∃ level, op.level? = some level ∧ level.rank ≤ lhs.rank ∧ level.rank < rhs.rank ∧
        lhs.Canonical ∧ rhs.Canonical

/-- The tree written as tokens: for a literal a token of its value, for an operator the
operator's own token, and parentheses around what a grouping holds. -/
inductive Yields : Expr → List Token → Prop
  | literal {value : Value} {t : Token} (denotes : t.kind.value? = some value) :
      Yields (.literal value) [t]
  | grouping {inner : Expr} {tokens : List Token} {opening closing : Token}
      (opens : opening.is .leftParen = true) (yields : Yields inner tokens)
      (closes : closing.is .rightParen = true) :
      Yields (.grouping inner) (opening :: tokens ++ [closing])
  | unary {op : Token} {arg : Expr} {tokens : List Token} (yields : Yields arg tokens) :
      Yields (.unary op arg) (op :: tokens)
  | binary {op : Token} {lhs rhs : Expr} {before after : List Token}
      (left : Yields lhs before) (right : Yields rhs after) :
      Yields (.binary op lhs rhs) (before ++ op :: after)

theorem rank_binary {op : Token} {level : Level} (lhs rhs : Expr)
    (found : op.level? = some level) : (Expr.binary op lhs rhs).rank = level.rank := by
  simp [rank, found]

/-- A canonical tree that binds no tighter than a level is an operator of that level. -/
theorem Canonical.eq_binary {e : Expr} {level : Level} (canonical : e.Canonical)
    (same : e.rank = level.rank) :
    ∃ op lhs rhs, e = .binary op lhs rhs ∧ op.level? = some level ∧ level.rank ≤ lhs.rank ∧
      level.rank < rhs.rank ∧ lhs.Canonical ∧ rhs.Canonical := by
  cases e with
  | binary op lhs rhs =>
      obtain ⟨level', found, rest⟩ := canonical
      rw [rank_binary lhs rhs found] at same
      cases Level.rank_inj same
      exact ⟨op, lhs, rhs, rfl, found, rest⟩
  | _ =>
      have := level.rank_lt
      simp only [rank] at same
      omega

end Expr

end Lox
