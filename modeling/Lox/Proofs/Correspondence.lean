/-
# Lox.Proofs.Correspondence -- parsing looks at the kinds of tokens only

Take two sequences of tokens which correspond one by one, where corresponding tokens have the
same kind.  Whatever is read from one of them corresponds to what is read from the other: the
trees have the same shape and the same literals, and their operators, the place a problem is
blamed on, and what is left are corresponding tokens.

* `Expr.Alike`, `Stmt.Alike`, `Parse.Attempt.Alike`, `Parse.Outcome.Alike` -- what it is for
  two of each to correspond.
* `Parse.Outcome.Alike.andThen` -- readings that go on from what was read before.
* `Parse.attempts_alike` -- the attempts that read a program.
-/
import Mathlib.Data.List.Forall2
import Lox.Proofs.Outcome

namespace Lox

set_option autoImplicit false

/-! ## What corresponds -/

/-- Two trees of one shape with the same literals and with operators that correspond. -/
inductive Expr.Alike (R : Token → Token → Prop) : Expr → Expr → Prop
  | literal {value : Value} : Alike R (.literal value) (.literal value)
  | grouping {inner inner' : Expr} (inside : Alike R inner inner') :
      Alike R (.grouping inner) (.grouping inner')
  | unary {op op' : Token} {arg arg' : Expr} (operator : R op op') (operand : Alike R arg arg') :
      Alike R (.unary op arg) (.unary op' arg')
  | binary {op op' : Token} {lhs lhs' rhs rhs' : Expr} (operator : R op op')
      (left : Alike R lhs lhs') (right : Alike R rhs rhs') :
      Alike R (.binary op lhs rhs) (.binary op' lhs' rhs')

theorem Expr.Alike.height_eq {R : Token → Token → Prop} {e e' : Expr} (alike : e.Alike R e') :
    e.height = e'.height := by
  induction alike with
  | literal => rfl
  | grouping _ ih | unary _ _ ih => simp [height, ih]
  | binary _ _ _ ihLeft ihRight => simp [height, ihLeft, ihRight]

/-- Two statements of one form whose trees correspond. -/
inductive Stmt.Alike (R : Token → Token → Prop) : Stmt → Stmt → Prop
  | print {e e' : Expr} (tree : e.Alike R e') : Alike R (.print e) (.print e')
  | expression {e e' : Expr} (tree : e.Alike R e') : Alike R (.expression e) (.expression e')

namespace Parse

/-- Two attempts that succeed alike, or that fail for the same problem at corresponding
places. -/
inductive Attempt.Alike (R : Token → Token → Prop) : Attempt → Attempt → Prop
  | done {stmt stmt' : Stmt} (read : stmt.Alike R stmt') : Alike R (.done stmt) (.done stmt')
  | failed {problem : Problem} {site site' : List Token} (blamed : List.Forall₂ R site site') :
      Alike R (.failed problem site) (.failed problem site')

/-- Two readings that come to values which correspond by `S` and leave corresponding tokens, or
to the same problem at corresponding places. -/
inductive Outcome.Alike (R : Token → Token → Prop) {α : Type} (S : α → α → Prop) :
    Outcome α → Outcome α → Prop
  | ok {value value' : α} {rest rest' : List Token} (read : S value value')
      (left : List.Forall₂ R rest rest') : Alike R S (.ok (value, rest)) (.ok (value', rest'))
  | error {problem : Problem} {site site' stop stop' : List Token}
      (blamed : List.Forall₂ R site site') (left : List.Forall₂ R stop stop') :
      Alike R S (.error ⟨problem, site, stop⟩) (.error ⟨problem, site', stop'⟩)

variable {R : Token → Token → Prop}

/-- What the reader comes to on corresponding tokens corresponds. -/
def Respects (R : Token → Token → Prop) {α : Type} (S : α → α → Prop) (reader : Reader α) : Prop :=
  ∀ {tokens tokens'}, List.Forall₂ R tokens tokens' →
    Outcome.Alike R S (outcome (reader tokens)) (outcome (reader tokens'))

/-- Going on from two readings that correspond. -/
theorem Outcome.Alike.andThen {α β : Type} {S : α → α → Prop} {T : β → β → Prop}
    {came came' : Outcome α} (alike : Outcome.Alike R S came came')
    {next next' : α → List Token → Outcome β}
    (go : ∀ {value value' rest rest'}, came = .ok (value, rest) → S value value' →
      List.Forall₂ R rest rest' → Outcome.Alike R T (next value rest) (next' value' rest')) :
    Outcome.Alike R T (came.andThen next) (came'.andThen next') := by
  cases alike with
  | ok read left => exact go rfl read left
  | error blamed left => exact .error blamed left

section Kinds

variable {bound : Nat} {reader : Reader Expr}

theorem capped_alike {site site' rest rest' : List Token} {e e' : Expr} (tree : e.Alike R e')
    (blamed : List.Forall₂ R site site') (left : List.Forall₂ R rest rest') :
    Outcome.Alike R (Expr.Alike R) (capped bound site e rest) (capped bound site' e' rest') := by
  unfold capped
  rw [tree.height_eq]
  split
  · exact .ok tree left
  · exact .error blamed left

/-! ## Expressions

From here on corresponding tokens have the same kind. -/

variable (kinds : ∀ {t t'}, R t t' → t.kind = t'.kind)

include kinds

theorem level?_eq {t t' : Token} (same : R t t') : t.level? = t'.level? := by
  simp only [Token.level?, kinds same]

theorem is_eq {t t' : Token} (same : R t t') (s : Symbol) : t.is s = t'.is s := by
  simp only [Token.is, kinds same]

theorem isUnary_eq {t t' : Token} (same : R t t') : t.isUnary = t'.isUnary := by
  simp only [Token.isUnary, is_eq kinds same]

theorem foldFrom_alike {level : Level} (respects : Respects R (Expr.Alike R) reader)
    {left left' : Expr} (tree : left.Alike R left') {next next' : List Token}
    (ahead : List.Forall₂ R next next') :
    Outcome.Alike R (Expr.Alike R) (foldFrom bound level reader left next)
      (foldFrom bound level reader left' next') := by
  induction next using fold_induction level reader generalizing left left' next' with
  | @stop next other =>
      have other' : ∀ op ∈ next'.head?, op.level? ≠ some level := by
        cases ahead with
        | nil => exact other
        | cons same _ =>
            rintro _ ⟨⟩
            rw [← level?_eq kinds same]
            exact other _ rfl
      rw [foldFrom_of_level?_ne left other, foldFrom_of_level?_ne left' other']
      exact .ok tree ahead
  | @turn op next found ih =>
      cases ahead with
      | cons same others =>
          have found' := (level?_eq kinds same).symm.trans found
          rw [foldFrom_cons left next found, foldFrom_cons left' _ found']
          apply (respects others).andThen
          intro right right' beyond beyond' readRight operand behind
          apply (capped_alike (.binary same tree operand) (.cons same others) behind).andThen
          intro node node' rest rest' isCapped joined left
          obtain ⟨rfl, rfl, -⟩ := capped_eq_ok isCapped
          exact ih right rest readRight joined left

theorem leftAssociative_respects (level : Level) (respects : Respects R (Expr.Alike R) reader) :
    Respects R (Expr.Alike R) (leftAssociative bound level reader) := by
  intro tokens tokens' ahead
  rw [outcome_leftAssociative, outcome_leftAssociative]
  apply (respects ahead).andThen
  intro left left' rest rest' _ tree behind
  exact foldFrom_alike kinds respects tree behind

theorem levels_respects (respects : Respects R (Expr.Alike R) reader) :
    Respects R (Expr.Alike R) (levels bound reader) :=
  leftAssociative_respects kinds .equality <|
    leftAssociative_respects kinds .comparison <|
      leftAssociative_respects kinds .term <|
        leftAssociative_respects kinds .factor respects

theorem closing_alike {inner inner' : Expr} (tree : inner.Alike R inner') {next next' : List Token}
    (ahead : List.Forall₂ R next next') :
    Outcome.Alike R (Expr.Alike R) (closing bound inner next) (closing bound inner' next') := by
  cases ahead with
  | nil => exact .error .nil .nil
  | cons same others =>
      rw [closing, closing, is_eq kinds same]
      split
      · exact capped_alike (.grouping tree) (.cons same others) others
      · exact .error (.cons same others) (.cons same others)

theorem operand_respects (respects : Respects R (Expr.Alike R) reader) :
    Respects R (Expr.Alike R) (operand bound reader) := by
  intro tokens tokens' ahead
  cases ahead with
  | nil => exact .error .nil .nil
  | cons same others =>
      rw [outcome_operand_cons, outcome_operand_cons, isUnary_eq kinds same, kinds same,
        is_eq kinds same]
      split
      · apply (respects others).andThen
        intro arg arg' rest rest' _ tree left
        exact capped_alike (.unary same tree) (.cons same others) left
      · split
        · exact .ok .literal others
        · split
          · apply (levels_respects kinds respects others).andThen
            intro inner inner' rest rest' _ tree left
            exact closing_alike kinds tree left
          · exact .error (.cons same others) (.cons same others)

theorem operandWithin_respects (room : Nat) :
    Respects R (Expr.Alike R) (operandWithin bound room) := by
  induction room with
  | zero => exact fun ahead => .error ahead ahead
  | succ room ih => exact operand_respects kinds ih

theorem expression_respects : Respects R (Expr.Alike R) (expression bound) :=
  levels_respects kinds (operandWithin_respects kinds bound)

/-! ## Statements -/

theorem closedBy_alike {α : Type} {S : α → α → Prop} (s : Symbol) (otherwise : Problem)
    {value value' : α} (read : S value value') {next next' : List Token}
    (ahead : List.Forall₂ R next next') :
    Outcome.Alike R S (closedBy s otherwise value next) (closedBy s otherwise value' next') := by
  cases ahead with
  | nil => exact .error .nil .nil
  | cons same others =>
      rw [closedBy, closedBy, is_eq kinds same]
      split
      · exact .ok read others
      · exact .error (.cons same others) (.cons same others)

theorem terminated_respects {make : Expr → Stmt} (makes : ∀ {e e'}, e.Alike R e' →
    (make e).Alike R (make e')) (missing : Problem) :
    Respects R (Stmt.Alike R) (terminated bound make missing) := by
  intro tokens tokens' ahead
  rw [outcome_terminated, outcome_terminated]
  apply (expression_respects kinds ahead).andThen
  intro e e' rest rest' _ tree left
  exact closedBy_alike kinds _ _ (makes tree) left

theorem statement_respects : Respects R (Stmt.Alike R) (statement bound) := by
  intro tokens tokens' ahead
  cases ahead with
  | nil => exact terminated_respects kinds .expression _ .nil
  | cons same others =>
      rw [outcome_statement_cons, outcome_statement_cons, kinds same]
      split
      · exact terminated_respects kinds .print _ others
      · exact terminated_respects kinds .expression _ (.cons same others)

/-! ## Programs -/

theorem recover_forall₂ {tokens tokens' : List Token} (ahead : List.Forall₂ R tokens tokens') :
    List.Forall₂ R (recover tokens) (recover tokens') := by
  induction ahead with
  | nil => exact .nil
  | @cons t t' rest rest' same others ih =>
      have starts : rest.head?.any (·.kind.startsStatement) =
          rest'.head?.any (·.kind.startsStatement) := by
        cases others with
        | nil => rfl
        | cons same _ => simp [kinds same]
      rw [recover, recover, is_eq kinds same, starts]
      split
      · exact others
      · exact ih

/-- Corresponding tokens are read by corresponding attempts. -/
theorem attempts_alike {tokens tokens' : List Token} (ahead : List.Forall₂ R tokens tokens') :
    List.Forall₂ (Attempt.Alike R) (attempts bound tokens) (attempts bound tokens') := by
  induction tokens using attempts_induction bound generalizing tokens' with
  | nil =>
      cases ahead
      rw [attempts_nil]
      exact .nil
  | ok came _ ih =>
      have alike := @statement_respects _ bound kinds _ _ ahead
      rw [came] at alike
      generalize came' : outcome (statement bound tokens') = outcome' at alike
      cases alike with
      | ok read left =>
          rw [attempts_of_ok came, attempts_of_ok came']
          exact .cons (.done read) (ih left)
  | error some came _ ih =>
      -- Both fail, and recovery skips corresponding tokens, whose kinds alone it looks at.
      have alike := @statement_respects _ bound kinds _ _ ahead
      rw [came] at alike
      generalize came' : outcome (statement bound tokens') = outcome' at alike
      cases alike with
      | error blamed left =>
          have some' : tokens' ≠ [] := by
            rintro rfl
            cases ahead
            exact some rfl
          rw [attempts_of_error some came, attempts_of_error some' came']
          exact .cons (.failed blamed) (ih (recover_forall₂ kinds left))

end Kinds

end Parse

end Lox
