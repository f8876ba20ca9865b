/-
# Lox.Proofs.Bound -- what the bound on the height of trees rejects

Two mechanisms keep trees low: a node that would be too high is refused when it is put
together, and an operand for which no level is left is refused before it is read.  Compared
with reading within a larger bound, and with more levels left, they change nothing but this:
a reading may fail because the tree is too deep, and if it does where the larger bound gives a
tree, then that tree is too high.

`Narrowed` is this relation between two outcomes.  `Narrowed.andThen` carries it along a
reading that goes on from what was read before, and every function that reads expressions
keeps it.  The larger reading may have any number of levels left, so the same
relation says that the refusal up front never rejects a tree that is low enough.
-/
import Lox.Proofs.Outcome

namespace Lox.Parse

set_option autoImplicit false

/-- How a reading within `bound` and with `room` levels left compares with one within a larger
bound and with more levels: it comes to the same, or it fails because the tree is too deep,
and any tree that the larger reading gives is higher than the room. -/
inductive Narrowed (bound room : Nat) : Outcome Expr → Outcome Expr → Prop
  | same {came : Outcome Expr} (low : ∀ e rest, came = .ok (e, rest) → e.height ≤ bound) :
      Narrowed bound room came came
  | refused {refusal : Refusal} {large : Outcome Expr} (deep : refusal.problem = .tooDeep)
      (high : ∀ e rest, large = .ok (e, rest) → room < e.height) :
      Narrowed bound room (.error refusal) large

/-- The larger of two readers compares so with the smaller on all tokens. -/
def Narrows (bound room : Nat) (small large : Reader Expr) : Prop :=
  ∀ tokens, Narrowed bound room (outcome (small tokens)) (outcome (large tokens))

theorem narrowed_error {bound room : Nat} (refusal : Refusal) :
    Narrowed bound room (.error refusal) (.error refusal) := by
  apply Narrowed.same
  intro e rest done
  cases done

/-- What the smaller reading gives is within its bound. -/
theorem Narrowed.low {bound room : Nat} {small large : Outcome Expr} {e : Expr}
    {rest : List Token} (compared : Narrowed bound room small large)
    (done : small = .ok (e, rest)) : e.height ≤ bound := by
  cases compared with
  | same low => exact low e rest done
  | refused => cases done

/-- Going on from two outcomes that compare so: what comes of the same tree is to compare with
the new room, and what comes of a tree higher than the old room is to be higher than the new. -/
theorem Narrowed.andThen {bound room room' : Nat} {small large : Outcome Expr}
    (compared : Narrowed bound room small large) {next next' : Expr → List Token → Outcome Expr}
    (go : ∀ e rest, small = .ok (e, rest) → Narrowed bound room' (next e rest) (next' e rest))
    (higher : ∀ e rest e' rest', next' e rest = .ok (e', rest') → room < e.height →
      room' < e'.height) :
    Narrowed bound room' (small.andThen next) (large.andThen next') := by
  cases compared with
  | same low =>
      cases small with
      | error refusal => exact narrowed_error refusal
      | ok read => exact go read.1 read.2 rfl
  | refused deep high =>
      apply Narrowed.refused deep
      intro e rest done
      obtain ⟨made, beyond, came, done⟩ := Outcome.andThen_eq_ok done
      exact higher made beyond e rest done (high made beyond came)

/-- A node within two bounds. -/
theorem capped_narrowed {bound large room : Nat} (le : bound ≤ large) (enough : room ≤ bound)
    (site : List Token) (e : Expr) (rest : List Token) :
    Narrowed bound room (capped bound site e rest) (capped large site e rest) := by
  by_cases low : e.height ≤ bound
  · rw [capped_of_le low, capped_of_le (Nat.le_trans low le)]
    apply Narrowed.same
    intro e' rest' done
    cases done
    exact low
  · rw [capped, if_neg low]
    by_cases within : e.height ≤ large
    · rw [capped_of_le within]
      apply Narrowed.refused rfl
      intro e' rest' done
      cases done
      omega
    · rw [capped, if_neg within]
      exact narrowed_error _

/-! ## Operators -/

section Fold

variable {bound large room : Nat} {level : Level} {operand operand' : Reader Expr}

/-- A tree that is folded onto a left operand is no lower than it. -/
theorem le_height_of_foldFrom {left e : Expr} {next rest : List Token}
    (done : foldFrom bound level operand left next = .ok (e, rest)) : left.height ≤ e.height := by
  induction next using fold_induction level operand generalizing left with
  | stop other =>
      rw [foldFrom_of_level?_ne left other] at done
      cases done
      exact Nat.le_refl _
  | turn found ih =>
      rw [foldFrom_cons left _ found] at done
      obtain ⟨right, beyond, readRight, joined⟩ := Outcome.andThen_eq_ok done
      obtain ⟨node, beyond', isCapped, folded⟩ := Outcome.andThen_eq_ok joined
      obtain ⟨rfl, rfl, -⟩ := capped_eq_ok isCapped
      have := ih right beyond' readRight folded
      simp only [Expr.height] at this
      omega

/-- Each turn of the fold reads a right operand, and then goes on from a node over it.  A node
between the bounds makes a difference, and all that is folded onto it is as high. -/
theorem foldFrom_narrowed (le : bound ≤ large) (enough : room ≤ bound)
    (narrows : Narrows bound room operand operand') {left : Expr} (low : left.height ≤ bound)
    (next : List Token) :
    Narrowed bound room (foldFrom bound level operand left next)
      (foldFrom large level operand' left next) := by
  induction next using fold_induction level operand generalizing left with
  | stop other =>
      rw [foldFrom_of_level?_ne left other, foldFrom_of_level?_ne left other]
      apply Narrowed.same
      intro e rest done
      cases done
      exact low
  | @turn op next found ih =>
      rw [foldFrom_cons left next found, foldFrom_cons left next found]
      apply (narrows next).andThen
      · intro right beyond readRight
        apply (capped_narrowed le enough _ _ _).andThen
        · intro node beyond' isCapped
          obtain ⟨rfl, rfl, low⟩ := capped_eq_ok isCapped
          exact ih right beyond' readRight low
        · intro node beyond' e rest folded high
          exact Nat.lt_of_lt_of_le high (le_height_of_foldFrom folded)
      · intro right beyond e rest joined high
        obtain ⟨node, beyond', isCapped, folded⟩ := Outcome.andThen_eq_ok joined
        obtain ⟨rfl, rfl, -⟩ := capped_eq_ok isCapped
        have := le_height_of_foldFrom folded
        simp only [Expr.height] at this
        omega

theorem leftAssociative_narrows (level : Level) (le : bound ≤ large) (enough : room ≤ bound)
    (narrows : Narrows bound room operand operand') :
    Narrows bound room (leftAssociative bound level operand)
      (leftAssociative large level operand') := by
  intro tokens
  rw [outcome_leftAssociative, outcome_leftAssociative]
  apply (narrows tokens).andThen
  · intro left next readLeft
    exact foldFrom_narrowed le enough narrows ((narrows tokens).low readLeft) next
  · intro left next e rest folded high
    exact Nat.lt_of_lt_of_le high (le_height_of_foldFrom folded)

theorem levels_narrows (le : bound ≤ large) (enough : room ≤ bound)
    (narrows : Narrows bound room operand operand') :
    Narrows bound room (levels bound operand) (levels large operand') :=
  leftAssociative_narrows .equality le enough <|
    leftAssociative_narrows .comparison le enough <|
      leftAssociative_narrows .term le enough <|
        leftAssociative_narrows .factor le enough narrows

end Fold

/-! ## Operands -/

section Operands

variable {bound large room : Nat}

theorem closing_narrowed (le : bound ≤ large) (enough : room ≤ bound) (inner : Expr)
    (next : List Token) :
    Narrowed bound room (closing bound inner next) (closing large inner next) := by
  cases next with
  | nil => exact narrowed_error _
  | cons t next =>
      rw [closing, closing]
      split
      · exact capped_narrowed le enough ..
      · exact narrowed_error _

theorem height_of_closing {inner e : Expr} {next rest : List Token}
    (done : closing bound inner next = .ok (e, rest)) : e.height = inner.height + 1 := by
  cases next with
  | nil => cases done
  | cons t next =>
      rw [closing] at done
      split at done
      · obtain ⟨rfl, -, -⟩ := capped_eq_ok done
        rfl
      · cases done

theorem operand_narrows (le : bound ≤ large) (enough : room + 1 ≤ bound)
    {deeper deeper' : Reader Expr} (narrows : Narrows bound room deeper deeper') :
    Narrows bound (room + 1) (operand bound deeper) (operand large deeper') := by
  intro tokens
  cases tokens with
  | nil => exact narrowed_error _
  | cons t rest =>
      rw [outcome_operand_cons, outcome_operand_cons]
      split
      · apply (narrows rest).andThen
        · intro arg beyond _
          exact capped_narrowed le enough ..
        · intro arg beyond e rest' done high
          obtain ⟨rfl, -, -⟩ := capped_eq_ok done
          exact Nat.succ_lt_succ high
      · split
        · apply Narrowed.same
          intro e rest' done
          cases done
          exact Nat.le_trans (Nat.succ_le_succ room.zero_le) enough
        · split
          · apply (levels_narrows le (Nat.le_of_succ_le enough) narrows rest).andThen
            · intro inner beyond _
              exact closing_narrowed le enough ..
            · intro inner beyond e rest' done high
              rw [height_of_closing done]
              exact Nat.succ_lt_succ high
          · exact narrowed_error _

/-- Fewer levels left within a smaller bound. -/
theorem operandWithin_narrows (le : bound ≤ large) (enough : room ≤ bound) {levelsLeft : Nat}
    (fewer : room ≤ levelsLeft) :
    Narrows bound room (operandWithin bound room) (operandWithin large levelsLeft) := by
  induction room generalizing levelsLeft with
  | zero =>
      intro tokens
      apply Narrowed.refused rfl
      intro e rest _
      exact e.height_pos
  | succ room ih =>
      cases levelsLeft with
      | zero => cases fewer
      | succ levelsLeft =>
          exact operand_narrows le enough
            (ih (Nat.le_of_succ_le enough) (Nat.le_of_succ_le_succ fewer))

end Operands

/-! ## Expressions -/

/-- Expressions within a bound, compared with a larger bound and any number of levels. -/
theorem expression_narrows {bound large levelsLeft : Nat} (le : bound ≤ large)
    (fewer : bound ≤ levelsLeft) :
    Narrows bound bound (expression bound) (levels large (operandWithin large levelsLeft)) :=
  levels_narrows le (Nat.le_refl _) (operandWithin_narrows le (Nat.le_refl _) fewer)

theorem height_le_of_expression {bound : Nat} {tokens rest : List Token} {e : Expr}
    (done : outcome (expression bound tokens) = .ok (e, rest)) : e.height ≤ bound :=
  (expression_narrows (Nat.le_refl bound) (Nat.le_refl bound) tokens).low done

section Compared

variable {bound room : Nat} {small large : Outcome Expr} {e : Expr} {rest : List Token}

theorem Narrowed.eq_of_ok (compared : Narrowed bound room small large)
    (done : small = .ok (e, rest)) : large = .ok (e, rest) := by
  cases compared with
  | same => exact done
  | refused => cases done

theorem Narrowed.eq_of_low (compared : Narrowed bound room small large)
    (done : large = .ok (e, rest)) (low : e.height ≤ room) : small = .ok (e, rest) := by
  cases compared with
  | same => exact done
  | refused deep high => exact absurd low (Nat.not_le.2 (high e rest done))

theorem Narrowed.deep_of_high (compared : Narrowed bound room small large)
    (done : large = .ok (e, rest)) (high : bound < e.height) :
    ∃ refusal, small = .error refusal ∧ refusal.problem = .tooDeep := by
  cases compared with
  | same low => exact absurd high (Nat.not_lt.2 (low e rest done))
  | refused deep high => exact ⟨_, rfl, deep⟩

theorem Narrowed.eq_or_deep (compared : Narrowed bound room small large) {refusal : Refusal}
    (refused : large = .error refusal) :
    small = .error refusal ∨
      ∃ refusal', small = .error refusal' ∧ refusal'.problem = .tooDeep := by
  cases compared with
  | same => exact .inl refused
  | refused deep high => exact .inr ⟨_, rfl, deep⟩

/-- The refusal up front rejects no tree that is low enough: what can be read with any number
of levels left can be read with as many as the bound allows. -/
theorem expression_of_levels {levelsLeft : Nat} {tokens : List Token}
    (done : outcome (levels bound (operandWithin bound levelsLeft) tokens) = .ok (e, rest))
    (low : e.height ≤ bound) : outcome (expression bound tokens) = .ok (e, rest) := by
  obtain more | fewer := Nat.le_total bound levelsLeft
  · exact (expression_narrows (Nat.le_refl bound) more tokens).eq_of_low done low
  · have narrows := operandWithin_narrows (Nat.le_refl bound) fewer fewer
    exact (levels_narrows (Nat.le_refl bound) fewer narrows tokens).eq_of_ok done

end Compared

end Lox.Parse

namespace Lox.Parser

open Parse

/-- The parser with another bound. -/
def withBound (p : Parser) (bound : Nat) : Parser :=
  { p with bound }

/-- The answer that the tree is too deep. -/
def SaysTooDeep (answer : Except Rejection Expr × Parser) : Prop :=
  ∃ rejection q, answer = (.error rejection, q) ∧
    rejection.problem.message = "Expression nesting too deep."

theorem expr_saysTooDeep {p : Parser} {bound : Nat} {refusal : Refusal}
    (refused : outcome (expression bound p.ahead) = .error refusal)
    (deep : refusal.problem = .tooDeep) : SaysTooDeep (p.withBound bound).expr :=
  ⟨_, _, read_of_error refused, by rw [reject, deep]; rfl⟩

/-- **The bound rejects the trees that are too high and changes nothing else.**  For bounds
`m ≤ M`: what is read is no higher than its bound; a tree within `M` that is low enough is
read just so within `m`, and one that is too high is said to be too deep; what cannot be read
within `M` is rejected within `m` at the same token and with the same words, or said to be too
deep.  And whatever could be read with any other number of levels left is read, if it is low
enough. -/
theorem expr_withBound (p : Parser) {m M : Nat} (le : m ≤ M) :
    (∀ e q, (p.withBound m).expr = (.ok e, q) → e.height ≤ m) ∧
      (∀ e q, (p.withBound M).expr = (.ok e, q) → e.height ≤ M) ∧
      (∀ e q, (p.withBound M).expr = (.ok e, q) → e.height ≤ m →
        (p.withBound m).expr = (.ok e, q.withBound m) ∧ q.reported = p.reported) ∧
      (∀ e q, (p.withBound M).expr = (.ok e, q) → m < e.height →
        SaysTooDeep (p.withBound m).expr) ∧
      (∀ rejection q, (p.withBound M).expr = (.error rejection, q) →
        (p.withBound m).expr = (.error rejection, q.withBound m) ∨
          SaysTooDeep (p.withBound m).expr) ∧
      ∀ levelsLeft e q,
        (p.withBound m).read (levels m (operandWithin m levelsLeft)) = (.ok e, q) →
          e.height ≤ m → (p.withBound m).expr = (.ok e, q) := by
  have compared := expression_narrows le le p.ahead
  refine ⟨?_, ?_, ?_, ?_, ?_, ?_⟩
  · intro e q done
    obtain ⟨rest, came, -⟩ := read_eq_ok_iff.1 done
    exact height_le_of_expression came
  · intro e q done
    obtain ⟨rest, came, -⟩ := read_eq_ok_iff.1 done
    exact height_le_of_expression came
  · intro e q done low
    obtain ⟨rest, came, rfl⟩ := read_eq_ok_iff.1 done
    exact ⟨read_of_ok (compared.eq_of_low came low), rfl⟩
  · intro e q done high
    obtain ⟨rest, came, -⟩ := read_eq_ok_iff.1 done
    obtain ⟨refusal, refused, deep⟩ := compared.deep_of_high came high
    exact expr_saysTooDeep refused deep
  · intro rejection q done
    obtain ⟨refusal, came, rfl, rfl⟩ := read_eq_error_iff.1 done
    obtain same | ⟨refusal', refused, deep⟩ := compared.eq_or_deep came
    · exact .inl (read_of_error same)
    · exact .inr (expr_saysTooDeep refused deep)
  · intro levelsLeft e q done low
    obtain ⟨rest, came, rfl⟩ := read_eq_ok_iff.1 done
    exact read_of_ok (expression_of_levels came low)

/-- `!true == false;`, a tree of three levels. -/
def comparison : Parser :=
  .ofTokens [.fixed (.symbol .bang) 1, .fixed (.keyword .trueWord) 1,
    .fixed (.symbol .equalEqual) 1, .fixed (.keyword .falseWord) 1, .fixed (.symbol .semicolon) 1]

/-- Three levels are read within a bound of three and are too deep for a bound of two. -/
theorem expr_withBound_comparison :
    2 ≤ 3 ∧ (∃ e q, (comparison.withBound 3).expr = (.ok e, q) ∧ e.height = 3) ∧
      SaysTooDeep (comparison.withBound 2).expr := by
  have read : (comparison.withBound 3).expr =
      (.ok (.binary (.fixed (.symbol .equalEqual) 1)
          (.unary (.fixed (.symbol .bang) 1) (.literal (.boolean true)))
          (.literal (.boolean false))),
        { comparison with ahead := [.fixed (.symbol .semicolon) 1], bound := 3 }) := by
    cbv
  obtain ⟨-, -, -, tooHigh, -⟩ := expr_withBound comparison (m := 2) (M := 3) (by decide)
  exact ⟨by decide, ⟨_, _, read, by decide⟩, tooHigh _ _ read (by decide)⟩

end Lox.Parser
