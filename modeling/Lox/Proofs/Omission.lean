/-
# Lox.Proofs.Omission -- what is lost behind a semicolon that was left out

Where a semicolon is left out in front of a `print` statement, the word `print` is where the fault
is met, and it is also where the next statement begins.  Recovery takes the first for granted and
misses the second: it passes over the word before it looks for a place to go on.  So the fault
takes the statement behind it along.  A statement that is in order is lost, and if there is
something wrong with it, that may not be told.

* `Token.Inner` -- tokens at which recovery does not stop; those of an expression are such.
* `Stmt.Unfinished` -- a statement but for its semicolon, and the problem to which that amounts.
* `Parse.recover_of_sentence` -- recovery at a statement goes on behind it.
* `Parser.program_unfinished` -- programs where a semicolon is left out in front of `print`.
-/
import Lox.Proofs.Reporting

namespace Lox

set_option autoImplicit false

/-! ## Tokens inside of statements -/

/-- The token neither ends the input or a statement nor is a word that starts one. -/
structure Token.Inner (t : Token) : Prop where
  isEof : t.isEof = false
  semicolon : t.is .semicolon = false
  startsStatement : t.kind.startsStatement = false

theorem Token.Inner.of_symbol {t : Token} {s : Symbol} (kind : t.kind = .symbol s)
    (other : s ≠ .semicolon) : t.Inner where
  isEof := by simp [Token.isEof, kind]
  semicolon := by simp [is, kind, other]
  startsStatement := by rw [kind]; rfl

/-- A word that is a value starts no statement. -/
theorem Token.Inner.of_value? {t : Token} {value : Value} (denotes : t.kind.value? = some value) :
    t.Inner := by
  have isEof : t.isEof = false := by
    rw [Token.isEof, beq_eq_false_iff_ne]
    intro kind
    rw [kind] at denotes
    cases denotes
  have semicolon : t.is .semicolon = false :=
    Bool.eq_false_iff.2 fun is => not_symbol_of_value? denotes _ (is_iff.1 is)
  refine ⟨isEof, semicolon, ?_⟩
  cases kind : t.kind with
  | keyword k =>
      rw [kind] at denotes
      cases k <;> first | rfl | cases denotes
  | _ => rfl

theorem Token.Inner.of_isUnary {t : Token} (unary : t.isUnary = true) : t.Inner := by
  rcases isUnary_iff.1 unary with kind | kind
  · exact .of_symbol kind (by decide)
  · exact .of_symbol kind (by decide)

theorem Token.Inner.of_level? {t : Token} {level : Level} (found : t.level? = some level) :
    t.Inner := by
  obtain ⟨s, kind⟩ := exists_symbol_of_level? (Option.isSome_of_mem found)
  refine .of_symbol kind ?_
  rintro rfl
  rw [level?_of_kind kind] at found
  cases found

/-- The tokens of an expression are inside of its statement. -/
theorem Expr.Yields.inner {e : Expr} {tokens : List Token} (yields : e.Yields tokens)
    (canonical : e.Canonical) : ∀ t ∈ tokens, t.Inner := by
  induction yields with
  | literal denotes => exact List.forall_mem_singleton.2 (.of_value? denotes)
  | grouping opens _ closes ih =>
      have opening := Token.Inner.of_symbol (Token.is_iff.1 opens) (by decide)
      have closing := Token.Inner.of_symbol (Token.is_iff.1 closes) (by decide)
      have inside := List.forall_mem_append.2 ⟨ih canonical, List.forall_mem_singleton.2 closing⟩
      exact List.forall_mem_cons.2 ⟨opening, inside⟩
  | unary _ ih =>
      obtain ⟨unary, -, argCanonical⟩ := canonical
      exact List.forall_mem_cons.2 ⟨.of_isUnary unary, ih argCanonical⟩
  | binary _ _ left right =>
      obtain ⟨level, found, -, -, leftCanonical, rightCanonical⟩ := canonical
      have behind := List.forall_mem_cons.2 ⟨.of_level? found, right rightCanonical⟩
      exact List.forall_mem_append.2 ⟨left leftCanonical, behind⟩

/-! ## Recovery at a statement -/

/-- A statement of the grammar within the bound but for its semicolon, and what is wrong with it
where anything else follows. -/
inductive Stmt.Unfinished (bound : Nat) : Problem → List Token → Prop
  | print {e : Expr} {tokens : List Token} {opening : Token}
      (opens : opening.kind = .keyword .printWord) (canonical : e.Canonical)
      (low : e.height ≤ bound) (yields : e.Yields tokens) :
      Unfinished bound .semicolonAfterValueExpected (opening :: tokens)
  | expression {e : Expr} {tokens : List Token} (canonical : e.Canonical)
      (low : e.height ≤ bound) (yields : e.Yields tokens) :
      Unfinished bound .semicolonAfterExpressionExpected tokens

theorem Stmt.Unfinished.isEof {bound : Nat} {problem : Problem} {tokens : List Token}
    (unfinished : Unfinished bound problem tokens) : ∀ t ∈ tokens, t.isEof = false := by
  cases unfinished with
  | print opens canonical low yields =>
      refine List.forall_mem_cons.2 ⟨by simp [Token.isEof, opens], fun t member => ?_⟩
      exact (yields.inner canonical t member).isEof
  | expression canonical low yields =>
      exact fun t member => (yields.inner canonical t member).isEof

namespace Parse

/-- Recovery in front of a statement's last tokens goes on behind its semicolon. -/
theorem recover_of_inner {t closing : Token} {tokens : List Token}
    (starts : t.is .semicolon = false) (inner : ∀ t ∈ tokens, t.Inner)
    (closes : closing.is .semicolon = true) (rest : List Token) :
    recover (t :: (tokens ++ closing :: rest)) = rest := by
  induction tokens generalizing t with
  | nil =>
      have other : closing.kind.startsStatement = false := by
        rw [Token.is_iff.1 closes]
        rfl
      simp [recover, starts, other, closes]
  | cons next tokens ih =>
      obtain ⟨next', tokens'⟩ := List.forall_mem_cons.1 inner
      have passes : (t.is .semicolon || next.kind.startsStatement) = false := by
        simp [starts, next'.startsStatement]
      rw [List.cons_append, recover, List.head?_cons, Option.any_some, passes]
      exact ih next'.semicolon tokens'

/-- Recovery at the word `print` passes over the statement that it starts. -/
theorem recover_of_sentence {bound : Nat} {t : Token} (opens : t.kind = .keyword .printWord)
    {tokens rest : List Token} {stmt : Stmt}
    (came : outcome (statement bound (t :: tokens)) = .ok (stmt, rest)) :
    recover (t :: tokens) = rest := by
  have starts : t.is .semicolon = false := by simp [Token.is, opens]
  rw [outcome_statement_cons, if_pos opens] at came
  obtain ⟨e, read, closing, -, rfl, canonical, -, yields, closes⟩ :=
    outcome_terminated_eq_ok_iff.1 came
  exact recover_of_inner starts (yields.inner canonical) closes rest

/-- An unfinished statement in front of a token that is no operator and no semicolon. -/
theorem outcome_statement_of_unfinished {bound : Nat} {problem : Problem} {tokens : List Token}
    (unfinished : Stmt.Unfinished bound problem tokens) {t : Token}
    (opens : t.kind = .keyword .printWord) (rest : List Token) :
    outcome (statement bound (tokens ++ t :: rest)) = .error ⟨problem, t :: rest, t :: rest⟩ := by
  have ends {e : Expr} {read : List Token} (canonical : e.Canonical) (low : e.height ≤ bound)
      (yields : e.Yields read) (make : Expr → Stmt) (missing : Problem) :
      outcome (terminated bound make missing (read ++ t :: rest)) =
        .error ⟨missing, t :: rest, t :: rest⟩ := by
    have looser : t.level? = none := by simp [Token.level?, opens]
    have done : outcome (expression bound (read ++ t :: rest)) = .ok (e, t :: rest) :=
      outcome_expression_eq_ok_iff.2 ⟨canonical, low, ⟨read, rfl, yields⟩, by simpa using looser⟩
    rw [outcome_terminated, done, Outcome.andThen_ok, closedBy, if_neg (by simp [Token.is, opens])]
  cases unfinished with
  | @print e read opening opens' canonical low yields =>
      rw [List.cons_append, outcome_statement_cons, if_pos opens']
      exact ends canonical low yields _ _
  | @expression e _ canonical low yields =>
      obtain ⟨first, tail, rfl⟩ := List.exists_cons_of_ne_nil yields.ne_nil
      have other := yields.head_kind_ne canonical first rfl
      rw [List.cons_append, outcome_statement_cons, if_neg other]
      exact ends canonical low yields _ _

end Parse

namespace Parser

open Parse

/-- What was reported before a program is read stays in front of what is reported of it. -/
theorem program_reported (p : Parser) (earlier : List Diagnostic) :
    ({ p with reported := earlier } : Parser).program.1 =
        ({ p with reported := [] } : Parser).program.1 ∧
      ({ p with reported := earlier } : Parser).program.2.reported =
        earlier ++ ({ p with reported := [] } : Parser).program.2.reported := by
  rw [program_eq, program_eq]
  exact ⟨rfl, rfl⟩

/-- **A semicolon that is left out in front of `print` takes the statement behind it along.**  An
unfinished statement in front of tokens that begin with the word `print` is reported once, at this
word; then reading goes on at the first place beyond the word where a statement may begin, and not
at the word.  So where a statement of the grammar begins there, all that is read of these tokens
alone is read but for this statement. -/
theorem program_unfinished {bound : Nat} {problem : Problem} {tokens : List Token}
    (unfinished : Stmt.Unfinished bound problem tokens) {t : Token}
    (opens : t.kind = .keyword .printWord) (rest : List Token) :
    let p := ofTokens (t :: rest) bound
    let behind : Parser := { p with ahead := recover p.ahead }
    let whole := (ofTokens (tokens ++ t :: rest) bound).program
    whole.1 = behind.program.1 ∧
      whole.2.reported = t.diagnose problem.message :: behind.program.2.reported ∧
      IsLeast {i | 0 < i ∧ Boundary (completed (t :: rest)) i} (place p.ahead behind.ahead) ∧
      ∀ stmt q, p.stmt = (.ok stmt, q) →
        p.program.1 = stmt :: whole.1 ∧
          whole.2.reported = t.diagnose problem.message :: p.program.2.reported := by
  intro p behind whole
  have inner : t.isEof = false := by simp [Token.isEof, opens]
  obtain ⟨next, ahead⟩ : ∃ next, p.ahead = t :: next :=
    ⟨rest.takeWhile fun t => !t.isEof, by simp [p, ofTokens, inner]⟩
  have start : ofTokens (tokens ++ t :: rest) bound = { p with ahead := tokens ++ p.ahead } := by
    have isEof := unfinished.isEof
    have first := ahead_ofTokens_append (t :: rest) bound isEof
    have last := last_ofTokens_append bound isEof (List.cons_ne_nil t rest)
    exact congrArg₂ (fun ahead last => (⟨ahead, last, bound, []⟩ : Parser)) first last
  have refused : outcome (statement bound (tokens ++ p.ahead)) =
      .error ⟨problem, p.ahead, p.ahead⟩ := by
    rw [ahead]
    exact outcome_statement_of_unfinished unfinished opens next
  have some : tokens ++ p.ahead ≠ [] := by simp [ahead]
  have told : (p.reject problem p.ahead).diagnostic = t.diagnose problem.message := by
    rw [ahead]
    rfl
  have went :
      whole = { behind with reported := [t.diagnose problem.message] : Parser }.program := by
    have stmt := read_of_error (p := { p with ahead := tokens ++ p.ahead }) refused
    rw [← told]
    exact (congrArg program start).trans (program_of_stmt_error some stmt)
  obtain ⟨stmts, reported⟩ := program_reported behind [t.diagnose problem.message]
  rw [← went] at stmts reported
  have delimits : Delimits (completed (t :: rest)) p.ahead p.last :=
    delimits_completed (t :: rest) bound
  refine ⟨stmts, reported, ?_, ?_⟩
  · have least := delimits.recover_isLeast List.suffix_rfl (by simp [ahead])
    rwa [show place p.ahead p.ahead = 0 from Nat.sub_self _] at least
  · intro stmt q came
    obtain ⟨rest', read, left⟩ := read_eq_ok_iff.1 came
    have same : recover p.ahead = rest' := by
      rw [ahead] at read ⊢
      exact recover_of_sentence opens read
    have next : q = behind :=
      left.trans (congrArg (fun ahead => ({ p with ahead } : Parser)) same.symm)
    rw [program_of_stmt_ok came, stmts, reported, next]
    exact ⟨rfl, rfl⟩

/-- A `print` statement in order, and one of nothing. -/
def printNil : List Token :=
  [.fixed (.keyword .printWord) 1, .fixed (.keyword .nilWord) 1, .fixed (.symbol .semicolon) 1]

def printNothing : List Token :=
  [.fixed (.keyword .printWord) 1, .fixed (.symbol .semicolon) 1]

/-- Between two `print` statements a semicolon is left out: neither is read. -/
theorem program_unfinished_printNil :
    Stmt.Unfinished 1 .semicolonAfterValueExpected (printNil.take 2) ∧
      (ofTokens (printNil.take 2 ++ printNil) 1).program.1 = [] ∧
      (ofTokens (printNil.take 2 ++ printNil) 1).program.2.reported =
        [⟨1, .atLexeme "print", "Expect ';' after value."⟩] := by
  have unfinished : Stmt.Unfinished 1 .semicolonAfterValueExpected (printNil.take 2) :=
    Stmt.Unfinished.print (e := .literal .nil) rfl trivial (Nat.le_refl 1) (.literal rfl)
  obtain ⟨stmts, reported, -⟩ :=
    program_unfinished (t := .fixed (.keyword .printWord) 1) unfinished rfl (printNil.drop 1)
  exact ⟨unfinished, stmts.trans (by cbv), reported.trans (by cbv)⟩

/-- Behind an expression without its semicolon a statement in order is not read, though it is
alone, and the fault of one that is not in order is not reported, though it is alone. -/
theorem program_loses_after_nil :
    let word : Token := .fixed (.keyword .nilWord) 1
    let behind := [⟨1, .atLexeme "print", "Expect ';' after expression."⟩]
    (Expr.literal .nil).Canonical ∧ (Expr.literal .nil).height ≤ 1 ∧
      (Expr.literal .nil).Yields [word] ∧
      (ofTokens printNil 1).program.1 = [.print (.literal .nil)] ∧
      (ofTokens printNil 1).program.2.reported = [] ∧
      (ofTokens (word :: printNil) 1).program.1 = [] ∧
      (ofTokens (word :: printNil) 1).program.2.reported = behind ∧
      (ofTokens printNothing 1).program.2.reported =
        [⟨1, .atLexeme ";", "Expect expression."⟩] ∧
      (ofTokens (word :: printNothing) 1).program.2.reported = behind := by
  refine ⟨trivial, Nat.le_refl 1, .literal rfl, ?_⟩
  cbv

end Parser

end Lox
