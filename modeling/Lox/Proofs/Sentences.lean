/-
# Lox.Proofs.Sentences -- which tokens are a program

The grammar of programs is a statement after the other, each of them an expression within the
bound, perhaps after the word `print`, and a semicolon.  Reading a program reports nothing
exactly if its tokens are such, and where something is reported the statements still read are
stretches of the tokens that do not overlap.

* `Stmt.Yields` -- a statement written as tokens.
* `Stmt.Sentence`, `Stmt.Sentences` -- a statement of the grammar within a bound with the
  tokens that write it, and several of them one behind the other.
* `Stmt.Scattered` -- the same with other tokens between them.
* `Parse.attempts_eq_map_done_iff`, `Parser.program_eq_iff_sentences` -- what is read.
-/
import Mathlib.Data.List.Basic
import Lox.Proofs.Recognition

namespace Lox

set_option autoImplicit false

/-! ## The grammar of statements -/

namespace Stmt

/-- The statement written as tokens. -/
inductive Yields : Stmt → List Token → Prop
  | print {value : Expr} {tokens : List Token} {opening closing : Token}
      (opens : opening.kind = .keyword .printWord) (yields : value.Yields tokens)
      (closes : closing.is .semicolon = true) :
      Yields (.print value) (opening :: (tokens ++ [closing]))
  | expression {value : Expr} {tokens : List Token} {closing : Token}
      (yields : value.Yields tokens) (closes : closing.is .semicolon = true) :
      Yields (.expression value) (tokens ++ [closing])

/-- A statement of the grammar that is no higher than the bound, and tokens that write it. -/
structure Sentence (bound : Nat) (stmt : Stmt) (tokens : List Token) : Prop where
  canonical : stmt.expr.Canonical
  low : stmt.expr.height ≤ bound
  yields : stmt.Yields tokens

/-- Statements of the grammar written one behind the other. -/
inductive Sentences (bound : Nat) : List Stmt → List Token → Prop
  | nil : Sentences bound [] []
  | cons {stmt : Stmt} {stmts : List Stmt} {read rest : List Token}
      (front : stmt.Sentence bound read) (others : Sentences bound stmts rest) :
      Sentences bound (stmt :: stmts) (read ++ rest)

/-- Statements of the grammar written in this order among the tokens, with any others before,
between and behind them. -/
inductive Scattered (bound : Nat) : List Stmt → List Token → Prop
  | nil {tokens : List Token} : Scattered bound [] tokens
  | cons {stmt : Stmt} {stmts : List Stmt} {gap read rest : List Token}
      (front : stmt.Sentence bound read) (others : Scattered bound stmts rest) :
      Scattered bound (stmt :: stmts) (gap ++ (read ++ rest))

theorem Yields.ne_nil {stmt : Stmt} {tokens : List Token} (yields : stmt.Yields tokens) :
    tokens ≠ [] := by
  cases yields <;> simp

/-- The tokens that write a statement are those of its expression and a few more. -/
theorem Yields.exists_expr {stmt : Stmt} {tokens : List Token} (yields : stmt.Yields tokens) :
    ∃ read, read ⊆ tokens ∧ stmt.expr.Yields read := by
  cases yields with
  | @print _ read opening closing _ yields =>
      exact ⟨read, fun t inside => by simp [inside], yields⟩
  | @expression _ read closing yields =>
      exact ⟨read, List.subset_append_left read [closing], yields⟩

theorem Scattered.behind {bound : Nat} {stmts : List Stmt} {tokens : List Token}
    (scattered : Scattered bound stmts tokens) (more : List Token) :
    Scattered bound stmts (more ++ tokens) := by
  cases scattered with
  | nil => exact .nil
  | cons front others =>
      rw [← List.append_assoc]
      exact .cons front others

theorem Sentences.scattered {bound : Nat} {stmts : List Stmt} {tokens : List Token}
    (sentences : Sentences bound stmts tokens) : Scattered bound stmts tokens := by
  induction sentences with
  | nil => exact .nil
  | cons front _ ih => exact @Scattered.cons bound _ _ [] _ _ front ih

theorem Scattered.exists_sentence {bound : Nat} {stmts : List Stmt} {tokens : List Token}
    (scattered : Scattered bound stmts tokens) {stmt : Stmt} (member : stmt ∈ stmts) :
    ∃ read, read ⊆ tokens ∧ stmt.Sentence bound read := by
  induction scattered with
  | nil => cases member
  | @cons _ _ gap read rest front others ih =>
      rcases List.mem_cons.1 member with rfl | later
      · exact ⟨read, fun t inside => by simp [inside], front⟩
      · obtain ⟨read', within, sentence⟩ := ih later
        exact ⟨read', fun t inside => by simp [within inside], sentence⟩

end Stmt

/-- No expression of the grammar begins with the word that begins a `print` statement. -/
theorem Expr.Yields.head_kind_ne {e : Expr} {tokens : List Token} (yields : e.Yields tokens)
    (canonical : e.Canonical) : ∀ t ∈ tokens.head?, t.kind ≠ .keyword .printWord := by
  induction yields with
  | literal denotes =>
      rintro _ ⟨⟩ kind
      rw [kind] at denotes
      cases denotes
  | grouping opens =>
      rintro _ ⟨⟩ kind
      cases kind.symm.trans (Token.is_iff.1 opens)
  | unary =>
      rintro _ ⟨⟩ kind
      obtain ⟨s, symbol⟩ := Token.exists_symbol_of_isUnary canonical.1
      cases kind.symm.trans symbol
  | binary left right ihLeft =>
      obtain ⟨level, -, -, -, leftCanonical, -⟩ := canonical
      rw [List.head?_append_of_ne_nil _ left.ne_nil]
      exact ihLeft leftCanonical

namespace Parse

open Stmt

/-! ## One statement -/

theorem outcome_terminated_eq_ok_iff {bound : Nat} {make : Expr → Stmt} {missing : Problem}
    {tokens rest : List Token} {stmt : Stmt} :
    outcome (terminated bound make missing tokens) = .ok (stmt, rest) ↔
      ∃ e read t, stmt = make e ∧ tokens = read ++ t :: rest ∧ e.Canonical ∧ e.height ≤ bound ∧
        e.Yields read ∧ t.is .semicolon = true := by
  rw [outcome_terminated]
  constructor
  · intro done
    obtain ⟨e, beyond, read, closed⟩ := Outcome.andThen_eq_ok done
    obtain ⟨canonical, low, ⟨front, rfl, yields⟩, -⟩ := outcome_expression_eq_ok_iff.1 read
    obtain ⟨rfl, t, rfl, semicolon⟩ := closedBy_eq_ok_iff.1 closed
    exact ⟨e, front, t, rfl, rfl, canonical, low, yields, semicolon⟩
  · rintro ⟨e, read, t, rfl, rfl, canonical, low, yields, semicolon⟩
    have looser : t.level? = none := by
      rw [Token.level?_of_kind (Token.is_iff.1 semicolon)]
      rfl
    have done : outcome (expression bound (read ++ t :: rest)) = .ok (e, t :: rest) :=
      outcome_expression_eq_ok_iff.2 ⟨canonical, low, ⟨read, rfl, yields⟩, by simpa using looser⟩
    rw [done, Outcome.andThen_ok]
    exact closedBy_eq_ok_iff.2 ⟨rfl, t, rfl, semicolon⟩

/-- Reading a statement accepts those of the grammar within the bound and nothing else. -/
theorem outcome_statement_eq_ok_iff {bound : Nat} {tokens rest : List Token} {stmt : Stmt} :
    outcome (statement bound tokens) = .ok (stmt, rest) ↔
      ∃ read, tokens = read ++ rest ∧ stmt.Sentence bound read := by
  cases tokens with
  | nil =>
      constructor
      · intro done
        exact absurd rfl (ne_nil_of_outcome done)
      · rintro ⟨read, none, sentence⟩
        exact absurd (List.append_eq_nil_iff.1 none.symm).1 sentence.yields.ne_nil
  | cons t tokens =>
      rw [outcome_statement_cons]
      split
      · rename_i opens
        rw [outcome_terminated_eq_ok_iff]
        constructor
        · rintro ⟨e, read, closing, rfl, rfl, canonical, low, yields, closes⟩
          exact ⟨t :: (read ++ [closing]), by simp, canonical, low, .print opens yields closes⟩
        · rintro ⟨read, split, canonical, low, yields⟩
          cases yields with
          | @print e read opening closing opens yields closes =>
              simp only [List.cons_append, List.cons.injEq, List.append_assoc] at split
              exact ⟨e, read, closing, rfl, split.2, canonical, low, yields, closes⟩
          | @expression e read closing yields closes =>
              obtain ⟨first, tail, rfl⟩ := List.exists_cons_of_ne_nil yields.ne_nil
              cases split
              exact absurd opens (yields.head_kind_ne canonical t rfl)
      · rename_i other
        rw [outcome_terminated_eq_ok_iff]
        constructor
        · rintro ⟨e, read, closing, rfl, split, canonical, low, yields, closes⟩
          exact ⟨read ++ [closing], by simpa using split, canonical, low, .expression yields closes⟩
        · rintro ⟨read, split, canonical, low, yields⟩
          cases yields with
          | print opens yields closes =>
              cases split
              exact absurd opens other
          | @expression e read closing yields closes =>
              rw [List.append_assoc] at split
              exact ⟨e, read, closing, rfl, split, canonical, low, yields, closes⟩

/-! ## Programs -/

/-- Statements one behind the other are read as such, whatever follows them. -/
theorem attempts_of_sentences {bound : Nat} {stmts : List Stmt} {tokens : List Token}
    (sentences : Sentences bound stmts tokens) (more : List Token) :
    attempts bound (tokens ++ more) = stmts.map .done ++ attempts bound more := by
  induction sentences with
  | nil => rfl
  | cons front others ih =>
      rw [List.append_assoc, attempts_of_ok (outcome_statement_eq_ok_iff.2 ⟨_, rfl, front⟩), ih]
      rfl

/-- Every attempt succeeds exactly where the tokens are statements one behind the other. -/
theorem attempts_eq_map_done_iff {bound : Nat} {tokens : List Token} {stmts : List Stmt} :
    attempts bound tokens = stmts.map .done ↔ Sentences bound stmts tokens := by
  constructor
  · intro all
    induction tokens using attempts_induction bound generalizing stmts with
    | nil =>
        rw [attempts_nil, eq_comm, List.map_eq_nil_iff] at all
        exact all ▸ .nil
    | ok came suffix ih =>
        rw [attempts_of_ok came, eq_comm, List.map_eq_cons_iff] at all
        obtain ⟨stmt, stmts, rfl, same, others⟩ := all
        cases same
        obtain ⟨read, rfl, sentence⟩ := outcome_statement_eq_ok_iff.1 came
        exact .cons sentence (ih others.symm)
    | error some came suffix ih =>
        rw [attempts_of_error some came, eq_comm, List.map_eq_cons_iff] at all
        obtain ⟨stmt, stmts, -, same, -⟩ := all
        cases same
  · intro sentences
    simpa using attempts_of_sentences sentences []

theorem attempts_scattered (bound : Nat) (tokens : List Token) :
    Scattered bound ((attempts bound tokens).filterMap Attempt.stmt?) tokens := by
  induction tokens using attempts_induction bound with
  | nil =>
      rw [attempts_nil]
      exact .nil
  | ok came suffix ih =>
      obtain ⟨read, rfl, sentence⟩ := outcome_statement_eq_ok_iff.1 came
      rw [attempts_of_ok came]
      exact @Scattered.cons bound _ _ [] _ _ sentence ih
  | error some came suffix ih =>
      obtain ⟨skipped, same⟩ := suffix
      rw [attempts_of_error some came]
      exact same ▸ ih.behind skipped

end Parse

namespace Parser

open Parse Stmt

/-- Nothing is reported of attempts if all of them succeed. -/
theorem eq_map_done_iff (p : Parser) {made : List Attempt} {stmts : List Stmt} :
    made.filterMap Attempt.stmt? = stmts ∧ made.filterMap p.complaint? = [] ↔
      made = stmts.map .done := by
  induction made generalizing stmts with
  | nil => simp [eq_comm]
  | cons attempt made ih =>
      cases attempt with
      | failed problem site =>
          have reports : (Attempt.failed problem site :: made).filterMap p.complaint? ≠ [] := by
            simp [complaint?, Attempt.failure?]
          constructor
          · rintro ⟨-, silent⟩
            exact absurd silent reports
          · intro same
            cases stmts <;> cases same
      | done stmt =>
          have rest : (Attempt.done stmt :: made).filterMap p.complaint? =
              made.filterMap p.complaint? :=
            rfl
          cases stmts with
          | nil => simp [Attempt.stmt?]
          | cons stmt' stmts =>
              rw [rest, List.map_cons, List.cons.injEq, ← ih]
              simp [Attempt.stmt?, and_assoc]

/-- **A program is read without a report exactly if the grammar has it, and nothing is lost.**
The tokens before the end of the input are read to some statements and nothing is reported if
and only if they are these statements, each of the grammar and within the bound, one behind
the other.  Whatever is reported, what is read are statements of the grammar that stand in this
order in stretches of the tokens of their own. -/
theorem program_eq_iff_sentences (tokens : List Token) (bound : Nat) :
    (∀ stmts, (ofTokens tokens bound).program.1 = stmts ∧
        (ofTokens tokens bound).program.2.reported = [] ↔
          Sentences bound stmts (tokens.takeWhile fun t => !t.isEof)) ∧
      Scattered bound (ofTokens tokens bound).program.1
        (tokens.takeWhile fun t => !t.isEof) := by
  rw [program_eq]
  refine ⟨fun stmts => ?_, attempts_scattered bound _⟩
  exact (eq_map_done_iff _).trans attempts_eq_map_done_iff

end Parser

end Lox
