/-
# Lox.Proofs.Reporting -- every failure is reported once

Whatever a parser was asked for before, what it is asked for next either succeeds and nothing is
said, or fails and exactly one diagnostic is added behind those that are there, which is that of
the rejection and points to one of the parser's tokens.  A program is read statement by statement,
and adds one for each that is rejected.

* `Parser.Call`, `Parser.afterAll` -- what a parser can be asked for, and parsers after any calls.
* `Parser.Reports` -- what is reported on the way from one state to another.
* `Parser.Placed` -- parsers somewhere among given tokens, which they remain.
* `Parser.Reads`, `Parser.exists_reads_program` -- a program as a run of statements with recovery.
* `Parser.reports_once` -- parsers after any calls.
-/
import Lox.Proofs.Descent
import Lox.Proofs.Progress

namespace Lox.Parser

set_option autoImplicit false

open Parse

/-! ## Calls -/

/-- An expression, or none where it is rejected. -/
def expression? (p : Parser) : Option Expr × Parser :=
  Prod.map Except.toOption id p.expr

/-- A tree in prefix form, or none where it is rejected. -/
def prefixExpr? (p : Parser) : Option Expr × Parser :=
  Prod.map Except.toOption id p.prefixExpr

/-- Something that a parser is asked for. -/
inductive Call where
  | program
  | stmt
  | expr
  | expression
  | prefixNotation

/-- The parser after a call. -/
def after (p : Parser) : Call → Parser
  | .program => p.program.2
  | .stmt => p.stmt.2
  | .expr => p.expr.2
  | .expression => p.expression?.2
  | .prefixNotation => p.prefixExpr?.2

/-- The parser after calls, the first of them first. -/
def afterAll (p : Parser) (calls : List Call) : Parser :=
  calls.foldl after p

/-! ## Parsers among their tokens -/

/-- The parser stands among these tokens, and its input ends at one of them. -/
structure Placed (all : List Token) (p : Parser) : Prop where
  ahead : p.ahead ⊆ all
  last : p.last ∈ all
  ends : p.last.kind = .eof

/-- From one parser to the other these rejections are reported, one by one behind what has been
reported before, and each is of one of the tokens. -/
structure Reports (all : List Token) (p : Parser) (rejections : List Rejection) (q : Parser) :
    Prop where
  reported : q.reported = p.reported ++ rejections.map Rejection.diagnostic
  tokens : ∀ r ∈ rejections, r.token ∈ all

/-- Nothing is reported of a success, and of a failure just the rejection. -/
def ReportsOnce {α : Type} (all : List Token) (p : Parser) :
    Except Rejection α × Parser → Prop
  | (.ok _, q) => p.Reports all [] q
  | (.error rejection, q) => p.Reports all [rejection] q

/-- Nothing is reported if there is something, and one rejection if there is none. -/
def ReportsNone {α : Type} (all : List Token) (p : Parser) : Option α × Parser → Prop
  | (some _, q) => p.Reports all [] q
  | (none, q) => ∃ rejection, p.Reports all [rejection] q

section Placed

variable {α : Type} {all : List Token} {p : Parser}

/-- What is left of the tokens is enough to stand among them. -/
theorem Placed.of_suffix (placed : p.Placed all) {rest : List Token} (suffix : rest <:+ p.ahead)
    (reported : List Diagnostic) : { p with ahead := rest, reported : Parser }.Placed all :=
  ⟨fun _ member => placed.ahead (suffix.subset member), placed.last, placed.ends⟩

theorem Placed.token_mem (placed : p.Placed all) {site : List Token} (suffix : site <:+ p.ahead)
    (problem : Problem) : (p.reject problem site).token ∈ all := by
  cases site with
  | nil => exact placed.last
  | cons t site => exact placed.ahead (suffix.subset List.mem_cons_self)

/-- Reading reports a failure once, and stays among the tokens. -/
theorem Placed.read (placed : p.Placed all) (reader : Reader α) :
    p.ReportsOnce all (p.read reader) ∧ (p.read reader).2.Placed all := by
  cases came : outcome (reader p.ahead) with
  | ok read =>
      rw [read_of_ok came]
      exact ⟨⟨(List.append_nil _).symm, by simp⟩, placed.of_suffix (suffix_of_outcome came).1 _⟩
  | error refusal =>
      obtain ⟨stop, site⟩ := suffix_of_refusal came
      rw [read_of_error came]
      exact ⟨⟨rfl, by simpa using placed.token_mem site refusal.problem⟩,
        placed.of_suffix (stop.trans site) _⟩

theorem ReportsOnce.exists_reports {came : Except Rejection α × Parser}
    (reports : p.ReportsOnce all came) : ∃ rejections, p.Reports all rejections came.2 := by
  obtain ⟨_ | _, q⟩ := came
  · exact ⟨_, reports⟩
  · exact ⟨_, reports⟩

theorem ReportsOnce.toOption {came : Except Rejection α × Parser}
    (reports : p.ReportsOnce all came) :
    p.ReportsNone all (Prod.map Except.toOption id came) := by
  obtain ⟨_ | _, q⟩ := came
  · exact ⟨_, reports⟩
  · exact reports

end Placed

/-! ## Programs -/

/-- How a program is read: a statement after the other until the input ends, and after one that is
rejected reading goes on where the next may begin. -/
inductive Reads : Parser → List Stmt → List Rejection → Parser → Prop
  | done {p : Parser} (ends : p.ahead = []) : Reads p [] [] p
  | read {p q r : Parser} {stmt : Stmt} {stmts : List Stmt} {rejections : List Rejection}
      (more : p.ahead ≠ []) (came : p.stmt = (.ok stmt, q)) (others : Reads q stmts rejections r) :
      Reads p (stmt :: stmts) rejections r
  | rejected {p q r : Parser} {rejection : Rejection} {stmts : List Stmt}
      {rejections : List Rejection} (more : p.ahead ≠ []) (came : p.stmt = (.error rejection, q))
      (others : Reads { q with ahead := recover q.ahead } stmts rejections r) :
      Reads p stmts (rejection :: rejections) r

section Programs

variable {p q : Parser}

theorem program_of_ahead_nil (ends : p.ahead = []) : p.program = ([], p) := by
  obtain ⟨ahead, last, bound, reported⟩ := p
  obtain rfl : ahead = [] := ends
  simp [program_eq]

theorem program_of_stmt_ok {stmt : Stmt} (came : p.stmt = (.ok stmt, q)) :
    p.program = (stmt :: q.program.1, q.program.2) := by
  obtain ⟨rest, read, rfl⟩ := read_eq_ok_iff.1 came
  rw [program_eq, program_eq, attempts_of_ok read]
  rfl

theorem program_of_stmt_error {rejection : Rejection} (more : p.ahead ≠ [])
    (came : p.stmt = (.error rejection, q)) :
    p.program = { q with ahead := recover q.ahead : Parser }.program := by
  obtain ⟨refusal, refused, rfl, rfl⟩ := read_eq_error_iff.1 came
  have complaint : p.complaint? (.failed refusal.problem refusal.site) =
      some (p.reject refusal.problem refusal.site).diagnostic :=
    rfl
  rw [program_eq, program_eq, attempts_of_error more refused,
    List.filterMap_cons_some complaint, List.append_cons p.reported _ (List.filterMap ..)]
  rfl

/-- A program is read statement by statement, with one rejection for each that fails. -/
theorem exists_reads_program (p : Parser) :
    ∃ rejections, Reads p p.program.1 rejections p.program.2 := by
  obtain ⟨ahead, last, bound, reported⟩ := p
  induction ahead using attempts_induction bound generalizing reported with
  | nil =>
      rw [program_of_ahead_nil rfl]
      exact ⟨[], .done rfl⟩
  | @ok ahead stmt rest came suffix ih =>
      have read := read_of_ok (p := ⟨ahead, last, bound, reported⟩) came
      obtain ⟨rejections, others⟩ := ih reported
      rw [program_of_stmt_ok read]
      exact ⟨rejections, .read (ne_nil_of_outcome came) read others⟩
  | @error ahead refusal more came suffix ih =>
      have read := read_of_error (p := ⟨ahead, last, bound, reported⟩) came
      obtain ⟨rejections, others⟩ := ih _
      rw [program_of_stmt_error more read]
      exact ⟨_, .rejected more read others⟩

end Programs

section Reports

variable {all : List Token} {p q r : Parser} {front back : List Rejection}

theorem Reports.refl (all : List Token) (p : Parser) : p.Reports all [] p :=
  ⟨(List.append_nil _).symm, by simp⟩

theorem Reports.trans (first : p.Reports all front q) (second : q.Reports all back r) :
    p.Reports all (front ++ back) r where
  reported := by rw [second.reported, first.reported, List.map_append, List.append_assoc]
  tokens rejection member := by
    rcases List.mem_append.1 member with early | late
    · exact first.tokens rejection early
    · exact second.tokens rejection late

/-- What is reported of a program are the rejections of its statements. -/
theorem Reads.reports {stmts : List Stmt} {rejections : List Rejection}
    (reads : Reads p stmts rejections q) (placed : p.Placed all) :
    p.Reports all rejections q := by
  induction reads with
  | done => exact .refl all _
  | @read p q r stmt stmts rejections more came others ih =>
      obtain ⟨once, behind⟩ := placed.read (statement p.bound)
      rw [show p.read _ = _ from came] at once behind
      exact once.trans (ih behind)
  | @rejected p q r rejection stmts rejections more came others ih =>
      obtain ⟨once, behind⟩ := placed.read (statement p.bound)
      rw [show p.read _ = _ from came] at once behind
      -- Recovery reports nothing of its own.
      have reports := ih (behind.of_suffix (recover_suffix List.suffix_rfl) _)
      exact once.trans ⟨reports.reported, reports.tokens⟩

/-- A call adds some reports, and the parser stays among its tokens. -/
theorem Placed.after (placed : p.Placed all) (call : Call) :
    (∃ rejections, p.Reports all rejections (p.after call)) ∧ (p.after call).Placed all := by
  cases call with
  | program =>
      obtain ⟨rejections, reads⟩ := exists_reads_program p
      exact ⟨⟨rejections, reads.reports placed⟩, placed.of_suffix List.nil_suffix _⟩
  | stmt => exact (placed.read (statement p.bound)).imp_left ReportsOnce.exists_reports
  | expr | expression =>
      exact (placed.read (Parse.expression p.bound)).imp_left ReportsOnce.exists_reports
  | prefixNotation =>
      exact (placed.read (Parse.prefixExpression p.bound)).imp_left ReportsOnce.exists_reports

/-- Calls add their reports behind those of the calls before. -/
theorem Placed.afterAll (placed : p.Placed all) (calls : List Call) :
    (∃ rejections, p.Reports all rejections (p.afterAll calls)) ∧
      (p.afterAll calls).Placed all := by
  induction calls generalizing p with
  | nil => exact ⟨⟨[], .refl all p⟩, placed⟩
  | cons call calls ih =>
      obtain ⟨⟨first, reports⟩, behind⟩ := placed.after call
      obtain ⟨⟨others, reports'⟩, behind'⟩ := ih behind
      exact ⟨⟨first ++ others, reports.trans reports'⟩, behind'⟩

/-- A parser starts among its tokens, whatever has been reported before. -/
theorem placed_ofTokens (tokens : List Token) (bound : Nat) (earlier : List Diagnostic) :
    { ofTokens tokens bound with reported := earlier : Parser }.Placed (completed tokens) := by
  obtain ⟨⟨behind, split⟩, -, ends⟩ := delimits_completed tokens bound
  refine ⟨?_, ?_, by simpa [Token.isEof] using ends⟩
  · rw [split]
    exact List.subset_append_left ..
  · rw [split]
    exact List.mem_append_right _ List.mem_cons_self

end Reports

/-- **Every failure is reported once, and every success silently.**  This is a parser over any
tokens, whose source has diagnostics of its own, after any calls: what was reported stays, and
each call adds the diagnostic of the rejection behind it where it fails and nothing where it does
not; a program adds one for each statement that is rejected.  All of them are of tokens of the
parser.  It does the same where each problem is reported at once, in the midst of the expressions
around it. -/
theorem reports_once (tokens : List Token) (bound : Nat) (earlier : List Diagnostic)
    (calls : List Call) :
    let start : Parser := { ofTokens tokens bound with reported := earlier }
    let p := start.afterAll calls
    let all := completed tokens
    (∃ rejections, start.Reports all rejections p) ∧
      p.ReportsOnce all p.stmt ∧
      p.ReportsOnce all p.expr ∧
      p.ReportsNone all p.expression? ∧
      p.ReportsNone all p.prefixExpr? ∧
      (∃ rejections, Reads p p.program.1 rejections p.program.2 ∧
        p.Reports all rejections p.program.2) ∧
      Descent.statement p.bound ⟨p, 0⟩ = (p.stmt.1, ⟨p.stmt.2, 0⟩) ∧
      Descent.expression p.bound ⟨p, 0⟩ = (p.expr.1, ⟨p.expr.2, 0⟩) ∧
      Descent.prefixExpression p.bound ⟨p, 0⟩ = (p.prefixExpr.1, ⟨p.prefixExpr.2, 0⟩) := by
  intro start p all
  obtain ⟨reports, placed⟩ : _ ∧ p.Placed all :=
    (placed_ofTokens tokens bound earlier).afterAll calls
  obtain ⟨rejections, reads⟩ := exists_reads_program p
  have expr := (placed.read (Parse.expression p.bound)).1
  exact ⟨reports, (placed.read _).1, expr, expr.toOption, (placed.read _).1.toOption,
    ⟨rejections, reads, reads.reports placed⟩, Descent.statement_mk placed.ends,
    Descent.expression_mk placed.ends, Descent.prefixExpression_mk placed.ends⟩

end Lox.Parser
