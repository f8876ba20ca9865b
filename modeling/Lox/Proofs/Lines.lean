/-
# Lox.Proofs.Lines -- what begins further down

Lines are carried along and never looked at.  Whatever begins a number of lines further down
is scanned, parsed and evaluated to the same, with every line that it mentions that much
higher.

* `Scan.ofChars_add` -- scanning.
* `Parse.attempts_shifted`, `Parser.program_shifted` -- parsing, by the correspondence of
  tokens with those further down.
* `Expr.value_shifted`, `Stmt.trace_shifted` -- evaluation and execution.
-/
import Lox.Proofs.Correspondence
import Lox.Proofs.Execution
import Lox.Proofs.Segmentation
import Lox.Session

namespace Lox

set_option autoImplicit false

/-! ## Further down -/

/-- The token `k` lines further down. -/
def Token.shifted (k : Nat) (t : Token) : Token :=
  { t with line := t.line + k }

/-- The diagnostic `k` lines further down. -/
def Diagnostic.shifted (k : Nat) (d : Diagnostic) : Diagnostic :=
  { d with line := d.line + k }

/-- The piece of text `k` lines further down. -/
def Piece.shifted (k : Nat) (p : Piece) : Piece :=
  { p with line := p.line + k }

/-- What was scanned `k` lines further down. -/
def Scan.shifted (k : Nat) (scan : Scan) : Scan :=
  { tokens := scan.tokens.map (Token.shifted k)
    faults := scan.faults.map (Diagnostic.shifted k) }

/-- The tree with its operators `k` lines further down. -/
def Expr.shifted (k : Nat) : Expr → Expr
  | .literal value => .literal value
  | .grouping inner => .grouping (inner.shifted k)
  | .unary op arg => .unary (op.shifted k) (arg.shifted k)
  | .binary op lhs rhs => .binary (op.shifted k) (lhs.shifted k) (rhs.shifted k)

/-- The statement with its operators `k` lines further down. -/
def Stmt.shifted (k : Nat) : Stmt → Stmt
  | .print value => .print (value.shifted k)
  | .expression value => .expression (value.shifted k)

/-- The attempt at a statement `k` lines further down. -/
def Parse.Attempt.shifted (k : Nat) : Attempt → Attempt
  | .done stmt => .done (stmt.shifted k)
  | .failed problem site => .failed problem (site.map (Token.shifted k))

/-- The parser `k` lines further down. -/
def Parser.shifted (k : Nat) (p : Parser) : Parser :=
  { p with
    ahead := p.ahead.map (Token.shifted k)
    last := p.last.shifted k
    reported := p.reported.map (Diagnostic.shifted k) }

/-- The run-time error `k` lines further down. -/
def RuntimeError.shifted (k : Nat) : RuntimeError → RuntimeError
  | .type op fault => .type (op.shifted k) fault
  | .nestingTooDeep line limit => .nestingTooDeep (line + k) limit
  | .output line fault => .output (line + k) fault

/-- The reason why a text did not run to its end, `k` lines further down. -/
def RunError.shifted (k : Nat) : RunError → RunError
  | .rejected faults => .rejected (faults.map (Diagnostic.shifted k))
  | .stopped error => .stopped (error.shifted k)

variable {k : Nat}

/-! ## Scanning -/

theorem Piece.token?_shifted (p : Piece) :
    (p.shifted k).token? = p.token?.map (Token.shifted k) := by
  unfold token?
  rw [show (p.shifted k).meaning = p.meaning from rfl]
  cases p.meaning <;> rfl

theorem Piece.diagnostic?_shifted (p : Piece) :
    (p.shifted k).diagnostic? = p.diagnostic?.map (Diagnostic.shifted k) := by
  unfold diagnostic?
  rw [show (p.shifted k).meaning = p.meaning from rfl]
  cases p.meaning <;> rfl

theorem Piece.segmentsAfter_add (k line : Nat) (text : List Char) :
    segmentsAfter [] (line + k) text = (segmentsAfter [] line text).map (Piece.shifted k) := by
  induction text using cut_induction generalizing line with
  | nil => simp [segmentsAfter]
  | @cut shape chars rest front ih =>
      rw [segmentsAfter_of_cut front, segmentsAfter_of_cut front, List.map_cons, ← ih,
        Nat.add_right_comm]
      rfl

/-- A text that begins further down. -/
theorem Scan.ofChars_add (k line : Nat) (text : List Char) :
    ofChars (line + k) text = (ofChars line text).shifted k := by
  have tokens : Piece.token? ∘ Piece.shifted k = fun p => p.token?.map (Token.shifted k) :=
    funext Piece.token?_shifted
  have faults : Piece.diagnostic? ∘ Piece.shifted k =
      fun p => p.diagnostic?.map (Diagnostic.shifted k) :=
    funext Piece.diagnostic?_shifted
  simp only [ofChars, shifted, Piece.segmentsAfter_add, List.filterMap_map, List.map_filterMap,
    tokens, faults]

/-! ## Parsing -/

theorem Expr.Alike.eq_shifted {e e' : Expr} (alike : e.Alike (fun t t' => t.shifted k = t') e') :
    e.shifted k = e' := by
  induction alike with
  | literal => rfl
  | grouping _ ih => rw [shifted, ih]
  | unary same _ ih => rw [shifted, same, ih]
  | binary same _ _ ihLeft ihRight => rw [shifted, same, ihLeft, ihRight]

theorem Stmt.Alike.eq_shifted {stmt stmt' : Stmt}
    (alike : stmt.Alike (fun t t' => t.shifted k = t') stmt') : stmt.shifted k = stmt' := by
  cases alike with
  | print tree | expression tree => rw [shifted, tree.eq_shifted]

/-- To correspond one by one to what a function makes of it is to be the map of it. -/
theorem forall₂_apply_eq_iff {α : Type} {f : α → α} {as bs : List α} :
    List.Forall₂ (fun a b => f a = b) as bs ↔ as.map f = bs := by
  rw [← List.forall₂_map_left_iff (R := Eq), List.forall₂_eq_eq_eq]

namespace Parse

theorem Attempt.Alike.eq_shifted {attempt attempt' : Attempt}
    (alike : Attempt.Alike (fun t t' => t.shifted k = t') attempt attempt') :
    attempt.shifted k = attempt' := by
  cases alike with
  | done read => rw [shifted, read.eq_shifted]
  | failed blamed => rw [shifted, forall₂_apply_eq_iff.1 blamed]

/-- Tokens further down are read by the same attempts. -/
theorem attempts_shifted (bound : Nat) (tokens : List Token) :
    attempts bound (tokens.map (Token.shifted k)) =
      (attempts bound tokens).map (Attempt.shifted k) := by
  have kinds : ∀ {t t' : Token}, t.shifted k = t' → t.kind = t'.kind := by
    rintro t _ rfl
    rfl
  have ahead : List.Forall₂ (fun t t' => t.shifted k = t') tokens (tokens.map (Token.shifted k)) :=
    forall₂_apply_eq_iff.2 rfl
  have alike := @attempts_alike _ bound kinds _ _ ahead
  exact (forall₂_apply_eq_iff.1 (alike.imp fun _ _ => Attempt.Alike.eq_shifted)).symm

end Parse

namespace Parser

open Parse

theorem complaint?_shifted (p : Parser) (attempt : Attempt) :
    (p.shifted k).complaint? (attempt.shifted k) =
      (p.complaint? attempt).map (Diagnostic.shifted k) := by
  cases attempt with
  | done stmt => rfl
  | failed problem site => cases site <;> rfl

/-- Parsing further down. -/
theorem program_shifted (p : Parser) :
    (p.shifted k).program = (p.program.1.map (Stmt.shifted k), p.program.2.shifted k) := by
  have stmts : Attempt.stmt? ∘ Attempt.shifted k = fun attempt =>
      attempt.stmt?.map (Stmt.shifted k) := by
    funext attempt
    cases attempt <;> rfl
  have complaints : (p.shifted k).complaint? ∘ Attempt.shifted k = fun attempt =>
      (p.complaint? attempt).map (Diagnostic.shifted k) :=
    funext p.complaint?_shifted
  have made : attempts (p.shifted k).bound (p.shifted k).ahead =
      (attempts p.bound p.ahead).map (Attempt.shifted k) :=
    attempts_shifted p.bound p.ahead
  rw [program_eq, program_eq, made, List.filterMap_map, List.filterMap_map, stmts, complaints,
    ← List.map_filterMap, ← List.map_filterMap]
  simp [shifted]

end Parser

/-! ## Evaluation -/

theorem Token.outcome_shifted (op : Token) (answer : Except TypeFault Value) :
    (op.shifted k).outcome answer = (op.outcome answer).mapError (RuntimeError.shifted k) := by
  cases answer <;> rfl

/-- A tree further down has the same value, or the same thing is wrong with it. -/
theorem Expr.value_shifted (e : Expr) :
    (e.shifted k).value = e.value.mapError (RuntimeError.shifted k) := by
  induction e with
  | literal value => rfl
  | grouping inner ih => exact ih
  | unary op arg ih =>
      rw [shifted, value, value, ih]
      cases arg.value with
      | error e => rfl
      | ok v => exact op.outcome_shifted (op.applyUnary v)
  | binary op lhs rhs ihLeft ihRight =>
      rw [shifted, value, value, ihLeft, ihRight]
      cases lhs.value with
      | error e => rfl
      | ok left =>
          cases rhs.value with
          | error e => rfl
          | ok right => exact op.outcome_shifted (op.applyBinary left right)

namespace Stmt

theorem effect_shifted (stmt : Stmt) :
    (stmt.shifted k).effect = stmt.effect.mapError (RuntimeError.shifted k) := by
  cases stmt with
  | print e | expression e =>
      simp only [effect, expr, shifted, Expr.value_shifted]
      cases e.value <;> rfl

/-- A program further down writes the same and ends alike. -/
theorem trace_shifted (program : List Stmt) :
    trace (program.map (shifted k)) =
      ((trace program).1, (trace program).2.mapError (RuntimeError.shifted k)) := by
  induction program with
  | nil => rfl
  | cons stmt rest ih =>
      rw [List.map_cons, trace, trace, effect_shifted, ih]
      cases stmt.effect <;> rfl

end Stmt

end Lox
