/-
# Lox.Proofs.RoundTrip -- trees written in prefix form and read back

Writing a tree in prefix form, scanning the text and reading the tree back changes nothing
but the lines of its operators, and those are the lines of the text.  What a program parses
to can be written and is within its bound, so all of it is read back, whatever else in the
program could not be read.

* `Expr.placedBehind` -- a tree with its operators on the lines of its text.
* `Parser.prefixExpr_prefixText` -- the round trip.
-/
import Lox.Proofs.PrefixForm
import Lox.Proofs.Scanned

namespace Lox

set_option autoImplicit false

attribute [local instance(high)] instPowNat

/-! ## Lines -/

/-- The line on which a text ends. -/
def lineBehind (text : String) : Nat :=
  1 + text.toList.count '\n'

namespace Expr

/-- The tree with every operator on the line of its place in the written text, where `before`
is written in front of the tree. -/
def placedBehind (before : String) : Expr → Expr
  | .literal value => .literal value
  | .grouping inner => .grouping (inner.placedBehind (before ++ "(group "))
  | .unary op arg =>
    .unary (op.onLine (lineBehind (before ++ "(")))
      (arg.placedBehind (before ++ "(" ++ op.lexeme ++ " "))
  | .binary op lhs rhs =>
    .binary (op.onLine (lineBehind (before ++ "(")))
      (lhs.placedBehind (before ++ "(" ++ op.lexeme ++ " "))
      (rhs.placedBehind (before ++ "(" ++ op.lexeme ++ " " ++ lhs.prefixText ++ " "))

/-- Operators hold no newlines, so that only operands move a tree to another line. -/
theorem placedBehind_eq_renumbered {e : Expr} (writable : e.Writable) (before : String) :
    e.placedBehind before = e.renumbered (lineBehind before) := by
  induction e generalizing before with
  | literal value => rfl
  | grouping inner ih =>
      rw [placedBehind, ih writable, renumbered]
      simp [lineBehind]
  | unary op arg ih =>
      obtain ⟨unary, spelled, writable⟩ := writable
      obtain ⟨s, kind⟩ := Token.exists_symbol_of_isUnary unary
      have flat := Scan.count_lexeme kind spelled
      rw [placedBehind, ih writable, renumbered]
      simp [lineBehind, flat]
  | binary op lhs rhs left right =>
      obtain ⟨binary, spelled, writable, writable'⟩ := writable
      obtain ⟨s, kind⟩ := Token.exists_symbol_of_level? binary
      have flat := Scan.count_lexeme kind spelled
      rw [placedBehind, left writable, right writable', renumbered]
      simp [lineBehind, flat, newlines, Nat.add_assoc]

end Expr

/-! ## The round trip -/

namespace Parser

open Parse

theorem ofChars_prefixText {e : Expr} (writable : e.Writable) :
    Scan.ofChars 1 e.prefixText.toList = ⟨e.prefixTokens 1, []⟩ := by
  have ends : Scan.Ends [] := by simp [Scan.Ends]
  have read := Scan.reads_prefixText writable ends 1
  simpa [Scan.Reads, Scan.behind] using read

/-- What a tree comes to when it is written in prefix form, scanned and read back. -/
structure RoundTrips (bound : Nat) (e : Expr) : Prop where
  faultless : (Scan.ofText e.prefixText).faults = []
  read : e.height ≤ bound →
    (ofText e.prefixText bound).prefixExpr.1 = .ok (e.placedBehind "")
  silent : e.height ≤ bound → (ofText e.prefixText bound).prefixExpr.2.reported = []
  again : (e.placedBehind "").prefixText = e.prefixText
  refused : bound < e.height →
    ∃ rejection diagnostic, (ofText e.prefixText bound).prefixExpr.1 = .error rejection ∧
      (ofText e.prefixText bound).prefixExpr.2.reported = [diagnostic] ∧
      diagnostic.message = "Expression nesting too deep."

theorem prefixExpr_ofText (text : String) (bound : Nat) :
    (ofText text bound).prefixExpr = (ofText text bound).read (prefixExpression bound) :=
  rfl

theorem roundTrips_of_writable {e : Expr} (writable : e.Writable) (bound : Nat) :
    RoundTrips bound e := by
  have scanned := ofChars_prefixText writable
  have ahead : (ofText e.prefixText bound).ahead = e.prefixTokens 1 := by
    rw [ahead_ofText, scanned]
  have faultless : (ofText e.prefixText bound).reported = [] := congrArg Scan.faults scanned
  have placed : e.placedBehind "" = e.renumbered 1 := Expr.placedBehind_eq_renumbered writable ""
  have yields := Expr.prefixYields_prefixTokens writable 1
  have read (low : e.height ≤ bound) :
      outcome (prefixExpression bound (ofText e.prefixText bound).ahead) =
        .ok (e.renumbered 1, []) := by
    rw [ahead]
    exact outcome_prefixExpression_eq_ok_iff.2 ⟨rfl, by rwa [Expr.height_renumbered], yields⟩
  constructor
  · exact faultless
  · intro low
    rw [prefixExpr_ofText, read_of_ok (read low), placed]
  · intro low
    rw [prefixExpr_ofText, read_of_ok (read low)]
    exact faultless
  · rw [placed, Expr.prefixText_renumbered]
  · intro high
    rw [← e.height_renumbered 1] at high
    obtain ⟨site, stop, deep⟩ := tooDeep_prefixExpression_of_lt yields high
    rw [← ahead] at deep
    rw [prefixExpr_ofText, read_of_error deep, faultless]
    exact ⟨_, _, rfl, rfl, rfl⟩

/-- **Trees are read back from their prefix form.**  A tree whose operators are spelled right
and whose literals can be written is read back as it was, on the lines of its text, if it is
within the bound, and is otherwise refused for its height alone.  All that a program parses to
is such a tree within the bound. -/
theorem prefixExpr_prefixText (bound : Nat) :
    (∀ e : Expr, e.Writable → RoundTrips bound e) ∧
      ∀ (text : String) (stmt : Stmt), stmt ∈ (ofText text bound).program.1 →
        stmt.expr.Writable ∧ stmt.expr.height ≤ bound ∧ RoundTrips bound stmt.expr := by
  constructor
  · intro e writable
    exact roundTrips_of_writable writable bound
  · intro text stmt member
    rw [program_eq] at member
    obtain ⟨attempt, made, done⟩ := List.mem_filterMap.1 member
    cases attempt with
    | failed problem site => cases done
    | done stmt' =>
        cases done
        obtain ⟨read, inside, yields, canonical, low⟩ := derives_of_mem_attempts made
        have scanned : ∀ t ∈ read, t.Scanned := by
          intro t member
          have member := inside member
          rw [ahead_ofText] at member
          exact Scan.scanned_of_mem member
        have writable := yields.writable canonical scanned
        exact ⟨writable, low, roundTrips_of_writable writable bound⟩

/-- A minus sign with two operands, one that looks like a comment over two lines and one that
is negated. -/
def brokenRemark : Expr :=
  .binary (.fixed (.symbol .minus) 7) (.literal (.string "a\n//("))
    (.unary (.fixed (.symbol .minus) 7) (.literal (.number (Float.ofBits 0x3FF8000000000000))))

/-- The remark moves what is written behind it to its second line, and does not fit into two
levels; and of a program with a fault the other statement can be written. -/
theorem prefixExpr_prefixText_brokenRemark :
    brokenRemark.Writable ∧ brokenRemark.height = 3 ∧
      (ofText brokenRemark.prefixText 3).prefixExpr.1 =
        .ok (.binary (.fixed (.symbol .minus) 1) (.literal (.string "a\n//("))
          (.unary (.fixed (.symbol .minus) 2)
            (.literal (.number (Float.ofBits 0x3FF8000000000000))))) ∧
      (∃ rejection, (ofText brokenRemark.prefixText 2).prefixExpr.1 = .error rejection) ∧
      (ofText "nil +; !nil;" 3).program.1 =
        [.expression (.unary (.fixed (.symbol .bang) 1) (.literal .nil))] ∧
      (Expr.unary (.fixed (.symbol .bang) 1) (.literal .nil)).Writable := by
  have finite : (Float.ofBits 0x3FF8000000000000).isFinite = true := by decide
  have positive : (Float.ofBits 0x3FF8000000000000).toBits.toNat < 2 ^ (63 : Nat) := by decide
  have writable : brokenRemark.Writable :=
    ⟨rfl, rfl, show '"' ∉ "a\n//(".toList by decide, rfl, rfl, finite, positive⟩
  have read := ((prefixExpr_prefixText 3).1 brokenRemark writable).read (by decide)
  obtain ⟨rejection, _, refused, _⟩ :=
    ((prefixExpr_prefixText 2).1 brokenRemark writable).refused (by decide)
  have program : (ofText "nil +; !nil;" 3).program.1 =
      [.expression (.unary (.fixed (.symbol .bang) 1) (.literal .nil))] := by cbv
  refine ⟨writable, rfl, ?_, ⟨rejection, refused⟩, program, ?_⟩
  · rw [read]
    simp [brokenRemark, Expr.placedBehind, Expr.prefixText, Value.literalText, lineBehind,
      Token.onLine, Token.fixed, Kind.lexeme?, Symbol.chars]
  · exact ((prefixExpr_prefixText 3).2 "nil +; !nil;" _ (by rw [program]; exact .head _)).1

end Parser

end Lox
