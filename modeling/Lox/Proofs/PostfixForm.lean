/-
# Lox.Proofs.PostfixForm -- what postfix form says of a tree

Postfix form writes no parentheses.  It needs none as far as every operator tells how many operands
it takes: the written text scans to the nodes of the tree in post-order, and a stack puts these
together again.  Groupings are not written and lines are not either, so both are lost; a minus sign
may stand for a negation or for a subtraction, so trees with negations are left out; and nothing
else is lost.

* `Expr.bare` -- a tree without its groupings and lines.
* `Scan.reads_postfixText` -- the written text scans to the nodes of that tree.
* `Expr.ofPostfixText?`, `Expr.ofPostfixText?_postfixText` -- reading postfix form.
* `Expr.postfixText_eq_iff` -- trees that are written alike.
-/
import Lox.Expr.Postorder
import Lox.Proofs.Written

namespace Lox

set_option autoImplicit false

namespace Expr

/-- No operator is a negation. -/
def Unnegated : Expr → Prop
  | .literal _ => True
  | .grouping inner => inner.Unnegated
  | .unary op arg => op.is .bang = true ∧ arg.Unnegated
  | .binary _ lhs rhs => lhs.Unnegated ∧ rhs.Unnegated

/-- The tree without its groupings, and all of its operators on one line. -/
def bare : Expr → Expr
  | .literal value => .literal value
  | .grouping inner => inner.bare
  | .unary op arg => .unary (op.onLine 0) arg.bare
  | .binary op lhs rhs => .binary (op.onLine 0) lhs.bare rhs.bare

/-- Neither groupings nor lines are written. -/
theorem postfixText_bare (e : Expr) : e.bare.postfixText = e.postfixText := by
  induction e with
  | literal value => rfl
  | grouping inner ih => exact ih
  | unary op arg ih => simp [bare, postfixText, ih]
  | binary op lhs rhs left right => simp [bare, postfixText, left, right]

theorem postorderOnto_eq_append (e : Expr) (rest : List Node) :
    e.postorderOnto rest = e.postorder ++ rest := by
  unfold postorder
  induction e generalizing rest with
  | literal value => rfl
  | grouping inner ih => simp [postorderOnto, ih (_ :: _)]
  | unary op arg ih => simp [postorderOnto, ih (_ :: _)]
  | binary op lhs rhs left right =>
      simp [postorderOnto, left (_ ++ _), right (_ :: _)]

theorem postorder_unary (op : Token) (arg : Expr) :
    (unary op arg).postorder = arg.postorder ++ [.unary op] :=
  arg.postorderOnto_eq_append [.unary op]

theorem postorder_binary (op : Token) (lhs rhs : Expr) :
    (binary op lhs rhs).postorder = lhs.postorder ++ (rhs.postorder ++ [.binary op]) := by
  rw [← rhs.postorderOnto_eq_append]
  exact lhs.postorderOnto_eq_append _

end Expr

/-! ## Scanning -/

/-- The node that a token of postfix form stands for. -/
def Token.node? (t : Token) : Option Node :=
  match t.kind.value? with
  | some value => some (.literal value)
  | none =>
    if t.is .bang then some (.unary (t.onLine 0))
    else if t.level?.isSome then some (.binary (t.onLine 0))
    else none

theorem Token.node?_of_bang {t : Token} (bang : t.is .bang = true) (line : Nat) :
    (t.onLine line).node? = some (.unary (t.onLine 0)) := by
  have kind : (t.onLine line).kind = .symbol .bang := is_iff.1 bang
  rw [node?, value?_of_symbol kind, if_pos (is_iff.2 kind)]
  rfl

theorem Token.node?_of_level? {t : Token} (level : t.level?.isSome = true) (line : Nat) :
    (t.onLine line).node? = some (.binary (t.onLine 0)) := by
  have binary : (t.onLine line).level?.isSome = true := level
  obtain ⟨s, kind⟩ := exists_symbol_of_level? binary
  have other : ¬ (t.onLine line).is .bang = true := by
    intro bang
    rw [level?_of_kind (is_iff.1 bang)] at binary
    cases binary
  rw [node?, value?_of_symbol kind, if_neg other, if_pos binary]
  rfl

namespace Scan

/-- A tree in postfix form comes to tokens that stand for its nodes in post-order. -/
theorem reads_postfixText {e : Expr} (writable : e.Writable) (unnegated : e.Unnegated)
    {rest : List Char} (ends : Ends rest) (line : Nat) :
    ∃ tokens, Reads line e.postfixText.toList tokens rest ∧
      tokens.filterMap Token.node? = e.bare.postorder := by
  have separates (rest : List Char) : Ends (' ' :: rest) := by simp [Ends]
  induction e generalizing line rest with
  | literal value =>
      exact ⟨_, reads_literalText writable ends line, by
        simp [Value.token, Token.node?, Expr.bare, Expr.postorder, Expr.postorderOnto]⟩
  | grouping inner ih => exact ih writable unnegated ends line
  | unary op arg ih =>
      obtain ⟨unary, spelled, writable⟩ := writable
      obtain ⟨bang, unnegated⟩ := unnegated
      obtain ⟨tokens, reads, nodes⟩ := ih writable unnegated (separates _) line
      have read := reads_operands reads (reads_operator (Token.is_iff.1 bang) spelled ends _)
      refine ⟨_, by simpa [Expr.postfixText] using read, ?_⟩
      rw [List.filterMap_append, nodes, List.filterMap_cons_some (Token.node?_of_bang bang _),
        Expr.bare, Expr.postorder_unary]
      rfl
  | binary op lhs rhs left right =>
      obtain ⟨level, spelled, writable, writable'⟩ := writable
      obtain ⟨unnegated, unnegated'⟩ := unnegated
      obtain ⟨s, kind⟩ := Token.exists_symbol_of_level? level
      obtain ⟨tokens, reads, nodes⟩ := left writable unnegated (separates _) line
      obtain ⟨tokens', reads', nodes'⟩ := right writable' unnegated' (separates _) _
      have read := reads_operands reads
        (reads_operands reads' (reads_operator kind spelled ends _))
      refine ⟨_, by simpa [Expr.postfixText] using read, ?_⟩
      rw [List.filterMap_append, List.filterMap_append, nodes, nodes',
        List.filterMap_cons_some (Token.node?_of_level? level _), Expr.bare,
        Expr.postorder_binary]
      rfl

end Scan

namespace Expr

/-- The tree that a text in postfix form stands for. -/
def ofPostfixText? (text : String) : Option Expr :=
  ofPostorder? ((Scan.ofText text).tokens.filterMap Token.node?)

/-- Postfix form is read back to all of the tree that it holds. -/
theorem ofPostfixText?_postfixText {e : Expr} (writable : e.Writable) (unnegated : e.Unnegated) :
    ofPostfixText? e.postfixText = some e.bare := by
  have ends : Scan.Ends [] := by simp [Scan.Ends]
  obtain ⟨tokens, reads, nodes⟩ := Scan.reads_postfixText writable unnegated ends 1
  rw [Scan.Reads, List.append_nil, Scan.ofChars_nil] at reads
  have last (line : Nat) : (Token.eof line).node? = none := rfl
  rw [ofPostfixText?, Scan.ofText_eq_ofChars, reads, List.filterMap_append]
  simp [Scan.behind, nodes, last, ofPostorder?_postorder]

/-- **Postfix form tells trees without negations apart, up to groupings and lines.**  Two such trees
are written alike if and only if they are the same without their groupings and with all of their
operators on one line. -/
theorem postfixText_eq_iff {a b : Expr} (aWritable : a.Writable) (aUnnegated : a.Unnegated)
    (bWritable : b.Writable) (bUnnegated : b.Unnegated) :
    a.postfixText = b.postfixText ↔ a.bare = b.bare := by
  constructor
  · intro same
    have read := ofPostfixText?_postfixText aWritable aUnnegated
    rw [same, ofPostfixText?_postfixText bWritable bUnnegated] at read
    exact (Option.some.inj read).symm
  · intro same
    rw [← a.postfixText_bare, same, b.postfixText_bare]

/-- `!(1.5 + "2 * !") == nil`, with operators on this line and something around the sum. -/
def quotedSum (line : Nat) (around : Expr → Expr) : Expr :=
  .binary (.fixed (.symbol .equalEqual) line)
    (.unary (.fixed (.symbol .bang) line)
      (around (.binary (.fixed (.symbol .plus) 3)
        (.literal (.number (Float.ofBits 0x3FF8000000000000))) (.literal (.string "2 * !")))))
    (.literal .nil)

/-- Lines and parentheses are not written; what stands in quotes is no operator. -/
theorem postfixText_eq_iff_quotedSum :
    let a := quotedSum 1 .grouping
    let b := quotedSum 7 id
    a.Writable ∧ a.Unnegated ∧ b.Writable ∧ b.Unnegated ∧ a ≠ b ∧ a.bare = b.bare ∧
      a.postfixText = b.postfixText := by
  intro a b
  have finite : (Float.ofBits 0x3FF8000000000000).isFinite = true := by decide
  have positive : (Float.ofBits 0x3FF8000000000000).toBits.toNat < 2 ^ (63 : Nat) := by decide
  have quoted : '"' ∉ "2 * !".toList := by decide
  have aWritable : a.Writable :=
    ⟨rfl, rfl, ⟨rfl, rfl, rfl, rfl, ⟨finite, positive⟩, quoted⟩, trivial⟩
  have bWritable : b.Writable :=
    ⟨rfl, rfl, ⟨rfl, rfl, rfl, rfl, ⟨finite, positive⟩, quoted⟩, trivial⟩
  have aUnnegated : a.Unnegated := ⟨⟨rfl, trivial, trivial⟩, trivial⟩
  have bUnnegated : b.Unnegated := ⟨⟨rfl, trivial, trivial⟩, trivial⟩
  have same : a.bare = b.bare := rfl
  exact ⟨aWritable, aUnnegated, bWritable, bUnnegated, by simp [a, b, quotedSum, Token.fixed], same,
    (postfixText_eq_iff aWritable aUnnegated bWritable bUnnegated).2 same⟩

/-- A negation in a subtraction and a subtraction in a negation are written alike. -/
example :
    let minus : Token := .fixed (.symbol .minus) 1
    let a : Expr := .binary minus (.literal .nil) (.unary minus (.literal .nil))
    let b : Expr := .unary minus (.binary minus (.literal .nil) (.literal .nil))
    a.postfixText = b.postfixText ∧ a.bare ≠ b.bare := by
  decide

end Expr

end Lox
