/-
# Lox.Expr.Postorder -- trees as node sequences

A tree is a sequence of nodes, children before parents and left before right.  Since a node
fixes how many children it has, the sequence determines the tree: `ofPostorder?` builds it
on a stack, and refuses a sequence that runs short of children or leaves more than one tree.
-/

import Lox.Expr.Basic

namespace Lox

set_option autoImplicit false

/-- A node without its children. -/
inductive Node where
  | literal (value : Value)
  | grouping
  | unary (op : Token)
  | binary (op : Token)
deriving DecidableEq, Repr, Inhabited

namespace Expr

/-- The nodes of a tree, children before parents and left before right, then `rest`. -/
def postorderOnto (rest : List Node) : Expr → List Node
  | .literal value => .literal value :: rest
  | .grouping inner => inner.postorderOnto (.grouping :: rest)
  | .unary op arg => arg.postorderOnto (.unary op :: rest)
  | .binary op lhs rhs => lhs.postorderOnto (rhs.postorderOnto (.binary op :: rest))

/-- The nodes of a tree, children before parents and left before right. -/
def postorder (e : Expr) : List Node :=
  e.postorderOnto []

/-- Puts a node on the trees that await a parent, the last first. -/
def attach? (trees : List Expr) (node : Node) : Option (List Expr) :=
  match node, trees with
  | .literal value, trees => some (.literal value :: trees)
  | .grouping, inner :: trees => some (.grouping inner :: trees)
  | .unary op, arg :: trees => some (.unary op arg :: trees)
  | .binary op, rhs :: lhs :: trees => some (.binary op lhs rhs :: trees)
  | _, _ => none

/-- The tree whose nodes in post-order are given, if there is one. -/
def ofPostorder? (nodes : List Node) : Option Expr :=
  match nodes.foldlM attach? [] with
  | some [e] => some e
  | _ => none

theorem foldlM_attach?_postorderOnto (e : Expr) (rest : List Node) (trees : List Expr) :
    (e.postorderOnto rest).foldlM attach? trees = rest.foldlM attach? (e :: trees) := by
  induction e generalizing rest trees with
  | literal value => simp [postorderOnto, attach?]
  | grouping inner ih => simp [postorderOnto, ih, attach?]
  | unary op arg ih => simp [postorderOnto, ih, attach?]
  | binary op lhs rhs ihl ihr => simp [postorderOnto, ihl, ihr, attach?]

/-- A tree is read back from its nodes. -/
theorem ofPostorder?_postorder (e : Expr) : ofPostorder? e.postorder = some e := by
  simp [ofPostorder?, postorder, foldlM_attach?_postorderOnto]

end Expr

end Lox
