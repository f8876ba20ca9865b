/-
# Lox.Proofs.Evaluation -- values without a bound, and operands of the wrong types

With room for all of a tree, what it evaluates to hangs neither on the limit nor on the line
that is kept for faults.  The only thing that can then go wrong in a tree of the grammar is
that the operands of an operator have values of other types than it asks for.

* `Expr.value` -- the value of a tree with no bound on evaluation.
* `Expr.eval_fst_of_height_le` -- evaluation with enough room is that.
* `Token.AdmitsUnary`, `Token.AdmitsBinary` -- the operands that the operators ask for.
* `Expr.Misapplied` -- an operator in a tree has operands with values that it does not admit.
* `Expr.misapplied_of_value_eq_error` -- a tree of the grammar fails for that reason alone.
-/
import Lox.Eval.Basic
import Lox.Proofs.Grammar

namespace Lox

set_option autoImplicit false

/-! ## Values -/

namespace Expr

/-- The value of an expression, to which evaluation descends as far as it takes. -/
def value : Expr → Except RuntimeError Value
  | .literal value => .ok value
  | .grouping inner => inner.value
  | .unary op arg =>
    match arg.value with
    | .ok value => op.outcome (op.applyUnary value)
    | .error e => .error e
  | .binary op lhs rhs =>
    match lhs.value with
    | .error e => .error e
    | .ok left =>
      match rhs.value with
      | .error e => .error e
      | .ok right => op.outcome (op.applyBinary left right)

/-- With room for all of the tree, evaluation never meets its limit. -/
theorem eval_fst_of_height_le {e : Expr} {limit room line : Nat} (low : e.height ≤ room) :
    (e.eval limit room line).1 = e.value := by
  -- The room goes down with the height; the line is whatever the operands before it leave.
  induction e generalizing room line with
  | literal value =>
      obtain ⟨room, rfl⟩ := Nat.exists_eq_add_one.2 low
      rfl
  | grouping inner ih =>
      obtain ⟨room, rfl⟩ := Nat.exists_eq_add_one.2 (Nat.lt_of_lt_of_le (height_pos _) low)
      exact ih (Nat.le_of_succ_le_succ low)
  | unary op arg ih =>
      obtain ⟨room, rfl⟩ := Nat.exists_eq_add_one.2 (Nat.lt_of_lt_of_le (height_pos _) low)
      have same := @ih room op.line (Nat.le_of_succ_le_succ low)
      rw [eval, value, ← same]
      obtain ⟨result, line⟩ := arg.eval limit room op.line
      cases result <;> rfl
  | binary op lhs rhs ihLeft ihRight =>
      obtain ⟨room, rfl⟩ := Nat.exists_eq_add_one.2 (Nat.lt_of_lt_of_le (height_pos _) low)
      obtain ⟨lowLeft, lowRight⟩ := Nat.max_le.1 (Nat.le_of_succ_le_succ low)
      have left := @ihLeft room op.line lowLeft
      rw [eval, value, ← left]
      obtain ⟨result, line⟩ := lhs.eval limit room op.line
      cases result with
      | error e => rfl
      | ok left =>
          have right := @ihRight room line lowRight
          dsimp only
          rw [← right]
          obtain ⟨result, line⟩ := rhs.eval limit room line
          cases result <;> rfl

end Expr

/-! ## The types of operands -/

/-- The fault is about the operands, not about the operator. -/
def TypeFault.OfOperands (fault : TypeFault) : Prop :=
  fault ≠ .notUnary ∧ fault ≠ .notBinary

instance : DecidablePred TypeFault.OfOperands :=
  fun _ => inferInstanceAs (Decidable (_ ∧ _))

theorem TypeFault.OfOperands.message_ne {fault : TypeFault} (ofOperands : fault.OfOperands) :
    fault.message ≠ "Invalid unary operator." ∧ fault.message ≠ "Invalid binary operator." := by
  obtain ⟨unary, binary⟩ := ofOperands
  cases fault with
  | notUnary => exact absurd rfl unary
  | notBinary => exact absurd rfl binary
  | _ => decide

namespace Token

/-- The token is an operator of the grammar. -/
def IsOperator (t : Token) : Prop :=
  t.isUnary = true ∨ t.level?.isSome = true

/-- The operands that a unary operator asks for. -/
inductive AdmitsUnary (op : Token) : Value → Prop
  | negation {x : Float} (minus : op.kind = .symbol .minus) : AdmitsUnary op (.number x)
  | logicalNot {b : Bool} (bang : op.kind = .symbol .bang) : AdmitsUnary op (.boolean b)

/-- The operands that a binary operator asks for: every one admits two numbers, addition also
any two of which one is a string, and the equalities any two at all. -/
inductive AdmitsBinary (op : Token) : Value → Value → Prop
  | numbers {x y : Float} (operator : op.level?.isSome = true) :
      AdmitsBinary op (.number x) (.number y)
  | leftString {s : String} {rhs : Value} (plus : op.kind = .symbol .plus) :
      AdmitsBinary op (.string s) rhs
  | rightString {lhs : Value} {s : String} (plus : op.kind = .symbol .plus) :
      AdmitsBinary op lhs (.string s)
  | equality {lhs rhs : Value} (level : op.level? = some .equality) :
      AdmitsBinary op lhs rhs

/-- What an operator does with its operands: it answers with a value if it admits them, and
otherwise says what is wrong with them. -/
inductive Answers (admits : Prop) : Except TypeFault Value → Prop
  | value {v : Value} (admitted : admits) : Answers admits (.ok v)
  | fault {fault : TypeFault} (refused : ¬ admits) (ofOperands : fault.OfOperands) :
      Answers admits (.error fault)

theorem Answers.of_outcome {admits : Prop} {answer : Except TypeFault Value} {op : Token}
    {error : RuntimeError} (answers : Answers admits answer)
    (failed : op.outcome answer = .error error) :
    ∃ fault, error = .type op fault ∧ fault.OfOperands ∧ ¬ admits := by
  cases answers with
  | value => cases failed
  | fault refused ofOperands =>
      cases failed
      exact ⟨_, rfl, ofOperands, refused⟩

theorem answers_unary {op : Token} (unary : op.isUnary = true) (arg : Value) :
    Answers (op.AdmitsUnary arg) (op.applyUnary arg) := by
  rcases isUnary_iff.1 unary with kind | kind
  · have admits : op.AdmitsUnary arg ↔ ∃ b, arg = .boolean b := by
      constructor
      · rintro (minus | bang)
        · cases kind.symm.trans minus
        · exact ⟨_, rfl⟩
      · rintro ⟨b, rfl⟩
        exact .logicalNot kind
    rw [admits, applyUnary, kind]
    cases arg with
    | boolean b => exact .value ⟨b, rfl⟩
    | _ => exact .fault (by simp) (by decide)
  · have admits : op.AdmitsUnary arg ↔ ∃ x, arg = .number x := by
      constructor
      · rintro (minus | bang)
        · exact ⟨_, rfl⟩
        · cases kind.symm.trans bang
      · rintro ⟨x, rfl⟩
        exact .negation kind
    rw [admits, applyUnary, kind]
    cases arg with
    | number x => exact .value ⟨x, rfl⟩
    | _ => exact .fault (by simp) (by decide)

theorem answers_numeric {op : Token} (operator : op.level?.isSome = true)
    (plus : op.kind ≠ .symbol .plus) (equality : op.level? ≠ some .equality) {fault : TypeFault}
    (ofOperands : fault.OfOperands) (f : Float → Float → Value) (lhs rhs : Value) :
    Answers (op.AdmitsBinary lhs rhs) (Value.numeric fault f lhs rhs) := by
  have admits : op.AdmitsBinary lhs rhs ↔ ∃ x y, lhs = .number x ∧ rhs = .number y := by
    constructor
    · rintro (_ | kind | kind | level)
      · exact ⟨_, _, rfl, rfl⟩
      · exact absurd kind plus
      · exact absurd kind plus
      · exact absurd level equality
    · rintro ⟨x, y, rfl, rfl⟩
      exact .numbers operator
  rw [admits]
  unfold Value.numeric
  split
  · rename_i x y
    exact .value ⟨x, y, rfl, rfl⟩
  · rename_i other
    exact .fault (fun ⟨x, y, left, right⟩ => other x y left right) ofOperands

theorem answers_add {op : Token} (plus : op.kind = .symbol .plus) (lhs rhs : Value) :
    Answers (op.AdmitsBinary lhs rhs) (lhs.add rhs) := by
  have operator : op.level? = some .term := level?_of_kind plus
  unfold Value.add
  split
  · exact .value (.numbers (Option.isSome_of_eq_some operator))
  · exact .value (.leftString plus)
  · exact .value (.rightString plus)
  · rename_i left right numbers
    refine .fault ?_ (by decide)
    rintro (_ | _ | _ | level)
    · exact numbers _ _ rfl rfl
    · exact left _ rfl
    · exact right _ rfl
    · cases operator.symm.trans level

theorem answers_binary {op : Token} (binary : op.level?.isSome = true) (lhs rhs : Value) :
    Answers (op.AdmitsBinary lhs rhs) (op.applyBinary lhs rhs) := by
  obtain ⟨s, kind⟩ := exists_symbol_of_level? binary
  have level := level?_of_kind kind
  have numeric {fault : TypeFault} {f : Float → Float → Value}
      (other : s ≠ .plus ∧ s.level? ≠ some .equality ∧ fault.OfOperands) :
      Answers (op.AdmitsBinary lhs rhs) (Value.numeric fault f lhs rhs) :=
    answers_numeric binary (by simpa [kind] using other.1) (by simpa [level] using other.2.1)
      other.2.2 f lhs rhs
  rw [level] at binary
  rw [applyBinary, kind]
  -- Addition and the equalities admit more than numbers; the other seven differ in their fault.
  cases s with
  | plus => exact answers_add kind lhs rhs
  | equalEqual | bangEqual => exact .value (.equality level)
  | minus | star | slash | greater | greaterEqual | less | lessEqual => exact numeric (by decide)
  | _ => cases binary

end Token

/-! ## What can go wrong in a tree -/

namespace Expr

/-- Somewhere in the tree the operator has operands that evaluate to values it does not
admit. -/
inductive Misapplied : Expr → Token → Prop
  | unary {op : Token} {arg : Expr} {v : Value} (evaluates : arg.value = .ok v)
      (refused : ¬ op.AdmitsUnary v) : Misapplied (.unary op arg) op
  | binary {op : Token} {lhs rhs : Expr} {left right : Value} (evaluatesLeft : lhs.value = .ok left)
      (evaluatesRight : rhs.value = .ok right) (refused : ¬ op.AdmitsBinary left right) :
      Misapplied (.binary op lhs rhs) op
  | inGrouping {inner : Expr} {op : Token} (within : Misapplied inner op) :
      Misapplied (.grouping inner) op
  | inOperand {outer op : Token} {arg : Expr} (within : Misapplied arg op) :
      Misapplied (.unary outer arg) op
  | inLeft {outer op : Token} {lhs rhs : Expr} (within : Misapplied lhs op) :
      Misapplied (.binary outer lhs rhs) op
  | inRight {outer op : Token} {lhs rhs : Expr} (within : Misapplied rhs op) :
      Misapplied (.binary outer lhs rhs) op

/-- The operators of a tree of the grammar are operators of the grammar. -/
theorem Misapplied.isOperator {e : Expr} {op : Token} (misapplied : e.Misapplied op)
    (canonical : e.Canonical) : op.IsOperator := by
  induction misapplied with
  | unary => exact .inl canonical.1
  | binary =>
      obtain ⟨level, found, -⟩ := canonical
      exact .inr (Option.isSome_of_eq_some found)
  | inGrouping _ ih => exact ih canonical
  | inOperand _ ih => exact ih canonical.2.2
  | inLeft _ ih =>
      obtain ⟨-, -, -, -, left, -⟩ := canonical
      exact ih left
  | inRight _ ih =>
      obtain ⟨-, -, -, -, -, right⟩ := canonical
      exact ih right

/-- The operators of a tree are among the tokens that write it. -/
theorem Misapplied.mem_of_yields {e : Expr} {op : Token} {tokens : List Token}
    (misapplied : e.Misapplied op) (yields : e.Yields tokens) : op ∈ tokens := by
  induction misapplied generalizing tokens with
  | unary =>
      cases yields
      exact List.mem_cons_self
  | binary =>
      cases yields
      exact List.mem_append_right _ List.mem_cons_self
  | inGrouping _ ih =>
      cases yields with
      | grouping _ inner => exact List.mem_append_left _ (List.mem_cons_of_mem _ (ih inner))
  | inOperand _ ih =>
      cases yields with
      | unary arg => exact List.mem_cons_of_mem _ (ih arg)
  | inLeft _ ih =>
      cases yields with
      | binary left => exact List.mem_append_left _ (ih left)
  | inRight _ ih =>
      cases yields with
      | binary _ right => exact List.mem_append_right _ (List.mem_cons_of_mem _ (ih right))

/-- A tree of the grammar has a value unless an operator in it is given operands that it does
not admit, and then the error names that operator. -/
theorem misapplied_of_value_eq_error {e : Expr} {error : RuntimeError} (canonical : e.Canonical)
    (failed : e.value = .error error) :
    ∃ op fault, error = .type op fault ∧ fault.OfOperands ∧ e.Misapplied op := by
  induction e with
  | literal value => cases failed
  | grouping inner ih =>
      obtain ⟨op, fault, same, ofOperands, within⟩ := ih canonical failed
      exact ⟨op, fault, same, ofOperands, .inGrouping within⟩
  | unary op arg ih =>
      obtain ⟨unary, -, canonical⟩ := canonical
      rw [value] at failed
      cases evaluates : arg.value with
      | error e =>
          rw [evaluates] at failed
          cases failed
          obtain ⟨op, fault, same, ofOperands, within⟩ := ih canonical evaluates
          exact ⟨op, fault, same, ofOperands, .inOperand within⟩
      | ok v =>
          simp only [evaluates] at failed
          obtain ⟨fault, same, ofOperands, refused⟩ :=
            (Token.answers_unary unary v).of_outcome failed
          exact ⟨op, fault, same, ofOperands, .unary evaluates refused⟩
  | binary op lhs rhs ihLeft ihRight =>
      obtain ⟨level, found, -, -, canonical, canonical'⟩ := canonical
      have binary := Option.isSome_of_eq_some found
      rw [value] at failed
      cases evaluatesLeft : lhs.value with
      | error e =>
          rw [evaluatesLeft] at failed
          cases failed
          obtain ⟨op, fault, same, ofOperands, within⟩ := ihLeft canonical evaluatesLeft
          exact ⟨op, fault, same, ofOperands, .inLeft within⟩
      | ok left =>
          cases evaluatesRight : rhs.value with
          | error e =>
              simp only [evaluatesLeft, evaluatesRight] at failed
              cases failed
              obtain ⟨op, fault, same, ofOperands, within⟩ := ihRight canonical' evaluatesRight
              exact ⟨op, fault, same, ofOperands, .inRight within⟩
          | ok right =>
              simp only [evaluatesLeft, evaluatesRight] at failed
              obtain ⟨fault, same, ofOperands, refused⟩ :=
                (Token.answers_binary binary left right).of_outcome failed
              exact ⟨op, fault, same, ofOperands, .binary evaluatesLeft evaluatesRight refused⟩

end Expr

end Lox
