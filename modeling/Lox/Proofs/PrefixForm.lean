/-
# Lox.Proofs.PrefixForm -- the reader of prefix form

A tree in prefix form is a literal, or a head and its operands in parentheses.  The reader of
prefix form accepts these trees as far as they are within the bound, and nothing else; a higher
one is refused for its height and for nothing else.  One form has two readings, a minus sign with
its operands: it is decided behind the first operand, where a parenthesis closes a negation, and
a second operand starts with anything but that.

* `Expr.PrefixYields` -- the trees of prefix form and the tokens they are written with.
* `readsForms_prefixWithin`, `tooDeep_prefixWithin_of_lt` -- the two cases, in front of any
  other tokens.
* `Expr.prefixYields_prefixTokens` -- the tokens of a tree that is written out.
-/
import Lox.Proofs.Outcome
import Lox.Proofs.Written

namespace Lox

set_option autoImplicit false

/-! ## Trees and their tokens -/

/-- The tree written as tokens in prefix form. -/
inductive Expr.PrefixYields : Expr → List Token → Prop
  | literal {value : Value} {t : Token} (denotes : t.kind.value? = some value) :
      PrefixYields (.literal value) [t]
  | grouping {inner : Expr} {tokens : List Token} {opening head closing : Token}
      (opens : opening.is .leftParen = true) (group : Parse.isGroupHead head = true)
      (operand : PrefixYields inner tokens) (closes : closing.is .rightParen = true) :
      PrefixYields (.grouping inner) (opening :: head :: (tokens ++ [closing]))
  | unary {op : Token} {arg : Expr} {tokens : List Token} {opening closing : Token}
      (opens : opening.is .leftParen = true) (unary : op.isUnary = true)
      (operand : PrefixYields arg tokens) (closes : closing.is .rightParen = true) :
      PrefixYields (.unary op arg) (opening :: op :: (tokens ++ [closing]))
  | binary {op : Token} {lhs rhs : Expr} {before after : List Token} {opening closing : Token}
      (opens : opening.is .leftParen = true) (binary : op.level?.isSome = true)
      (left : PrefixYields lhs before) (right : PrefixYields rhs after)
      (closes : closing.is .rightParen = true) :
      PrefixYields (.binary op lhs rhs) (opening :: op :: (before ++ after ++ [closing]))

@[simp] theorem Expr.height_renumbered (e : Expr) (line : Nat) :
    (e.renumbered line).height = e.height := by
  induction e generalizing line with
  | literal value => rfl
  | grouping inner ih => simp [renumbered, height, ih]
  | unary op arg ih => simp [renumbered, height, ih]
  | binary op lhs rhs left right => simp [renumbered, height, left, right]

/-- The tokens of a tree that is written out write that tree, on the lines of its text. -/
theorem Expr.prefixYields_prefixTokens {e : Expr} (writable : e.Writable) (line : Nat) :
    (e.renumbered line).PrefixYields (e.prefixTokens line) := by
  induction e generalizing line with
  | literal value => exact .literal value.value?_kind
  | grouping inner ih => exact .grouping rfl rfl (ih writable line) rfl
  | unary op arg ih =>
      obtain ⟨unary, -, writable⟩ := writable
      exact .unary rfl unary (ih writable line) rfl
  | binary op lhs rhs left right =>
      obtain ⟨binary, -, writable, writable'⟩ := writable
      rw [prefixTokens, ← List.append_assoc]
      exact .binary rfl binary (left writable line) (right writable' _) rfl

namespace Parse

/-- A reading that is refused for the height of its tree. -/
def TooDeep {α : Type} (x : Outcome α) : Prop :=
  ∃ site stop, x = .error ⟨.tooDeep, site, stop⟩

theorem TooDeep.andThen {α β : Type} {x : Outcome α} (deep : TooDeep x)
    (next : α → List Token → Outcome β) : TooDeep (x.andThen next) := by
  obtain ⟨site, stop, rfl⟩ := deep
  exact ⟨site, stop, rfl⟩

/-! ## Forms by their heads -/

section Form

variable (deeper : Reader Expr) (tokens : List Token)

/-- Demands the parenthesis that closes a form. -/
abbrev closed (node : Expr) : List Token → Outcome Expr :=
  closedBy .rightParen .parenAfterOperandsExpected node

theorem outcome_form_mapped {make : Expr → Expr} {head : Token}
    (found : headed? deeper head = some fun tokens => (deeper tokens).map fun r => r.map make) :
    outcome (form deeper (head :: tokens)) =
      (outcome (deeper tokens)).andThen fun e => closed (make e) := by
  rw [outcome_form_of_headed? found, outcome_map]
  cases outcome (deeper tokens) <;> rfl

theorem outcome_form_bang {op : Token} (bang : op.kind = .symbol .bang) :
    outcome (form deeper (op :: tokens)) =
      (outcome (deeper tokens)).andThen fun arg => closed (.unary op arg) := by
  have group : ¬ isGroupHead op = true := by simp [isGroupHead, bang]
  exact outcome_form_mapped deeper tokens ((if_neg group).trans (if_pos (Token.is_iff.2 bang)))

/-- A minus sign is told from a negation behind its first operand. -/
theorem outcome_form_binary {op : Token} (binary : op.level?.isSome = true) :
    outcome (form deeper (op :: tokens)) =
      (outcome (deeper tokens)).andThen fun lhs middle =>
        if op.is .minus && closesNext middle then closed (.unary op lhs) middle
        else (outcome (deeper middle)).andThen fun rhs => closed (.binary op lhs rhs) := by
  obtain ⟨s, kind⟩ := Token.exists_symbol_of_level? binary
  have group : ¬ isGroupHead op = true := by simp [isGroupHead, kind]
  have bang : ¬ op.is .bang = true := by
    intro bang
    rw [Token.level?_of_kind (Token.is_iff.1 bang)] at binary
    cases binary
  have found : headed? deeper op = some (operandsOf deeper op) :=
    (if_neg group).trans ((if_neg bang).trans (if_pos binary))
  rw [outcome_form_of_headed? found, outcome_operandsOf]
  cases outcome (deeper tokens) with
  | error refusal => rfl
  | ok read =>
      obtain ⟨lhs, middle⟩ := read
      simp only [Outcome.andThen_ok]
      by_cases negates : (op.is .minus && closesNext middle) = true
      · rw [if_pos negates, if_pos negates]
        rfl
      · rw [if_neg negates, if_neg negates]
        cases outcome (deeper middle) <;> rfl

/-- A unary operator is told from a binary one, if it may be either, in the same place. -/
theorem outcome_form_unary {op : Token} (unary : op.isUnary = true) :
    outcome (form deeper (op :: tokens)) =
      (outcome (deeper tokens)).andThen fun arg middle =>
        if op.is .bang || closesNext middle then closed (.unary op arg) middle
        else (outcome (deeper middle)).andThen fun rhs => closed (.binary op arg rhs) := by
  rcases Token.isUnary_iff.1 unary with bang | minus
  · rw [outcome_form_bang deeper tokens bang, Token.is_iff.2 bang]
    rfl
  · have binary : op.level?.isSome = true := by
      rw [Token.level?_of_kind minus]
      rfl
    have other : op.is .bang = false := by simp [Token.is, minus]
    rw [outcome_form_binary deeper tokens binary, Token.is_iff.2 minus, other]
    rfl

end Form

/-! ## Trees -/

/-- What a tree is written with starts with no closing parenthesis. -/
theorem closesNext_of_prefixYields {e : Expr} {read : List Token} (yields : e.PrefixYields read)
    (rest : List Token) : closesNext (read ++ rest) = false := by
  cases yields with
  | @literal value t denotes =>
      have other := Token.not_symbol_of_value? denotes .rightParen
      show t.is .rightParen = false
      rwa [← Bool.not_eq_true, Token.is_iff]
  | @grouping _ _ opening _ _ opens
  | @unary _ _ _ opening _ opens
  | @binary _ _ _ _ _ opening _ opens =>
      show opening.is .rightParen = false
      simp [Token.is, Token.is_iff.1 opens]

/-- The reader accepts the trees of so many levels where what they are written with comes first,
leaves what comes behind, and accepts nothing else. -/
def ReadsForms (room : Nat) (reader : Reader Expr) : Prop :=
  ∀ {tokens rest : List Token} {e : Expr}, outcome (reader tokens) = .ok (e, rest) ↔
    e.height ≤ room ∧ ∃ read, e.PrefixYields read ∧ tokens = read ++ rest

section Node

variable {room : Nat} {deeper : Reader Expr} {tokens rest : List Token} {e : Expr}

theorem ReadsForms.reads (exact : ReadsForms room deeper) (low : e.height ≤ room)
    {read : List Token} (yields : e.PrefixYields read) (rest : List Token) :
    outcome (deeper (read ++ rest)) = .ok (e, rest) :=
  exact.2 ⟨low, read, yields, rfl⟩

theorem closed_cons {node : Expr} {closing : Token} (closes : closing.is .rightParen = true)
    (rest : List Token) : closed node (closing :: rest) = .ok (node, rest) :=
  if_pos closes

theorem form_append (opening head closing : Token) (inside rest : List Token) :
    opening :: head :: (inside ++ [closing]) ++ rest =
      opening :: head :: (inside ++ closing :: rest) := by
  simp

theorem outcome_prefixNode_of_opens {t : Token} (opens : t.is .leftParen = true) :
    outcome (prefixNode deeper (t :: tokens)) = outcome (form deeper tokens) := by
  rw [outcome_prefixNode_cons, Token.value?_of_symbol (Token.is_iff.1 opens)]
  exact if_pos opens

/-- Nothing else can be the head of a form. -/
theorem not_accepted_of_head {head : Token} (group : ¬ isGroupHead head = true)
    (bang : ¬ head.is .bang = true) (binary : ¬ head.level?.isSome = true) :
    outcome (form deeper (head :: tokens)) ≠ .ok (e, rest) := by
  have none : headed? deeper head = none :=
    (if_neg group).trans ((if_neg bang).trans (if_neg binary))
  rw [form, none]
  rintro ⟨⟩

/-- What is accepted behind an opening parenthesis is a tree of one more level. -/
theorem form_sound {opening : Token} (opens : opening.is .leftParen = true)
    (exact : ReadsForms room deeper) (done : outcome (form deeper tokens) = .ok (e, rest)) :
    e.height ≤ room + 1 ∧ ∃ read, e.PrefixYields read ∧ opening :: tokens = read ++ rest := by
  cases tokens with
  | nil => cases done
  | cons head tokens =>
      by_cases group : isGroupHead head = true
      · rw [outcome_form_mapped deeper tokens (if_pos group)] at done
        obtain ⟨inner, beyond, readInner, behind⟩ := Outcome.andThen_eq_ok done
        obtain ⟨low, read, yields, rfl⟩ := exact.1 readInner
        obtain ⟨rfl, closing, rfl, closes⟩ := closedBy_eq_ok_iff.1 behind
        exact ⟨Nat.succ_le_succ low, _, .grouping opens group yields closes, by simp⟩
      by_cases bang : head.is .bang = true
      · rw [outcome_form_bang deeper tokens (Token.is_iff.1 bang)] at done
        obtain ⟨arg, beyond, readArg, behind⟩ := Outcome.andThen_eq_ok done
        obtain ⟨low, read, yields, rfl⟩ := exact.1 readArg
        obtain ⟨rfl, closing, rfl, closes⟩ := closedBy_eq_ok_iff.1 behind
        have unary := Token.isUnary_iff.2 (.inl (Token.is_iff.1 bang))
        exact ⟨Nat.succ_le_succ low, _, .unary opens unary yields closes, by simp⟩
      by_cases binary : head.level?.isSome = true
      · rw [outcome_form_binary deeper tokens binary] at done
        obtain ⟨lhs, middle, readLhs, behind⟩ := Outcome.andThen_eq_ok done
        obtain ⟨low, before, left, rfl⟩ := exact.1 readLhs
        -- The parenthesis behind the first operand makes a minus sign a negation.
        split at behind
        · rename_i negates
          obtain ⟨rfl, closing, rfl, closes⟩ := closedBy_eq_ok_iff.1 behind
          have minus := Token.is_iff.1 (Bool.and_eq_true_iff.1 negates).1
          have unary := Token.isUnary_iff.2 (.inr minus)
          exact ⟨Nat.succ_le_succ low, _, .unary opens unary left closes, by simp⟩
        · obtain ⟨rhs, beyond, readRhs, ends⟩ := Outcome.andThen_eq_ok behind
          obtain ⟨low', after, right, rfl⟩ := exact.1 readRhs
          obtain ⟨rfl, closing, rfl, closes⟩ := closedBy_eq_ok_iff.1 ends
          exact ⟨Nat.succ_le_succ (Nat.max_le.2 ⟨low, low'⟩), _,
            .binary opens binary left right closes, by simp⟩
      · exact absurd done (not_accepted_of_head group bang binary)

theorem prefixNode_sound (exact : ReadsForms room deeper)
    (done : outcome (prefixNode deeper tokens) = .ok (e, rest)) :
    e.height ≤ room + 1 ∧ ∃ read, e.PrefixYields read ∧ tokens = read ++ rest := by
  cases tokens with
  | nil => cases done
  | cons t tokens =>
      rw [outcome_prefixNode_cons] at done
      split at done
      · rename_i value denotes
        cases done
        exact ⟨Nat.le_add_left 1 room, [t], .literal denotes, rfl⟩
      · split at done
        · rename_i opens
          exact form_sound opens exact done
        · cases done

/-- Every tree of one more level is accepted. -/
theorem prefixNode_complete (exact : ReadsForms room deeper) {read : List Token}
    (yields : e.PrefixYields read) (low : e.height ≤ room + 1) (rest : List Token) :
    outcome (prefixNode deeper (read ++ rest)) = .ok (e, rest) := by
  cases yields with
  | literal denotes => rw [List.singleton_append, outcome_prefixNode_cons, denotes]
  | grouping opens group operand closes =>
      simp only [Expr.height, Nat.add_le_add_iff_right] at low
      rw [form_append, outcome_prefixNode_of_opens opens, outcome_form_mapped _ _ (if_pos group),
        exact.reads low operand, Outcome.andThen_ok, closed_cons closes]
  | @unary op arg _ _ closing opens unary operand closes =>
      simp only [Expr.height, Nat.add_le_add_iff_right] at low
      have negates : (op.is .bang || closesNext (closing :: rest)) = true :=
        Bool.or_eq_true_iff.2 (.inr closes)
      rw [form_append, outcome_prefixNode_of_opens opens, outcome_form_unary _ _ unary,
        exact.reads low operand, Outcome.andThen_ok, if_pos negates, closed_cons closes]
  | binary opens binary left right closes =>
      simp only [Expr.height, Nat.add_le_add_iff_right, Nat.max_le] at low
      rw [form_append, List.append_assoc, outcome_prefixNode_of_opens opens,
        outcome_form_binary _ _ binary, exact.reads low.1 left, Outcome.andThen_ok,
        closesNext_of_prefixYields right, Bool.and_false, if_neg Bool.false_ne_true,
        exact.reads low.2 right, Outcome.andThen_ok, closed_cons closes]

end Node

/-- The reader of prefix form accepts these trees and nothing else. -/
theorem readsForms_prefixWithin (room : Nat) : ReadsForms room (prefixWithin room) := by
  -- Operands are read with one level less, so that both directions go by one induction.
  induction room with
  | zero =>
      intro tokens rest e
      constructor
      · rintro ⟨⟩
      · rintro ⟨low, -⟩
        exact absurd e.height_pos (Nat.not_lt_of_ge low)
  | succ room exact =>
      intro tokens rest e
      constructor
      · exact prefixNode_sound exact
      · rintro ⟨low, read, yields, rfl⟩
        exact prefixNode_complete exact yields low rest

/-- A tree beyond the bound is refused for its height. -/
theorem tooDeep_prefixWithin_of_lt {e : Expr} {read : List Token} (yields : e.PrefixYields read)
    {room : Nat} (high : room < e.height) (rest : List Token) :
    TooDeep (outcome (prefixWithin room (read ++ rest))) := by
  induction room generalizing e read rest with
  | zero => exact ⟨_, _, rfl⟩
  | succ room ih =>
      rw [prefixWithin]
      cases yields with
      | literal => exact absurd high (Nat.not_lt_of_ge (Nat.le_add_left 1 room))
      | grouping opens group operand =>
          simp only [Expr.height, Nat.add_lt_add_iff_right] at high
          rw [form_append, outcome_prefixNode_of_opens opens,
            outcome_form_mapped _ _ (if_pos group)]
          exact (ih operand high _).andThen _
      | unary opens unary operand =>
          simp only [Expr.height, Nat.add_lt_add_iff_right] at high
          rw [form_append, outcome_prefixNode_of_opens opens, outcome_form_unary _ _ unary]
          exact (ih operand high _).andThen _
      | @binary _ lhs rhs _ _ _ _ opens binary left right =>
          simp only [Expr.height, Nat.add_lt_add_iff_right] at high
          rw [form_append, List.append_assoc, outcome_prefixNode_of_opens opens,
            outcome_form_binary _ _ binary]
          by_cases low : lhs.height ≤ room
          · have high : room < rhs.height := by omega
            rw [ReadsForms.reads (readsForms_prefixWithin room) low left, Outcome.andThen_ok,
              closesNext_of_prefixYields right, Bool.and_false, if_neg Bool.false_ne_true]
            exact (ih right high _).andThen _
          · exact (ih left (Nat.lt_of_not_le low) _).andThen _

/-! ## Whole inputs -/

/-- Behind the tree the input has to end. -/
theorem outcome_prefixExpression_eq_ok_iff {bound : Nat} {tokens rest : List Token} {e : Expr} :
    outcome (prefixExpression bound tokens) = .ok (e, rest) ↔
      rest = [] ∧ e.height ≤ bound ∧ e.PrefixYields tokens := by
  rw [outcome_prefixExpression]
  constructor
  · intro done
    obtain ⟨tree, beyond, read, ends⟩ := Outcome.andThen_eq_ok done
    obtain ⟨low, front, yields, rfl⟩ := (readsForms_prefixWithin bound).1 read
    split at ends
    · rename_i none
      cases ends
      rw [List.isEmpty_iff.1 none, List.append_nil]
      exact ⟨rfl, low, yields⟩
    · cases ends
  · rintro ⟨rfl, low, yields⟩
    have read : outcome (prefixWithin bound tokens) = .ok (e, []) :=
      (readsForms_prefixWithin bound).2 ⟨low, tokens, yields, (List.append_nil _).symm⟩
    rw [read]
    rfl

theorem tooDeep_prefixExpression_of_lt {e : Expr} {tokens : List Token}
    (yields : e.PrefixYields tokens) {bound : Nat} (high : bound < e.height) :
    TooDeep (outcome (prefixExpression bound tokens)) := by
  have deep := tooDeep_prefixWithin_of_lt yields high []
  rw [List.append_nil] at deep
  rw [outcome_prefixExpression]
  exact deep.andThen _

end Parse

end Lox
