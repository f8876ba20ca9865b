/-
# Lox.Proofs.Descent -- a parser that reports where it stands

Reading takes tokens and answers with what it came to; what is wrong is told from outside, when
the answer is there.  A parser may as well do everything where it stands: it goes down through the
levels of the grammar token by token, counts the expressions that it is inside of, and reports a
problem at once where it meets it.  Everything around such a place then has to hand the rejection
on without another word, and to put the count back.  Nor does it go through a tree again to find
its height: the height is carried along with the tree, and that of a node is one more than that of
its highest operand.  It comes to the same: each reading in place leaves what the reading of the
tokens ahead comes to, with one report for a rejection and none otherwise, and its count where it
was; and the height that is carried is that of the tree.

* `Descent` -- a parser with a count of its own; `Descent.Action` -- what it can be made to do.
* `Measured`, `Expr.measured` -- an expression and a height to go with it, and its own.
* `Descent.tree` -- reading an expression with its height in place; `Descent.expression`,
  `Descent.statement`, `Descent.prefixExpression` -- reading in place without.
* `Descent.conclude`, `Descent.Follows` -- what an outcome is in place, and actions that come to
  what a reader does; `Descent.andThen_of_conclude` goes on from what was read.
* `Descent.measuring`, `Descent.tree_mk` -- the height that is carried is the height of the tree.
* `Descent.expression_mk`, `Descent.statement_mk`, `Descent.prefixExpression_mk` -- a parser
  does the same whether it reads in place or not.
-/
import Lox.Proofs.Outcome

namespace Lox

set_option autoImplicit false

/-- An expression, and a height to go with it. -/
abbrev Measured := Expr × Nat

/-- An expression with its own height. -/
def Expr.measured (e : Expr) : Measured :=
  (e, e.height)

/-- A parser that counts how many expressions it is inside of. -/
structure Descent extends Parser where
  depth : Nat := 0

namespace Descent

/-! ## Actions -/

/-- What is done by a parser: a value or a rejection, and the parser afterwards. -/
abbrev Action (α : Type) :=
  Descent → Except Rejection α × Descent

/-- The token that the parser stands before. -/
def current (d : Descent) : Token :=
  d.ahead.head?.getD d.last

/-- Past the current token, unless the input ends. -/
def advance (d : Descent) : Descent :=
  { d with ahead := d.ahead.tail }

/-- One expression further in. -/
def down (d : Descent) : Descent :=
  { d with depth := d.depth + 1 }

/-- Out of an expression again. -/
def up (d : Descent) : Descent :=
  { d with depth := d.depth - 1 }

variable {α β : Type}

/-- Rejects a token, and reports it at once. -/
def raise (t : Token) (problem : Problem) : Action α := fun d =>
  let rejection : Rejection := ⟨t, problem⟩
  (.error rejection, { d with reported := d.reported ++ [rejection.diagnostic] })

/-- Rejects the current token. -/
def unexpected (problem : Problem) : Action α := fun d =>
  raise d.current problem d

/-- Goes on after an action; a rejection is handed on as it is. -/
def andThen (first : Action α) (next : α → Action β) : Action β := fun d =>
  match first d with
  | (.ok a, d) => next a d
  | (.error rejection, d) => (.error rejection, d)

/-- Demands a symbol and goes past it. -/
def expect (s : Symbol) (otherwise : Problem) (value : α) : Action α := fun d =>
  if d.current.is s then (.ok value, d.advance) else unexpected otherwise d

/-- Does something inside of one more expression, unless there are as many as may be, and comes
out again whatever it came to. -/
def nested (bound : Nat) (inside : Action α) : Action α := fun d =>
  if bound ≤ d.depth then unexpected .tooDeep d else Prod.map id up (inside d.down)

/-- The height of a node whose highest operand is so high.  Beyond the bound there is none, and the
token of the node is rejected. -/
def grow (bound : Nat) (t : Token) (height : Nat) : Action Nat := fun d =>
  if bound ≤ height then raise t .tooDeep d else (.ok (height + 1), d)

/-- A node whose highest operand is so high, with its own height. -/
def node (bound : Nat) (t : Token) (e : Expr) (height : Nat) : Action Measured :=
  andThen (grow bound t height) fun height d => (.ok (e, height), d)

/-! ## Expressions -/

/-- Goes on from a left operand as long as operators of the level come. -/
def fold (bound : Nat) (level : Level) (operand : Action Measured) (left : Measured)
    (d : Descent) : Except Rejection Measured × Descent :=
  if d.current.level? = some level then
    match operand d.advance with
    | (.error rejection, d') => (.error rejection, d')
    | (.ok right, d') =>
      if bound ≤ max left.2 right.2 then raise d.current .tooDeep d'
      else
        fold bound level operand (.binary d.current left.1 right.1, max left.2 right.2 + 1) d'
  else (.ok left, d)
termination_by bound - left.2

/-- Operands joined by operators of one level. -/
def joined (bound : Nat) (level : Level) (operand : Action Measured) : Action Measured :=
  andThen operand (fold bound level operand)

/-- Operands joined by any binary operators, the tighter levels first. -/
def levels (bound : Nat) (operand : Action Measured) : Action Measured :=
  joined bound .equality <|
    joined bound .comparison <|
      joined bound .term <|
        joined bound .factor operand

/-- An expression with its height, one expression further in. -/
def tree (bound : Nat) (operand : Action Measured) : Action Measured :=
  nested bound (levels bound operand)

/-- The parenthesis that closes a grouping. -/
def close (bound : Nat) (inner : Measured) : Action Measured := fun d =>
  if d.current.is .rightParen then
    node bound d.current (.grouping inner.1) inner.2 d.advance
  else unexpected .parenAfterExpressionExpected d

/-- A literal, a grouping, or a unary operator with its operand; `deeper` reads operands one
expression further in. -/
def operand (bound : Nat) (deeper : Action Measured) : Action Measured := fun d =>
  if d.current.isUnary then
    andThen (nested bound deeper)
      (fun arg => node bound d.current (.unary d.current arg.1) arg.2) d.advance
  else
    match d.current.kind.value? with
    | some value => (.ok (.literal value, 1), d.advance)
    | none =>
      if d.current.is .leftParen then andThen (tree bound deeper) (close bound) d.advance
      else unexpected .expressionExpected d

/-- An operand with expressions inside of it, at most `room` of them inside of each other.  It is
the count that refuses one more; `room` only has to be enough. -/
def operandWithin (bound : Nat) : Nat → Action Measured
  | 0 => operand bound (unexpected .tooDeep)
  | room + 1 => operand bound (operandWithin bound room)

/-- An expression. -/
def expression (bound : Nat) : Action Expr :=
  andThen (tree bound (operandWithin bound bound)) fun read d => (.ok read.1, d)

/-! ## Statements -/

/-- An expression made into a statement, and the semicolon that ends it. -/
def terminated (bound : Nat) (make : Expr → Stmt) (missing : Problem) : Action Stmt :=
  andThen (expression bound) fun e => expect .semicolon missing (make e)

/-- A statement. -/
def statement (bound : Nat) : Action Stmt := fun d =>
  if d.current.kind = .keyword .printWord then
    terminated bound .print .semicolonAfterValueExpected d.advance
  else terminated bound .expression .semicolonAfterExpressionExpected d

/-! ## Prefix form -/

/-- The operands of a binary operator, or the one operand of a minus sign. -/
def operandsOf (deeper : Action Expr) (head : Token) : Action Expr :=
  andThen deeper fun lhs d =>
    if head.is .minus && d.current.is .rightParen then (.ok (.unary head lhs), d)
    else andThen deeper (fun rhs d => (.ok (.binary head lhs rhs), d)) d

/-- What follows a head, which has been taken and may turn out to be none. -/
def headed (deeper : Action Expr) (head : Token) : Action Expr :=
  if Parse.isGroupHead head then andThen deeper fun inner d => (.ok (.grouping inner), d)
  else if head.is .bang then andThen deeper fun arg d => (.ok (.unary head arg), d)
  else if head.level?.isSome then operandsOf deeper head
  else raise head .headExpected

/-- The head, the operands and the closing parenthesis of a form. -/
def form (deeper : Action Expr) : Action Expr := fun d =>
  andThen (headed deeper d.current) (expect .rightParen .parenAfterOperandsExpected) d.advance

/-- A literal or a form. -/
def prefixNode (deeper : Action Expr) : Action Expr := fun d =>
  match d.current.kind.value? with
  | some value => (.ok (.literal value), d.advance)
  | none =>
    if d.current.is .leftParen then form deeper d.advance else unexpected .expressionExpected d

/-- A tree in prefix form with trees inside of it, at most `room` of them inside of each other. -/
def prefixWithin (bound : Nat) : Nat → Action Expr
  | 0 => nested bound (unexpected .tooDeep)
  | room + 1 => nested bound (prefixNode (prefixWithin bound room))

/-- A tree in prefix form, after which the input ends. -/
def prefixExpression (bound : Nat) : Action Expr :=
  andThen (prefixWithin bound bound) fun tree d =>
    if d.ahead.isEmpty then (.ok tree, d) else unexpected .endExpected d

/-! ## What it comes to

Where an outcome is known, so is what it is in place. -/

open Parse (Outcome Reader outcome)

/-- The parser before these tokens. -/
def before (d : Descent) (tokens : List Token) : Descent :=
  { d with ahead := tokens }

@[simp] theorem depth_before (d : Descent) (tokens : List Token) :
    (d.before tokens).depth = d.depth :=
  rfl

@[simp] theorem current_before_nil (d : Descent) : (d.before []).current = d.last := rfl

@[simp] theorem current_before_cons (d : Descent) (t : Token) (rest : List Token) :
    (d.before (t :: rest)).current = t :=
  rfl

@[simp] theorem advance_before_cons (d : Descent) (t : Token) (rest : List Token) :
    (d.before (t :: rest)).advance = d.before rest :=
  rfl

/-- An outcome in place: a refusal is reported, and nothing else is. -/
def conclude (d : Descent) : Outcome α → Except Rejection α × Descent
  | .ok (value, rest) => (.ok value, d.before rest)
  | .error refusal =>
    raise (refusal.site.head?.getD d.last) refusal.problem (d.before refusal.stop)

/-- Going on in place is going on with what was read. -/
theorem andThen_of_conclude {d d' : Descent} {first : Action α} {next : α → Action β}
    {came : Outcome α} {go : α → List Token → Outcome β} (front : first d' = d.conclude came)
    (back : ∀ a rest, came = .ok (a, rest) → next a (d.before rest) = d.conclude (go a rest)) :
    andThen first next d' = d.conclude (came.andThen go) := by
  unfold andThen
  rw [front]
  cases came with
  | error refusal => rfl
  | ok read => exact back read.1 read.2 rfl

/-- An outcome with the height of the tree that was read. -/
def measured (came : Outcome Expr) : Outcome Measured :=
  came.andThen fun e rest => .ok (e.measured, rest)

/-- Going on in place from a tree and its height is going on from the tree that was read. -/
theorem andThen_of_measured {d d' : Descent} {first : Action Measured}
    {next : Measured → Action Measured} {came : Outcome Expr}
    {go : Expr → List Token → Outcome Expr} (front : first d' = d.conclude (measured came))
    (back : ∀ e rest, came = .ok (e, rest) →
      next e.measured (d.before rest) = d.conclude (measured (go e rest))) :
    andThen first next d' = d.conclude (measured (came.andThen go)) := by
  have regrouped : measured (came.andThen go) =
      (measured came).andThen fun read rest => measured (go read.1 rest) := by
    cases came <;> rfl
  rw [regrouped]
  apply andThen_of_conclude front
  intro _ _ read
  obtain ⟨e, _, came, ⟨⟩⟩ := Outcome.andThen_eq_ok read
  exact back e _ came

/-- The reader, with the height of the tree that it reads. -/
def measuring (reader : Reader Expr) : Reader Measured := fun tokens =>
  (reader tokens).map fun r => r.map Expr.measured

theorem outcome_measuring (reader : Reader Expr) (tokens : List Token) :
    outcome (measuring reader tokens) = measured (outcome (reader tokens)) :=
  Parse.outcome_map (reader tokens) Expr.measured

/-- In a parser whose input ends, at this count, the action comes to what the reader does. -/
def Follows (depth : Nat) (action : Action α) (reader : Reader α) : Prop :=
  ∀ {d : Descent}, d.last.kind = .eof → d.depth = depth → ∀ tokens,
    action (d.before tokens) = d.conclude (outcome (reader tokens))

section Follows

variable {bound depth : Nat} {d : Descent}

/-- Where the input ends there is no symbol. -/
theorem is_last (ends : d.last.kind = .eof) (s : Symbol) : d.last.is s = false := by
  simp [Token.is, ends]

/-! ### One expression further in -/

theorem nested_of_full {action : Action α} (full : bound ≤ depth) :
    Follows depth (nested bound action) (Parse.stuck .tooDeep) := by
  rintro d - rfl tokens
  rw [nested, depth_before, if_pos full]
  rfl

theorem nested_follows {action : Action α} {reader : Reader α} (free : depth < bound)
    (follows : Follows (depth + 1) action reader) :
    Follows depth (nested bound action) reader := by
  rintro d ends rfl tokens
  have inside : action (d.before tokens).down = d.down.conclude (outcome (reader tokens)) :=
    @follows d.down ends rfl tokens
  rw [nested, depth_before, if_neg (Nat.not_le_of_lt free), inside]
  cases outcome (reader tokens) <;> rfl

/-! ### Expressions -/

section Expressions

variable {action : Action Measured} {reader : Reader Expr}

theorem Follows.measured (follows : Follows depth action (measuring reader))
    (ends : d.last.kind = .eof) (counted : d.depth = depth) (tokens : List Token) :
    action (d.before tokens) = d.conclude (Descent.measured (outcome (reader tokens))) := by
  rw [follows ends counted tokens, outcome_measuring]

/-- One more than the height of the highest operand is the height of the node. -/
theorem node_before (t : Token) (rest stop : List Token) {e : Expr} {height : Nat}
    (higher : e.height = height + 1) :
    node bound t e height (d.before stop) =
      d.conclude (measured (Parse.capped bound (t :: rest) e stop)) := by
  rw [node, andThen, grow]
  by_cases full : bound ≤ height
  · rw [if_pos full, Parse.capped, if_neg (by omega)]
    rfl
  · rw [if_neg full, Parse.capped_of_le (by omega), ← higher]
    rfl

/-- One turn: the right operand is read, and the two become the left operand of what follows. -/
theorem fold_turn {level : Level} (same : d.current.level? = some level) (left : Measured) :
    fold bound level action left d =
      andThen action (fun right =>
        andThen (node bound d.current (.binary d.current left.1 right.1) (max left.2 right.2))
          (fold bound level action)) d.advance := by
  rw [fold, if_pos same]
  simp only [andThen, node, grow]
  obtain ⟨_ | right, d'⟩ := action d.advance
  · rfl
  · dsimp only
    split <;> rfl

theorem fold_before {level : Level} (follows : Follows depth action (measuring reader))
    (ends : d.last.kind = .eof) (counted : d.depth = depth) (left : Expr) (next : List Token) :
    fold bound level action left.measured (d.before next) =
      d.conclude (measured (Parse.foldFrom bound level reader left next)) := by
  induction next using Parse.fold_induction level reader generalizing left with
  | @stop next other =>
      have other' : (d.before next).current.level? ≠ some level := by
        cases next with
        | nil => simp [Token.level?, ends]
        | cons t rest => exact other t rfl
      rw [fold, if_neg other', Parse.foldFrom_of_level?_ne left other]
      rfl
  | @turn op next same ih =>
      rw [fold_turn (d := d.before (op :: next)) same, Parse.foldFrom_cons left next same]
      apply andThen_of_measured (follows.measured ends counted next)
      intro right beyond read
      apply andThen_of_measured (node_before op next beyond rfl)
      intro node rest isCapped
      obtain ⟨rfl, rfl, -⟩ := Parse.capped_eq_ok isCapped
      exact ih right _ read _

theorem joined_follows (level : Level) (follows : Follows depth action (measuring reader)) :
    Follows depth (joined bound level action)
      (measuring (Parse.leftAssociative bound level reader)) := by
  intro d ends counted tokens
  rw [outcome_measuring, Parse.outcome_leftAssociative]
  apply andThen_of_measured (follows.measured ends counted tokens)
  intro left rest _
  exact fold_before follows ends counted left rest

theorem levels_follows (follows : Follows depth action (measuring reader)) :
    Follows depth (levels bound action) (measuring (Parse.levels bound reader)) :=
  joined_follows .equality <|
    joined_follows .comparison <|
      joined_follows .term <|
        joined_follows .factor follows

theorem close_before (ends : d.last.kind = .eof) (inner : Expr) (tokens : List Token) :
    close bound inner.measured (d.before tokens) =
      d.conclude (measured (Parse.closing bound inner tokens)) := by
  cases tokens with
  | nil =>
      rw [close, if_neg (by simp [is_last ends])]
      rfl
  | cons t rest =>
      rw [close, Parse.closing, advance_before_cons, current_before_cons]
      split
      · exact node_before t rest rest rfl
      · rfl

/-- With no room for an expression none of any level is read. -/
theorem outcome_levels_stuck (tokens : List Token) :
    outcome (Parse.levels bound (Parse.stuck .tooDeep) tokens) =
      outcome (Parse.stuck .tooDeep tokens : Except _ (Parse.Read Expr tokens)) := by
  simp [Parse.levels, Parse.outcome_leftAssociative]

/-- The count stands for the room that is left: what is read one expression further in comes to
what the reader does that has so much room. -/
theorem nested_operand (below : depth < bound → Follows (depth + 1) action
      (measuring (Parse.operand bound (Parse.operandWithin bound (bound - (depth + 1)))))) :
    Follows depth (nested bound action)
        (measuring (Parse.operandWithin bound (bound - depth))) ∧
      Follows depth (tree bound action)
        (measuring (Parse.levels bound (Parse.operandWithin bound (bound - depth)))) := by
  by_cases full : bound ≤ depth
  · rw [Nat.sub_eq_zero_of_le full]
    refine ⟨nested_of_full full, fun ends counted tokens => ?_⟩
    rw [tree, nested_of_full full ends counted, outcome_measuring]
    exact congrArg (conclude _ ∘ measured) (outcome_levels_stuck tokens).symm
  · have free : depth < bound := Nat.lt_of_not_le full
    rw [show bound - depth = bound - (depth + 1) + 1 by omega]
    exact ⟨nested_follows free (below free), nested_follows free (levels_follows (below free))⟩

theorem operand_follows (below : depth < bound → Follows (depth + 1) action
      (measuring (Parse.operand bound (Parse.operandWithin bound (bound - (depth + 1)))))) :
    Follows depth (operand bound action)
      (measuring (Parse.operand bound (Parse.operandWithin bound (bound - depth)))) := by
  obtain ⟨arguments, inside⟩ := nested_operand below
  intro d ends counted tokens
  rw [outcome_measuring]
  cases tokens with
  | nil =>
      have nothing : d.last.isUnary = false ∧ d.last.kind.value? = none := by
        simp [Token.isUnary, is_last ends, ends, Kind.value?, Kind.literal]
      simp [operand, nothing, is_last ends]
      rfl
  | cons t rest =>
      rw [operand, Parse.outcome_operand_cons, current_before_cons, advance_before_cons]
      split
      · apply andThen_of_measured (arguments.measured ends counted rest)
        intro arg beyond _
        exact node_before t rest beyond rfl
      · cases t.kind.value? with
        | some value => rfl
        | none =>
            dsimp only
            split
            · apply andThen_of_measured (inside.measured ends counted rest)
              intro e beyond _
              exact close_before ends e beyond
            · rfl

theorem operandWithin_follows {room : Nat} (enough : bound ≤ depth + room) :
    Follows depth (operandWithin bound room)
      (measuring (Parse.operand bound (Parse.operandWithin bound (bound - depth)))) := by
  induction room generalizing depth with
  | zero => exact operand_follows fun free => absurd enough (Nat.not_le_of_lt free)
  | succ room ih => exact operand_follows fun _ => ih (by omega)

theorem tree_follows :
    Follows 0 (tree bound (operandWithin bound bound)) (measuring (Parse.expression bound)) :=
  (nested_operand fun _ => operandWithin_follows (by omega)).2

theorem expression_follows : Follows 0 (expression bound) (Parse.expression bound) := by
  intro d ends counted tokens
  rw [expression, andThen, tree_follows.measured ends counted]
  cases outcome (Parse.expression bound tokens) <;> rfl

end Expressions

/-! ### Statements -/

theorem expect_before {s : Symbol} {otherwise : Problem} (ends : d.last.kind = .eof) (value : α)
    (tokens : List Token) :
    expect s otherwise value (d.before tokens) =
      d.conclude (Parse.closedBy s otherwise value tokens) := by
  cases tokens with
  | nil =>
      rw [expect, if_neg (by simp [is_last ends])]
      rfl
  | cons t rest =>
      rw [expect, Parse.closedBy, advance_before_cons, current_before_cons]
      split <;> rfl

theorem terminated_follows (make : Expr → Stmt) (missing : Problem) :
    Follows 0 (terminated bound make missing) (Parse.terminated bound make missing) := by
  intro d ends counted tokens
  rw [Parse.outcome_terminated]
  apply andThen_of_conclude (expression_follows ends counted tokens)
  intro e beyond _
  exact expect_before ends (make e) beyond

theorem statement_follows : Follows 0 (statement bound) (Parse.statement bound) := by
  intro d ends counted tokens
  cases tokens with
  | nil =>
      rw [statement, if_neg (by simp [ends])]
      exact terminated_follows _ _ ends counted []
  | cons t rest =>
      rw [statement, Parse.outcome_statement_cons, current_before_cons, advance_before_cons]
      split
      · exact terminated_follows _ _ ends counted rest
      · exact terminated_follows _ _ ends counted (t :: rest)

/-! ### Prefix form -/

variable {action : Action Expr} {reader : Reader Expr}

theorem mapped_follows (follows : Follows depth action reader) (f : Expr → Expr) :
    Follows depth (andThen action fun e d => (.ok (f e), d))
      fun tokens => (reader tokens).map fun r => r.map f := by
  intro d ends counted tokens
  rw [Parse.outcome_map]
  apply andThen_of_conclude (follows ends counted tokens)
  intro e beyond _
  rfl

theorem operandsOf_follows (follows : Follows depth action reader) (head : Token) :
    Follows depth (operandsOf action head) (Parse.operandsOf reader head) := by
  intro d ends counted tokens
  rw [Parse.outcome_operandsOf]
  apply andThen_of_conclude (follows ends counted tokens)
  intro lhs beyond _
  have closes : (d.before beyond).current.is .rightParen = Parse.closesNext beyond := by
    cases beyond with
    | nil => exact is_last ends .rightParen
    | cons t rest => rfl
  rw [closes]
  split
  · rfl
  · apply andThen_of_conclude (follows ends counted beyond)
    intro rhs rest _
    rfl

/-- A head takes what can follow it, and a token that is none is rejected. -/
theorem headed_eq (action : Action Expr) (reader : Reader Expr) (head : Token) :
    (∃ operands, Parse.headed? reader head = some operands ∧
      (Follows depth action reader → Follows depth (headed action head) operands)) ∨
      Parse.headed? reader head = none ∧ headed action head = raise head .headExpected := by
  unfold Parse.headed? headed
  by_cases group : Parse.isGroupHead head = true
  · rw [if_pos group, if_pos group]
    exact .inl ⟨_, rfl, fun follows => mapped_follows follows Expr.grouping⟩
  · rw [if_neg group, if_neg group]
    by_cases bang : head.is .bang = true
    · rw [if_pos bang, if_pos bang]
      exact .inl ⟨_, rfl, fun follows => mapped_follows follows (Expr.unary head)⟩
    · rw [if_neg bang, if_neg bang]
      by_cases binary : head.level?.isSome = true
      · rw [if_pos binary, if_pos binary]
        exact .inl ⟨_, rfl, fun follows => operandsOf_follows follows head⟩
      · rw [if_neg binary, if_neg binary]
        exact .inr ⟨rfl, rfl⟩

theorem form_follows (follows : Follows depth action reader) :
    Follows depth (form action) (Parse.form reader) := by
  intro d ends counted tokens
  cases tokens with
  | nil =>
      have rejects : headed action d.last = raise d.last .headExpected := by
        simp [headed, Parse.isGroupHead, is_last ends, Token.level?, ends]
      rw [form, current_before_nil, andThen, rejects]
      rfl
  | cons head rest =>
      rw [form, current_before_cons, advance_before_cons]
      obtain ⟨operands, found, reads⟩ | ⟨none, rejects⟩ := @headed_eq depth action reader head
      · rw [Parse.outcome_form_of_headed? found]
        apply andThen_of_conclude (reads follows ends counted rest)
        intro e beyond _
        exact expect_before ends e beyond
      · rw [Parse.form, none, andThen, rejects]
        rfl

theorem prefixNode_follows (follows : Follows depth action reader) :
    Follows depth (prefixNode action) (Parse.prefixNode reader) := by
  intro d ends counted tokens
  cases tokens with
  | nil =>
      have nothing : d.last.kind.value? = none := by
        simp [ends, Kind.value?, Kind.literal]
      simp [prefixNode, nothing, is_last ends]
      rfl
  | cons t rest =>
      rw [prefixNode, Parse.outcome_prefixNode_cons, current_before_cons, advance_before_cons]
      cases t.kind.value? with
      | some value => rfl
      | none =>
          dsimp only
          split
          · exact form_follows follows ends counted rest
          · rfl

theorem prefixWithin_follows {room : Nat} (enough : bound ≤ depth + room) :
    Follows depth (prefixWithin bound room) (Parse.prefixWithin (bound - depth)) := by
  induction room generalizing depth with
  | zero =>
      rw [Nat.sub_eq_zero_of_le (show bound ≤ depth from enough)]
      exact nested_of_full enough
  | succ room ih =>
      by_cases full : bound ≤ depth
      · rw [Nat.sub_eq_zero_of_le full]
        exact nested_of_full full
      · rw [show bound - depth = bound - (depth + 1) + 1 by omega]
        exact nested_follows (Nat.lt_of_not_le full) (prefixNode_follows (ih (by omega)))

theorem prefixExpression_follows :
    Follows 0 (prefixExpression bound) (Parse.prefixExpression bound) := by
  intro d ends counted tokens
  rw [Parse.outcome_prefixExpression]
  apply andThen_of_conclude (prefixWithin_follows (by omega) ends counted tokens)
  intro tree beyond _
  show (if beyond.isEmpty then _ else _) = _
  split <;> rfl

end Follows

/-! ## Parsers -/

section Parsers

theorem read_measuring (p : Parser) (reader : Reader Expr) :
    p.read (measuring reader) = ((p.read reader).1.map Expr.measured, (p.read reader).2) := by
  unfold Parser.read measuring
  cases reader p.ahead <;> rfl

variable {p : Parser} (ends : p.last.kind = .eof)

include ends

/-- What a parser reads, it reads in place, and then it is inside of no expression. -/
theorem Follows.mk {action : Action α} {reader : Reader α} (follows : Follows 0 action reader) :
    action ⟨p, 0⟩ = ((p.read reader).1, ⟨(p.read reader).2, 0⟩) := by
  have came : action ⟨p, 0⟩ = (⟨p, 0⟩ : Descent).conclude (outcome (reader p.ahead)) :=
    @follows ⟨p, 0⟩ ends rfl p.ahead
  cases read : outcome (reader p.ahead) with
  | ok done =>
      rw [came, read, Parser.read_of_ok read]
      rfl
  | error refusal =>
      rw [came, read, Parser.read_of_error read]
      rfl

/-- The height that goes with the tree is its own. -/
theorem tree_mk :
    tree p.bound (operandWithin p.bound p.bound) ⟨p, 0⟩ =
      (p.expr.1.map Expr.measured, ⟨p.expr.2, 0⟩) := by
  rw [tree_follows.mk ends, read_measuring]
  rfl

theorem expression_mk : expression p.bound ⟨p, 0⟩ = (p.expr.1, ⟨p.expr.2, 0⟩) :=
  expression_follows.mk ends

theorem statement_mk : statement p.bound ⟨p, 0⟩ = (p.stmt.1, ⟨p.stmt.2, 0⟩) :=
  statement_follows.mk ends

theorem prefixExpression_mk :
    prefixExpression p.bound ⟨p, 0⟩ = (p.prefixExpr.1, ⟨p.prefixExpr.2, 0⟩) :=
  prefixExpression_follows.mk ends

end Parsers

end Descent

end Lox
