/-
# Lox.Proofs.Outcome -- what reading comes to, without its bookkeeping

A `Read` and a `Fault` are tied to the tokens they were read from, which two readings of
different tokens do not share.  An `Outcome` keeps what a caller sees of either, as plain
data: the value and what is left, or the problem, where it is blamed, and where reading
stopped.  Each reading function has one equation for its outcome, and everything proved of
the parser goes through these equations.

* `outcome_leftAssociative`, `foldFrom_cons` -- the operators of one level, and
  `fold_induction` along them.
* `outcome_operand_cons` -- literals, groupings and unary operators.
* `outcome_statement_cons` -- statements.
* `outcome_prefixNode_cons`, `outcome_form_of_headed?` -- trees in prefix form.
* `attempts_of_ok`, `attempts_of_error` -- the attempts that read a program, one by one, and
  `attempts_induction` along them.
* `Parser.read_of_ok`, `Parser.read_of_error` -- a parser's reading of anything.
-/
import Lox.Parser

namespace Lox.Parse

set_option autoImplicit false

/-- A fault without the tokens it was met in. -/
structure Refusal where
  problem : Problem
  site : List Token
  stop : List Token
deriving DecidableEq

/-- The value read and the tokens left, or the reason why there are none. -/
abbrev Outcome (α : Type) := Except Refusal (α × List Token)

/-- What a reading comes to. -/
def outcome {α : Type} {tokens : List Token} :
    Except (Fault tokens) (Read α tokens) → Outcome α
  | .ok r => .ok (r.value, r.rest)
  | .error fault => .error ⟨fault.problem, fault.site, fault.stop⟩

namespace Outcome

variable {α β : Type}

/-- Goes on with the value and the tokens that are left. -/
def andThen (x : Outcome α) (next : α → List Token → Outcome β) : Outcome β :=
  match x with
  | .ok (value, rest) => next value rest
  | .error refusal => .error refusal

@[simp] theorem andThen_ok (value : α) (rest : List Token)
    (next : α → List Token → Outcome β) : andThen (.ok (value, rest)) next = next value rest :=
  rfl

@[simp] theorem andThen_error (refusal : Refusal) (next : α → List Token → Outcome β) :
    andThen (.error refusal) next = .error refusal :=
  rfl

theorem andThen_eq_ok {x : Outcome α} {next : α → List Token → Outcome β} {b : β}
    {rest : List Token} (done : x.andThen next = .ok (b, rest)) :
    ∃ a middle, x = .ok (a, middle) ∧ next a middle = .ok (b, rest) := by
  cases x with
  | error refusal => cases done
  | ok read => exact ⟨read.1, read.2, rfl, done⟩

end Outcome

section Generic

variable {α β : Type} {tokens : List Token}

@[simp] theorem outcome_ok (r : Read α tokens) : outcome (.ok r) = .ok (r.value, r.rest) := rfl

@[simp] theorem outcome_error (fault : Fault tokens) :
    outcome (.error fault : Except _ (Read α tokens)) =
      .error ⟨fault.problem, fault.site, fault.stop⟩ :=
  rfl

@[simp] theorem outcome_stuck (problem : Problem) (tokens : List Token) :
    outcome (stuck problem tokens : Except _ (Read α tokens)) =
      .error ⟨problem, tokens, tokens⟩ :=
  rfl

theorem outcome_after (t : Token) (rest : List Token) (reader : Reader α) :
    outcome (after t rest reader) = outcome (reader rest) := by
  unfold after
  cases reader rest <;> rfl

theorem outcome_next (r : Read α tokens) (reader : Reader β) :
    outcome (r.next reader) = outcome (reader r.rest) := by
  unfold Read.next
  cases reader r.rest <;> rfl

/-- What is left is a proper suffix of the tokens. -/
theorem suffix_of_outcome {x : Except (Fault tokens) (Read α tokens)} {value : α}
    {rest : List Token} (done : outcome x = .ok (value, rest)) :
    rest <:+ tokens ∧ rest.length < tokens.length := by
  cases x with
  | error fault => cases done
  | ok r =>
      cases done
      exact ⟨r.suffix, r.shorter⟩

theorem ne_nil_of_outcome {x : Except (Fault tokens) (Read α tokens)} {value : α}
    {rest : List Token} (done : outcome x = .ok (value, rest)) : tokens ≠ [] :=
  List.ne_nil_of_length_pos (Nat.zero_lt_of_lt (suffix_of_outcome done).2)

/-- A refused reading stops among the tokens, at the blamed one or further on. -/
theorem suffix_of_refusal {x : Except (Fault tokens) (Read α tokens)} {refusal : Refusal}
    (refused : outcome x = .error refusal) :
    refusal.stop <:+ refusal.site ∧ refusal.site <:+ tokens := by
  cases x with
  | ok r => cases refused
  | error fault =>
      cases refused
      exact ⟨fault.stop_suffix, fault.site_suffix⟩

end Generic

/-! ## Expressions -/

/-- A node that is no higher than the bound, or else the blame for it. -/
def capped (bound : Nat) (site : List Token) (e : Expr) (rest : List Token) : Outcome Expr :=
  if e.height ≤ bound then .ok (e, rest) else .error ⟨.tooDeep, site, rest⟩

theorem capped_eq_ok {bound : Nat} {site rest rest' : List Token} {e e' : Expr}
    (done : capped bound site e rest = .ok (e', rest')) :
    e' = e ∧ rest' = rest ∧ e.height ≤ bound := by
  unfold capped at done
  split at done
  · cases done
    exact ⟨rfl, rfl, ‹_›⟩
  · cases done

theorem capped_of_le {bound : Nat} {site rest : List Token} {e : Expr}
    (low : e.height ≤ bound) : capped bound site e rest = .ok (e, rest) :=
  if_pos low

/-- An operator of the level comes next, or none does. -/
theorem continues_or_not (level : Level) (tokens : List Token) :
    (∀ op ∈ tokens.head?, op.level? ≠ some level) ∨
      ∃ op rest, tokens = op :: rest ∧ op.level? = some level := by
  cases tokens with
  | nil => exact .inl (by simp)
  | cons op rest =>
      by_cases same : op.level? = some level
      · exact .inr ⟨op, rest, rfl, same⟩
      · exact .inl (by simpa using same)

/-- The outcome of reading on from a left operand. -/
def foldFrom (bound : Nat) (level : Level) (operand : Reader Expr) (left : Expr)
    (rest : List Token) : Outcome Expr :=
  outcome (foldLeft bound level operand (one left default rest))

section Fold

variable {bound : Nat} {level : Level} {operand : Reader Expr}

theorem outcome_foldLeft_refused {tokens : List Token} (left : Read Expr tokens) {op : Token}
    {rest : List Token} (found : left.rest = op :: rest) (same : op.level? = some level)
    {refusal : Refusal} (refused : outcome (operand rest) = .error refusal) :
    outcome (foldLeft bound level operand left) = .error refusal := by
  obtain ⟨value, _, suffix, shorter⟩ := left
  cases found
  rw [foldLeft]
  simp only [same, if_true]
  cases read : operand rest with
  | error fault =>
      rw [read] at refused
      exact refused
  | ok right =>
      rw [read] at refused
      cases refused

/-- One turn: with an operator of the level next, its right operand is read and the two become
the left operand of a reading that goes on from there. -/
theorem outcome_foldLeft_turn {tokens : List Token} (left : Read Expr tokens) {op : Token}
    {rest : List Token} (found : left.rest = op :: rest) (same : op.level? = some level)
    {right : Expr} {beyond : List Token} (done : outcome (operand rest) = .ok (right, beyond)) :
    ∃ node : Read Expr tokens, node.value = .binary op left.value right ∧ node.rest = beyond ∧
      outcome (foldLeft bound level operand left) =
        if node.value.height ≤ bound then outcome (foldLeft bound level operand node)
        else .error ⟨.tooDeep, op :: rest, beyond⟩ := by
  obtain ⟨value, _, suffix, shorter⟩ := left
  cases found
  rw [foldLeft]
  simp only [same, if_true]
  cases read : operand rest with
  | error fault =>
      rw [read] at done
      cases done
  | ok right =>
      rw [read] at done
      cases done
      refine ⟨⟨.binary op value right.value, right.rest, ?_, ?_⟩, rfl, rfl, ?_⟩
      · exact (right.suffix.trans (List.suffix_cons op rest)).trans suffix
      · have := right.shorter
        simp only [List.length_cons] at shorter
        omega
      · dsimp only
        split <;> rfl

theorem outcome_foldLeft_of_level?_ne {tokens : List Token} (left : Read Expr tokens)
    (other : ∀ op ∈ left.rest.head?, op.level? ≠ some level) :
    outcome (foldLeft bound level operand left) = .ok (left.value, left.rest) := by
  rw [foldLeft]
  split
  · rfl
  · rename_i op rest found
    rw [if_neg (other op (by simp [found]))]
    rfl

theorem outcome_foldLeft_congr {tokens tokens' : List Token} (left : Read Expr tokens)
    (left' : Read Expr tokens') (value : left'.value = left.value) (rest : left'.rest = left.rest) :
    outcome (foldLeft bound level operand left') = outcome (foldLeft bound level operand left) := by
  induction n : left.rest.length using Nat.strongRecOn generalizing left left' with
  | ind n ih =>
      subst n
      obtain other | ⟨op, next, found, same⟩ := continues_or_not level left.rest
      · rw [outcome_foldLeft_of_level?_ne left other,
          outcome_foldLeft_of_level?_ne left' (rest ▸ other), value, rest]
      · have found' := rest.trans found
        cases came : outcome (operand next) with
        | error refusal =>
            rw [outcome_foldLeft_refused left found same came,
              outcome_foldLeft_refused left' found' same came]
        | ok read =>
            obtain ⟨node, nodeValue, nodeRest, turn⟩ :=
              outcome_foldLeft_turn left found same came
            obtain ⟨node', nodeValue', nodeRest', turn'⟩ :=
              outcome_foldLeft_turn left' found' same came
            have shorter := (suffix_of_outcome came).2
            have value : node'.value = node.value := by rw [nodeValue, nodeValue', value]
            have again := ih node.rest.length
              (by rw [nodeRest, found]; exact Nat.lt_succ_of_lt shorter) node node' value
              (nodeRest'.trans nodeRest.symm) rfl
            rw [turn, turn', value, again]

/-- Reading on depends on the left operand and on the tokens after it only. -/
theorem outcome_foldLeft_eq {tokens : List Token} (left : Read Expr tokens) :
    outcome (foldLeft bound level operand left) =
      foldFrom bound level operand left.value left.rest :=
  outcome_foldLeft_congr (one left.value default left.rest) left rfl rfl

theorem foldFrom_cons (left : Expr) {op : Token} (rest : List Token)
    (same : op.level? = some level) :
    foldFrom bound level operand left (op :: rest) =
      (outcome (operand rest)).andThen fun right beyond =>
        (capped bound (op :: rest) (.binary op left right) beyond).andThen
          (foldFrom bound level operand) := by
  cases came : outcome (operand rest) with
  | error refusal =>
      exact outcome_foldLeft_refused (one left default (op :: rest)) rfl same came
  | ok read =>
      obtain ⟨node, nodeValue, nodeRest, turn⟩ :=
        outcome_foldLeft_turn (one left default (op :: rest)) rfl same came
      rw [foldFrom, turn, Outcome.andThen_ok, capped, outcome_foldLeft_eq, nodeValue, nodeRest]
      by_cases low : (Expr.binary op left read.1).height ≤ bound <;> simp [one, low]

theorem foldFrom_of_level?_ne (left : Expr) {rest : List Token}
    (other : ∀ op ∈ rest.head?, op.level? ≠ some level) :
    foldFrom bound level operand left rest = .ok (left, rest) :=
  outcome_foldLeft_of_level?_ne (one left default rest) other

/-- Induction along the turns of a fold: each leaves what comes after its right operand to the
next, and where no operator of the level comes next the fold is done. -/
theorem fold_induction (level : Level) (operand : Reader Expr) {motive : List Token → Prop}
    (stop : ∀ {next : List Token}, (∀ op ∈ next.head?, op.level? ≠ some level) → motive next)
    (turn : ∀ {op : Token} {next : List Token}, op.level? = some level →
      (∀ right beyond, outcome (operand next) = .ok (right, beyond) → motive beyond) →
        motive (op :: next))
    (next : List Token) : motive next := by
  induction n : next.length using Nat.strongRecOn generalizing next with
  | ind n ih =>
      subst n
      obtain other | ⟨op, next, rfl, found⟩ := continues_or_not level next
      · exact stop other
      · apply turn found
        intro right beyond read
        exact ih _ (Nat.lt_succ_of_lt (suffix_of_outcome read).2) beyond rfl

end Fold

theorem outcome_leftAssociative (bound : Nat) (level : Level) (operand : Reader Expr)
    (tokens : List Token) :
    outcome (leftAssociative bound level operand tokens) =
      (outcome (operand tokens)).andThen (foldFrom bound level operand) := by
  unfold leftAssociative
  cases operand tokens with
  | error fault => rfl
  | ok left => exact outcome_foldLeft_eq left

/-- Demands the parenthesis that closes a grouping. -/
def closing (bound : Nat) (inner : Expr) : List Token → Outcome Expr
  | [] => .error ⟨.parenAfterExpressionExpected, [], []⟩
  | t :: rest =>
    if t.is .rightParen then capped bound (t :: rest) (.grouping inner) rest
    else .error ⟨.parenAfterExpressionExpected, t :: rest, t :: rest⟩

theorem outcome_bounded {tokens : List Token} (bound : Nat) (node : Read Expr tokens)
    (site : List Token) (stop_suffix : node.rest <:+ site) (site_suffix : site <:+ tokens) :
    outcome (bounded bound node site stop_suffix site_suffix) =
      capped bound site node.value node.rest := by
  unfold bounded capped
  split <;> rfl

theorem outcome_closeGrouping {tokens : List Token} (bound : Nat) (inner : Read Expr tokens) :
    outcome (closeGrouping bound inner) = closing bound inner.value inner.rest := by
  obtain ⟨value, rest, suffix, shorter⟩ := inner
  cases rest with
  | nil => rfl
  | cons t rest =>
      by_cases closes : t.is .rightParen = true
      · simp only [closeGrouping, closing, closes, if_true]
        exact outcome_bounded ..
      · simp only [closeGrouping, closing, closes, if_false, outcome_next, outcome_stuck,
          Bool.false_eq_true]

theorem outcome_operand_cons (bound : Nat) (deeper : Reader Expr) (t : Token)
    (rest : List Token) :
    outcome (operand bound deeper (t :: rest)) =
      if t.isUnary then
        (outcome (deeper rest)).andThen fun arg beyond =>
          capped bound (t :: rest) (.unary t arg) beyond
      else
        match t.kind.value? with
        | some value => .ok (.literal value, rest)
        | none =>
          if t.is .leftParen then
            (outcome (levels bound deeper rest)).andThen (closing bound)
          else .error ⟨.expressionExpected, t :: rest, t :: rest⟩ := by
  rw [operand]
  by_cases unary : t.isUnary = true
  · rw [if_pos unary, if_pos unary, ← outcome_after t rest deeper]
    cases after t rest deeper with
    | error fault => rfl
    | ok arg => exact outcome_bounded ..
  · rw [if_neg unary, if_neg unary]
    cases t.kind.value? with
    | some value => rfl
    | none =>
        by_cases opens : t.is .leftParen = true
        · simp only [opens, if_true, ← outcome_after t rest (levels bound deeper)]
          cases after t rest (levels bound deeper) with
          | error fault => rfl
          | ok inner => exact outcome_closeGrouping ..
        · simp only [opens]
          rfl

/-! ## Statements -/

/-- Demands a symbol after what was read. -/
def closedBy {α : Type} (s : Symbol) (otherwise : Problem) (value : α) : List Token → Outcome α
  | [] => .error ⟨otherwise, [], []⟩
  | t :: rest => if t.is s then .ok (value, rest) else .error ⟨otherwise, t :: rest, t :: rest⟩

theorem closedBy_eq_ok_iff {α : Type} {s : Symbol} {otherwise : Problem} {value a : α}
    {tokens rest : List Token} :
    closedBy s otherwise value tokens = .ok (a, rest) ↔
      a = value ∧ ∃ t, tokens = t :: rest ∧ t.is s = true := by
  cases tokens with
  | nil => simp [closedBy]
  | cons t tokens =>
      rw [closedBy]
      split
      · rename_i closes
        constructor
        · rintro ⟨⟩
          exact ⟨rfl, t, rfl, closes⟩
        · rintro ⟨rfl, _, ⟨⟩, -⟩
          rfl
      · rename_i other
        constructor
        · rintro ⟨⟩
        · rintro ⟨-, _, ⟨⟩, closes⟩
          exact absurd closes other

theorem outcome_close {α : Type} {tokens : List Token} (r : Read α tokens) (s : Symbol)
    (otherwise : Problem) :
    outcome (r.close s otherwise) = closedBy s otherwise r.value r.rest := by
  rw [Read.close, outcome_next]
  cases r.rest with
  | nil => rfl
  | cons t rest =>
      simp only [closedBy]
      split <;> rfl

theorem outcome_terminated (bound : Nat) (make : Expr → Stmt) (missing : Problem)
    (tokens : List Token) :
    outcome (terminated bound make missing tokens) =
      (outcome (expression bound tokens)).andThen fun e beyond =>
        closedBy .semicolon missing (make e) beyond := by
  unfold terminated
  cases expression bound tokens with
  | error fault => rfl
  | ok r => exact outcome_close ..

theorem outcome_statement_cons (bound : Nat) (t : Token) (rest : List Token) :
    outcome (statement bound (t :: rest)) =
      if t.kind = .keyword .printWord then
        outcome (terminated bound .print .semicolonAfterValueExpected rest)
      else
        outcome (terminated bound .expression .semicolonAfterExpressionExpected (t :: rest)) := by
  rw [statement]
  split
  · exact outcome_after ..
  · rfl

/-! ## Prefix form -/

theorem outcome_map {α β : Type} {tokens : List Token} (x : Except (Fault tokens) (Read α tokens))
    (f : α → β) :
    outcome (x.map fun r => r.map f) = (outcome x).andThen fun a beyond => .ok (f a, beyond) := by
  cases x <;> rfl

theorem outcome_operandsOf (deeper : Reader Expr) (head : Token) (tokens : List Token) :
    outcome (operandsOf deeper head tokens) =
      (outcome (deeper tokens)).andThen fun lhs beyond =>
        if head.is .minus && closesNext beyond then .ok (.unary head lhs, beyond)
        else
          (outcome (deeper beyond)).andThen fun rhs beyond =>
            .ok (.binary head lhs rhs, beyond) := by
  unfold operandsOf
  cases deeper tokens with
  | error fault => rfl
  | ok lhs =>
      by_cases negates : (head.is .minus && closesNext lhs.rest) = true
      · simp only [negates, if_true, outcome_ok, Outcome.andThen_ok]
        rfl
      · simp only [negates, outcome_ok, Outcome.andThen_ok, ← outcome_next lhs deeper]
        cases lhs.next deeper <;> rfl

/-- A form is what follows its head, and the parenthesis that closes it. -/
theorem outcome_form_of_headed? {deeper operands : Reader Expr} {head : Token}
    (found : headed? deeper head = some operands) (rest : List Token) :
    outcome (form deeper (head :: rest)) =
      (outcome (operands rest)).andThen (closedBy .rightParen .parenAfterOperandsExpected) := by
  rw [form, found, ← outcome_after head rest operands]
  dsimp only
  cases after head rest operands with
  | error fault => rfl
  | ok node => exact outcome_close ..

theorem outcome_prefixNode_cons (deeper : Reader Expr) (t : Token) (rest : List Token) :
    outcome (prefixNode deeper (t :: rest)) =
      match t.kind.value? with
      | some value => .ok (.literal value, rest)
      | none =>
        if t.is .leftParen then outcome (form deeper rest)
        else .error ⟨.expressionExpected, t :: rest, t :: rest⟩ := by
  rw [prefixNode]
  cases t.kind.value? with
  | some value => rfl
  | none =>
      dsimp only
      split
      · exact outcome_after ..
      · rfl

theorem outcome_prefixExpression (bound : Nat) (tokens : List Token) :
    outcome (prefixExpression bound tokens) =
      (outcome (prefixWithin bound tokens)).andThen fun tree beyond =>
        if beyond.isEmpty then .ok (tree, beyond) else .error ⟨.endExpected, beyond, beyond⟩ := by
  unfold prefixExpression
  cases prefixWithin bound tokens with
  | error fault => rfl
  | ok tree =>
      simp only [outcome_ok, Outcome.andThen_ok]
      split
      · rfl
      · exact outcome_next ..

/-! ## Programs -/

section Attempts

variable {bound : Nat} {tokens : List Token}

theorem recover_suffix {stop : List Token} (suffix : stop <:+ tokens) :
    recover stop <:+ tokens :=
  ((recover_suffix_tail stop).trans (List.tail_suffix stop)).trans suffix

/-- After a refusal fewer tokens are left. -/
theorem length_recover_lt {stop : List Token} (suffix : stop <:+ tokens) (some : tokens ≠ []) :
    (recover stop).length < tokens.length := by
  have := (recover_suffix_tail stop).length_le
  have := suffix.length_le
  have := List.length_pos_iff.2 some
  simp only [List.length_tail] at *
  omega

theorem attemptsAfter_eq_append (bound : Nat) (made : List Attempt) (tokens : List Token) :
    attemptsAfter bound made tokens = made.reverse ++ attempts bound tokens := by
  unfold attempts
  induction n : tokens.length using Nat.strongRecOn generalizing made tokens with
  | ind n ih =>
      subst n
      rw [attemptsAfter, attemptsAfter]
      by_cases none : tokens.isEmpty = true
      · simp [none]
      · rw [if_neg none, if_neg none]
        cases read : statement bound tokens with
        | ok r =>
            dsimp only
            rw [ih _ r.shorter (.done r.value :: made) _ rfl, ih _ r.shorter [.done r.value] _ rfl]
            simp
        | error fault =>
            have progress := length_recover_lt fault.stop_suffix_tokens (by simpa using none)
            dsimp only
            rw [ih _ progress (.failed fault.problem fault.site :: made) _ rfl,
              ih _ progress [.failed fault.problem fault.site] _ rfl]
            simp

@[simp] theorem attempts_nil : attempts bound [] = [] := by
  rw [attempts, attemptsAfter]
  rfl

theorem attempts_of_ok {stmt : Stmt} {rest : List Token}
    (done : outcome (statement bound tokens) = .ok (stmt, rest)) :
    attempts bound tokens = .done stmt :: attempts bound rest := by
  have some : ¬ tokens.isEmpty = true := by simpa using ne_nil_of_outcome done
  rw [attempts, attemptsAfter, if_neg some]
  cases read : statement bound tokens with
  | error fault =>
      rw [read] at done
      cases done
  | ok r =>
      rw [read] at done
      cases done
      exact attemptsAfter_eq_append ..

theorem attempts_of_error {refusal : Refusal} (some : tokens ≠ [])
    (refused : outcome (statement bound tokens) = .error refusal) :
    attempts bound tokens =
      .failed refusal.problem refusal.site :: attempts bound (recover refusal.stop) := by
  rw [attempts, attemptsAfter, if_neg (by simpa using some)]
  cases read : statement bound tokens with
  | ok r =>
      rw [read] at refused
      cases refused
  | error fault =>
      rw [read] at refused
      cases refused
      exact attemptsAfter_eq_append ..

/-- Induction along the attempts that read a program: each leaves a suffix of the tokens to the
next. -/
theorem attempts_induction (bound : Nat) {motive : List Token → Prop} (nil : motive [])
    (ok : ∀ {tokens : List Token} {stmt : Stmt} {rest : List Token},
      outcome (statement bound tokens) = .ok (stmt, rest) → rest <:+ tokens → motive rest →
        motive tokens)
    (error : ∀ {tokens : List Token} {refusal : Refusal}, tokens ≠ [] →
      outcome (statement bound tokens) = .error refusal → recover refusal.stop <:+ tokens →
        motive (recover refusal.stop) → motive tokens)
    (tokens : List Token) : motive tokens := by
  induction n : tokens.length using Nat.strongRecOn generalizing tokens with
  | ind n ih =>
      subst n
      cases came : outcome (statement bound tokens) with
      | ok read =>
          obtain ⟨suffix, shorter⟩ := suffix_of_outcome came
          exact ok came suffix (ih _ shorter _ rfl)
      | error refusal =>
          by_cases none : tokens = []
          · subst none
            exact nil
          · obtain ⟨stop, site⟩ := suffix_of_refusal came
            have shorter := length_recover_lt (stop.trans site) none
            exact error none came (recover_suffix (stop.trans site)) (ih _ shorter _ rfl)

end Attempts

end Lox.Parse

namespace Lox.Parser

open Parse

variable {α : Type} {p : Parser} {reader : Reader α}

theorem read_of_ok {value : α} {rest : List Token}
    (done : outcome (reader p.ahead) = .ok (value, rest)) :
    p.read reader = (.ok value, { p with ahead := rest }) := by
  unfold read
  cases read : reader p.ahead with
  | error fault =>
      rw [read] at done
      cases done
  | ok r =>
      rw [read] at done
      cases done
      rfl

theorem read_of_error {refusal : Refusal} (refused : outcome (reader p.ahead) = .error refusal) :
    p.read reader =
      (.error (p.reject refusal.problem refusal.site),
        { p with
          ahead := refusal.stop
          reported :=
            p.reported ++ [(p.reject refusal.problem refusal.site).diagnostic] }) := by
  unfold read
  cases read : reader p.ahead with
  | ok r =>
      rw [read] at refused
      cases refused
  | error fault =>
      rw [read] at refused
      cases refused
      rfl

/-- What was read, and what was left. -/
theorem read_eq_ok_iff {value : α} {q : Parser} :
    p.read reader = (.ok value, q) ↔
      ∃ rest, outcome (reader p.ahead) = .ok (value, rest) ∧ q = { p with ahead := rest } := by
  cases came : outcome (reader p.ahead) with
  | error refusal => simp [read_of_error came]
  | ok read =>
      obtain ⟨value', rest⟩ := read
      rw [read_of_ok came]
      constructor
      · intro same
        cases same
        exact ⟨rest, rfl, rfl⟩
      · rintro ⟨_, same, rfl⟩
        cases same
        rfl

/-- What was rejected: the parser stays where reading stopped, and has reported it. -/
theorem read_eq_error_iff {rejection : Rejection} {q : Parser} :
    p.read reader = (.error rejection, q) ↔
      ∃ refusal, outcome (reader p.ahead) = .error refusal ∧
        rejection = p.reject refusal.problem refusal.site ∧
        q =
          { p with
            ahead := refusal.stop
            reported := p.reported ++ [rejection.diagnostic] } := by
  cases came : outcome (reader p.ahead) with
  | ok read => simp [read_of_ok came]
  | error refusal =>
      rw [read_of_error came]
      constructor
      · intro same
        cases same
        exact ⟨refusal, rfl, rfl, rfl⟩
      · rintro ⟨_, same, rfl, rfl⟩
        cases same
        rfl

/-- What is reported of an attempt. -/
def complaint? (p : Parser) (attempt : Attempt) : Option Diagnostic :=
  attempt.failure?.map fun (problem, site) => (p.reject problem site).diagnostic

/-- A program is read attempt by attempt. -/
theorem program_eq (p : Parser) :
    p.program =
      ((attempts p.bound p.ahead).filterMap Attempt.stmt?,
        { p with
          ahead := []
          reported := p.reported ++ (attempts p.bound p.ahead).filterMap p.complaint? }) := by
  simp only [program, List.map_filterMap, Option.map_map]
  rfl

end Lox.Parser
