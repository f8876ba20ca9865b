/-
# Lox.Proofs.Recovery -- a fault is local to the statements up to a semicolon

Tokens that end in a semicolon are a chunk: nothing that is read from its front looks past the
last semicolon, whether reading succeeds or fails, and recovery from a fault in it does not
pass that semicolon either.  So a chunk is read to the same statements and the same faults
whatever tokens follow it, and reading goes on behind it as from the start.

`Keeps` is this property of one reading; every reading function has it on tokens that end in a
semicolon.  `attempts_append` is what follows for whole programs.
-/
import Mathlib.Data.List.Basic
import Lox.Proofs.Grammar
import Lox.Proofs.Outcome

namespace Lox.Parse

set_option autoImplicit false

/-- The tokens end in a semicolon. -/
def Terminated (tokens : List Token) : Prop :=
  ∃ t ∈ tokens.getLast?, t.is .semicolon = true

theorem Terminated.ne_nil {tokens : List Token} (terminated : Terminated tokens) :
    tokens ≠ [] := by
  rintro rfl
  obtain ⟨t, last, -⟩ := terminated
  cases last

theorem Terminated.of_suffix {tokens rest : List Token} (terminated : Terminated tokens)
    (suffix : rest <:+ tokens) (some : rest ≠ []) : Terminated rest := by
  obtain ⟨before, rfl⟩ := suffix
  obtain ⟨t, last, semicolon⟩ := terminated
  rw [List.getLast?_append_of_ne_nil _ some] at last
  exact ⟨t, last, semicolon⟩

/-- What is left of the tokens is a chunk again. -/
theorem Terminated.chunk_of_suffix {tokens rest : List Token} (terminated : Terminated tokens)
    (suffix : rest <:+ tokens) : rest = [] ∨ Terminated rest := by
  by_cases none : rest = []
  · exact .inl none
  · exact .inr (terminated.of_suffix suffix none)

/-- Behind a token that is no semicolon the tokens still end in one. -/
theorem Terminated.tail {t : Token} {rest : List Token} (terminated : Terminated (t :: rest))
    (other : ¬ t.is .semicolon = true) : Terminated rest := by
  refine terminated.of_suffix (List.suffix_cons t rest) ?_
  rintro rfl
  obtain ⟨last, same, semicolon⟩ := terminated
  cases same
  exact other semicolon

namespace Outcome

variable {α β : Type}

/-- The same with more tokens behind. -/
def extend (more : List Token) : Outcome α → Outcome α
  | .ok (value, rest) => .ok (value, rest ++ more)
  | .error refusal => .error ⟨refusal.problem, refusal.site ++ more, refusal.stop ++ more⟩

/-- The tokens before which reading stands. -/
def left : Outcome α → List Token
  | .ok (_, rest) => rest
  | .error refusal => refusal.stop

end Outcome

/-- A reading stands before a semicolon or further ahead of one, and comes to the same with
more tokens behind. -/
structure Keeps {α : Type} (more : List Token) (came extended : Outcome α) : Prop where
  same : extended = came.extend more
  terminated : Terminated came.left

section Keeps

variable {α β : Type} {more : List Token}

theorem Keeps.ok {value : α} {rest : List Token} (terminated : Terminated rest) :
    Keeps more (.ok (value, rest)) (.ok (value, rest ++ more)) :=
  ⟨rfl, terminated⟩

theorem Keeps.error {problem : Problem} {site stop : List Token} (terminated : Terminated stop) :
    Keeps more (.error ⟨problem, site, stop⟩ : Outcome α)
      (.error ⟨problem, site ++ more, stop ++ more⟩) :=
  ⟨rfl, terminated⟩

theorem Keeps.andThen {came extended : Outcome α} (keeps : Keeps more came extended)
    {f g : α → List Token → Outcome β}
    (next : ∀ value rest, came = .ok (value, rest) → Terminated rest →
      Keeps more (f value rest) (g value (rest ++ more))) :
    Keeps more (came.andThen f) (extended.andThen g) := by
  obtain ⟨rfl, terminated⟩ := keeps
  cases came with
  | error refusal => exact .error terminated
  | ok read => exact next read.1 read.2 rfl terminated

/-- The reader keeps to tokens that end in a semicolon. -/
def KeepsAll (more : List Token) (reader : Reader α) : Prop :=
  ∀ {tokens}, Terminated tokens → Keeps more (outcome (reader tokens))
    (outcome (reader (tokens ++ more)))

end Keeps

section Expressions

variable {bound : Nat} {more : List Token} {reader : Reader Expr}

theorem capped_keeps {site rest : List Token} (e : Expr) (terminated : Terminated rest) :
    Keeps more (capped bound site e rest) (capped bound (site ++ more) e (rest ++ more)) := by
  unfold capped
  split
  · exact .ok terminated
  · exact .error terminated

theorem foldFrom_keeps {level : Level} (keeps : KeepsAll more reader) (left : Expr)
    {next : List Token} (terminated : Terminated next) :
    Keeps more (foldFrom bound level reader left next)
      (foldFrom bound level reader left (next ++ more)) := by
  induction next using fold_induction level reader generalizing left with
  | @stop next other =>
      have other' : ∀ op ∈ (next ++ more).head?, op.level? ≠ some level := by
        rwa [List.head?_append_of_ne_nil _ terminated.ne_nil]
      rw [foldFrom_of_level?_ne left other, foldFrom_of_level?_ne left other']
      exact .ok terminated
  | @turn op next found ih =>
      have operator : ¬ op.is .semicolon = true := by
        intro semicolon
        rw [Token.level?_of_kind (Token.is_iff.1 semicolon)] at found
        cases found
      rw [List.cons_append, foldFrom_cons left next found, foldFrom_cons left _ found]
      apply (keeps (terminated.tail operator)).andThen
      intro right beyond readRight behind
      apply (capped_keeps _ behind).andThen
      intro node beyond' isCapped behind'
      obtain ⟨rfl, rfl, -⟩ := capped_eq_ok isCapped
      exact ih right beyond' readRight _ behind'

theorem leftAssociative_keeps (level : Level) (keeps : KeepsAll more reader) :
    KeepsAll more (leftAssociative bound level reader) := by
  intro tokens terminated
  rw [outcome_leftAssociative, outcome_leftAssociative]
  apply (keeps terminated).andThen
  intro left next _ behind
  exact foldFrom_keeps keeps left behind

theorem levels_keeps (keeps : KeepsAll more reader) : KeepsAll more (levels bound reader) :=
  leftAssociative_keeps .equality <|
    leftAssociative_keeps .comparison <|
      leftAssociative_keeps .term <|
        leftAssociative_keeps .factor keeps

theorem closing_keeps (inner : Expr) {next : List Token} (terminated : Terminated next) :
    Keeps more (closing bound inner next) (closing bound inner (next ++ more)) := by
  cases next with
  | nil => exact absurd rfl terminated.ne_nil
  | cons t next =>
      rw [List.cons_append, closing, closing]
      split
      · rename_i closes
        have behind := terminated.tail (by simp [Token.is, Token.is_iff.1 closes])
        exact capped_keeps _ behind
      · exact .error terminated

theorem operand_keeps {deeper : Reader Expr} (keeps : KeepsAll more deeper) :
    KeepsAll more (operand bound deeper) := by
  intro tokens terminated
  cases tokens with
  | nil => exact absurd rfl terminated.ne_nil
  | cons t rest =>
      rw [List.cons_append, outcome_operand_cons, outcome_operand_cons]
      split
      · rename_i unary
        have operator : ¬ t.is .semicolon = true := by
          intro semicolon
          simp [Token.isUnary_iff, Token.is_iff.1 semicolon] at unary
        apply (keeps (terminated.tail operator)).andThen
        intro arg beyond _ behind
        exact capped_keeps _ behind
      · split
        · rename_i value denotes
          apply Keeps.ok
          apply terminated.tail
          intro semicolon
          exact Token.not_symbol_of_value? denotes _ (Token.is_iff.1 semicolon)
        · split
          · rename_i opens
            have behind := terminated.tail (by simp [Token.is, Token.is_iff.1 opens])
            apply (levels_keeps keeps behind).andThen
            intro inner beyond _ behind
            exact closing_keeps inner behind
          · exact .error terminated

theorem operandWithin_keeps (bound room : Nat) : KeepsAll more (operandWithin bound room) := by
  induction room with
  | zero =>
      intro tokens terminated
      exact .error terminated
  | succ room ih => exact operand_keeps ih

theorem expression_keeps (bound : Nat) (more : List Token) :
    KeepsAll more (expression bound) :=
  levels_keeps (operandWithin_keeps bound bound)

end Expressions

/-! ## Statements -/

/-- A statement may end with the last semicolon, but a fault stands before it. -/
structure Settles (more : List Token) (came extended : Outcome Stmt) : Prop where
  same : extended = came.extend more
  fault : ∀ refusal, came = .error refusal → Terminated refusal.stop

section Statements

variable {bound : Nat} {more : List Token}

theorem terminated_settles (make : Expr → Stmt) (missing : Problem) {tokens : List Token}
    (terminated : Terminated tokens) :
    Settles more (outcome (Parse.terminated bound make missing tokens))
      (outcome (Parse.terminated bound make missing (tokens ++ more))) := by
  obtain ⟨same, behind⟩ := expression_keeps bound more terminated
  rw [outcome_terminated, outcome_terminated, same]
  cases came : outcome (expression bound tokens) with
  | error refusal =>
      rw [came] at behind
      exact ⟨rfl, fun _ refused => by cases refused; exact behind⟩
  | ok read =>
      rw [came] at behind
      obtain ⟨e, next⟩ := read
      cases next with
      | nil => exact absurd rfl behind.ne_nil
      | cons t next =>
          rw [Outcome.extend, Outcome.andThen_ok, Outcome.andThen_ok, List.cons_append, closedBy,
            closedBy]
          split
          · exact ⟨rfl, fun _ refused => by cases refused⟩
          · exact ⟨rfl, fun _ refused => by cases refused; exact behind⟩

theorem statement_settles (bound : Nat) (more : List Token) {tokens : List Token}
    (terminated : Terminated tokens) :
    Settles more (outcome (statement bound tokens))
      (outcome (statement bound (tokens ++ more))) := by
  cases tokens with
  | nil => exact absurd rfl terminated.ne_nil
  | cons t rest =>
      rw [List.cons_append, outcome_statement_cons, outcome_statement_cons]
      split
      · rename_i keyword
        exact terminated_settles _ _ (terminated.tail (by simp [Token.is, keyword]))
      · exact terminated_settles _ _ terminated

theorem recover_append {tokens : List Token} (terminated : Terminated tokens)
    (more : List Token) : recover (tokens ++ more) = recover tokens ++ more := by
  induction tokens with
  | nil => exact absurd rfl terminated.ne_nil
  | cons t rest ih =>
      by_cases semicolon : t.is .semicolon = true
      · simp [recover, semicolon]
      · have behind := terminated.tail semicolon
        rw [List.cons_append, recover, recover, List.head?_append_of_ne_nil _ behind.ne_nil]
        split
        · rfl
        · exact ih behind

end Statements

/-! ## Programs -/

/-- The same attempt with more tokens behind. -/
def Attempt.extend (more : List Token) : Attempt → Attempt
  | .done stmt => .done stmt
  | .failed problem site => .failed problem (site ++ more)

/-- **A chunk is read by itself.**  Its attempts come first, none of them is blamed on a place
behind it, and the attempts at what follows come after them. -/
theorem attempts_append (bound : Nat) {tokens : List Token}
    (chunk : tokens = [] ∨ Terminated tokens) (more : List Token) :
    attempts bound (tokens ++ more) =
        (attempts bound tokens).map (Attempt.extend more) ++ attempts bound more ∧
      ∀ problem, .failed problem [] ∉ attempts bound tokens := by
  induction tokens using attempts_induction bound with
  | nil => simp
  | @ok tokens stmt rest came suffix ih =>
      obtain rfl | terminated := chunk
      · exact absurd rfl (ne_nil_of_outcome came)
      · obtain ⟨same, -⟩ := statement_settles bound more terminated
        obtain ⟨rest_append, blamed⟩ := ih (terminated.chunk_of_suffix suffix)
        rw [came, Outcome.extend] at same
        rw [attempts_of_ok same, attempts_of_ok came, rest_append]
        exact ⟨rfl, fun problem => by simpa using blamed problem⟩
  | @error tokens refusal some came suffix ih =>
      obtain rfl | terminated := chunk
      · exact absurd rfl some
      · obtain ⟨same, fault⟩ := statement_settles bound more terminated
        have before := fault refusal came
        obtain ⟨rest_append, blamed⟩ := ih (terminated.chunk_of_suffix suffix)
        have some : tokens ++ more ≠ [] := by simp [terminated.ne_nil]
        rw [came, Outcome.extend] at same
        rw [attempts_of_error some same, attempts_of_error terminated.ne_nil came,
          recover_append before, rest_append]
        refine ⟨rfl, ?_⟩
        intro problem member
        obtain failed | member := List.mem_cons.1 member
        · have nowhere : refusal.site = [] := ((Attempt.failed.injEq ..).mp failed).2.symm
          have stop := (suffix_of_refusal came).1
          exact before.ne_nil (List.suffix_nil.1 (nowhere ▸ stop))
        · exact blamed problem member

end Lox.Parse

namespace Lox.Parser

open Parse

theorem ahead_ofTokens_append {A : List Token} (B : List Token) (bound : Nat)
    (inner : ∀ t ∈ A, t.isEof = false) :
    (ofTokens (A ++ B) bound).ahead = A ++ (ofTokens B bound).ahead :=
  List.takeWhile_append_of_pos fun t member => by simp [inner t member]

theorem ahead_ofTokens {A : List Token} (bound : Nat) (inner : ∀ t ∈ A, t.isEof = false) :
    (ofTokens A bound).ahead = A := by
  simpa [ofTokens] using ahead_ofTokens_append [] bound inner

/-- Tokens in front of others do not change where the input ends. -/
theorem last_ofTokens_append {A B : List Token} (bound : Nat)
    (inner : ∀ t ∈ A, t.isEof = false) (some : B ≠ []) :
    (ofTokens (A ++ B) bound).last = (ofTokens B bound).last := by
  have none : A.find? Token.isEof = none := List.find?_eq_none.2 fun t member => by
    simp [inner t member]
  simp only [ofTokens, endOf, List.find?_append, none, Option.none_or,
    List.getLast?_append_of_ne_nil A some]

/-- What is reported of a failure among the tokens hangs on the token it is blamed on only. -/
theorem complaint?_extend (p q : Parser) (more : List Token) {attempt : Attempt}
    (blamed : ∀ problem, attempt ≠ .failed problem []) :
    p.complaint? (attempt.extend more) = q.complaint? attempt := by
  cases attempt with
  | done stmt => rfl
  | failed problem site =>
      cases site with
      | nil => exact absurd rfl (blamed problem)
      | cons t site => rfl

theorem stmt?_extend (more : List Token) (attempt : Attempt) :
    (attempt.extend more).stmt? = attempt.stmt? := by
  cases attempt <;> rfl

/-- **Recovery is local to a chunk.**  Tokens that are empty or end in a semicolon, broken or
not, are read to the same statements and the same reports in front of any others, and those
are read as if they stood alone. -/
theorem program_append (bound : Nat) (A B : List Token) (inner : ∀ t ∈ A, t.isEof = false)
    (chunk : A = [] ∨ Terminated A) :
    (ofTokens (A ++ B) bound).program.1 =
        (ofTokens A bound).program.1 ++ (ofTokens B bound).program.1 ∧
      (ofTokens (A ++ B) bound).program.2.reported =
        (ofTokens A bound).program.2.reported ++ (ofTokens B bound).program.2.reported := by
  obtain ⟨split, blamed⟩ := attempts_append bound chunk (ofTokens B bound).ahead
  have complaints : (attempts bound A).filterMap ((ofTokens (A ++ B) bound).complaint? ∘
        Attempt.extend (ofTokens B bound).ahead) =
      (attempts bound A).filterMap (ofTokens A bound).complaint? :=
    List.filterMap_congr fun attempt member =>
      complaint?_extend _ _ _ fun problem same => blamed problem (same ▸ member)
  have complaints' : (attempts bound (ofTokens B bound).ahead).filterMap
        (ofTokens (A ++ B) bound).complaint? =
      (attempts bound (ofTokens B bound).ahead).filterMap (ofTokens B bound).complaint? := by
    by_cases none : B = []
    · subst none
      simp [ofTokens]
    · refine List.filterMap_congr fun attempt member => ?_
      simp only [complaint?, reject, last_ofTokens_append bound inner none]
  rw [program_eq, program_eq, program_eq, ahead_ofTokens_append B bound inner,
    ahead_ofTokens bound inner]
  simp only [ofTokens] at split complaints complaints' ⊢
  rw [split, List.filterMap_append, List.filterMap_append, List.filterMap_map, List.filterMap_map,
    complaints, complaints']
  simp [stmt?_extend]

/-- A parenthesis that nothing opened, and a `print` of nothing. -/
def brokenChunk : List Token :=
  [.fixed (.symbol .rightParen) 1, .fixed (.symbol .semicolon) 1,
    .fixed (.keyword .printWord) 2, .fixed (.symbol .semicolon) 2]

/-- Both faults of a broken chunk are reported, and then the fault behind it. -/
theorem program_append_brokenChunk :
    (∀ t ∈ brokenChunk, t.isEof = false) ∧ Terminated brokenChunk ∧
      (ofTokens (brokenChunk ++ [.fixed (.keyword .nilWord) 3]) 128).program.2.reported =
        [⟨1, .atLexeme ")", "Expect expression."⟩, ⟨2, .atLexeme ";", "Expect expression."⟩,
          ⟨3, .atEnd, "Expect ';' after expression."⟩] := by
  have inner : ∀ t ∈ brokenChunk, t.isEof = false := by decide
  have terminated : Terminated brokenChunk := ⟨_, rfl, rfl⟩
  refine ⟨inner, terminated, ?_⟩
  rw [(program_append 128 brokenChunk [.fixed (.keyword .nilWord) 3] inner (.inr terminated)).2,
    program_eq, program_eq]
  dsimp only
  cbv

end Lox.Parser
