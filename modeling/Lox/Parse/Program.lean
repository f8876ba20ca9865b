/-
# Lox.Parse.Program -- statements, and recovery after a fault

A statement is an expression and a semicolon, after the word `print` or by itself.  A program
is read statement by statement to the end of the input.  When one cannot be read, tokens are
skipped, always one at least, until a semicolon has been skipped or a word that starts a
statement comes next; so every fault of a program is found in one pass, and reading goes on
with fewer tokens each time.
-/

import Lox.Parse.Expression

namespace Lox.Parse

set_option autoImplicit false

/-- An expression made into a statement, and the semicolon that ends it. -/
def terminated (bound : Nat) (make : Expr → Stmt) (missing : Problem) : Reader Stmt :=
  fun tokens =>
    match expression bound tokens with
    | .error fault => .error fault
    | .ok r => (r.map make).close .semicolon missing

/-- A statement. -/
def statement (bound : Nat) : Reader Stmt
  | [] => terminated bound .expression .semicolonAfterExpressionExpected []
  | t :: rest =>
    if t.kind = .keyword .printWord then
      after t rest (terminated bound .print .semicolonAfterValueExpected)
    else terminated bound .expression .semicolonAfterExpressionExpected (t :: rest)

/-- Skips one token, and on to just after a semicolon or just before a word that starts a
statement. -/
def recover : List Token → List Token
  | [] => []
  | t :: rest =>
    if t.is .semicolon || rest.head?.any (·.kind.startsStatement) then rest else recover rest

theorem recover_suffix_tail (tokens : List Token) : recover tokens <:+ tokens.tail := by
  induction tokens with
  | nil => exact List.suffix_rfl
  | cons t rest ih =>
    rw [recover]
    split
    · exact List.suffix_rfl
    · exact ih.trans (List.tail_suffix rest)

/-- What became of one attempt to read a statement. -/
inductive Attempt where
  | done (stmt : Stmt)
  /-- The problem and the tokens from the blamed one on. -/
  | failed (problem : Problem) (site : List Token)
deriving DecidableEq, Repr, Inhabited

/-- The attempts that read a program, after those already made (the last first). -/
def attemptsAfter (bound : Nat) (made : List Attempt) (tokens : List Token) : List Attempt :=
  if tokens.isEmpty then made.reverse
  else
    match statement bound tokens with
    | .ok r => attemptsAfter bound (.done r.value :: made) r.rest
    | .error fault =>
      attemptsAfter bound (.failed fault.problem fault.site :: made) (recover fault.stop)
termination_by tokens.length
decreasing_by
  · exact r.shorter
  · have := (recover_suffix_tail fault.stop).length_le
    have := fault.stop_suffix_tokens.length_le
    have : tokens.length ≠ 0 := by simpa using ‹¬tokens.isEmpty = true›
    simp only [List.length_tail] at *
    omega

/-- The attempts that read a program. -/
def attempts (bound : Nat) (tokens : List Token) : List Attempt :=
  attemptsAfter bound [] tokens

/-- The statement of an attempt that succeeded. -/
def Attempt.stmt? : Attempt → Option Stmt
  | done stmt => some stmt
  | failed _ _ => none

/-- The problem of an attempt that failed, with the place it is blamed on. -/
def Attempt.failure? : Attempt → Option (Problem × List Token)
  | done _ => none
  | failed problem site => some (problem, site)

end Lox.Parse
