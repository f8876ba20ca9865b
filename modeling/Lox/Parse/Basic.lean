/-
# Lox.Parse.Basic -- reading from the front of the tokens

The parsing functions read from the front of a list of tokens, in which the end of the list
is the end of the input.  What a reading function answers carries its own bookkeeping: a
`Read` leaves a shorter suffix of the tokens, so that whoever reads on makes progress, and a
`Fault` blames a place among the tokens and stops there or further on.
-/

import Lox.Expr.Basic

namespace Lox

set_option autoImplicit false

/-- What can be wrong with a sequence of tokens. -/
inductive Problem where
  | expressionExpected
  | parenAfterExpressionExpected
  | semicolonAfterValueExpected
  | semicolonAfterExpressionExpected
  | endExpected
  | headExpected
  | parenAfterOperandsExpected
  | tooDeep
deriving DecidableEq, Repr, Inhabited

/-- The wording of a problem. -/
def Problem.message : Problem → String
  | expressionExpected => "Expect expression."
  | parenAfterExpressionExpected => "Expect ')' after expression."
  | semicolonAfterValueExpected => "Expect ';' after value."
  | semicolonAfterExpressionExpected => "Expect ';' after expression."
  | endExpected => "Expect end of expression."
  | headExpected => "Expect operator or 'group'."
  | parenAfterOperandsExpected => "Expect ')' after operands."
  | tooDeep => "Expression nesting too deep."

namespace Parse

/-- A problem met while reading `tokens`: `site` begins with the token it is blamed on (the
end of the input, if it is empty), and reading stopped before `stop`. -/
structure Fault (tokens : List Token) where
  problem : Problem
  site : List Token
  stop : List Token
  stop_suffix : stop <:+ site
  site_suffix : site <:+ tokens

/-- What was read from the front of `tokens`, and what is left of them. -/
structure Read (α : Type) (tokens : List Token) where
  value : α
  rest : List Token
  suffix : rest <:+ tokens
  shorter : rest.length < tokens.length

/-- A function that reads from the front of a list of tokens. -/
abbrev Reader (α : Type) :=
  (tokens : List Token) → Except (Fault tokens) (Read α tokens)

/-- A fault among the last tokens is a fault among all of them. -/
def Fault.widen {tokens all : List Token} (fault : Fault tokens) (within : tokens <:+ all) :
    Fault all :=
  { fault with site_suffix := fault.site_suffix.trans within }

theorem Fault.stop_suffix_tokens {tokens : List Token} (fault : Fault tokens) :
    fault.stop <:+ tokens :=
  fault.stop_suffix.trans fault.site_suffix

/-- The problem is blamed on the first token, and nothing is read. -/
def stuck {α : Type} (problem : Problem) : Reader α := fun tokens =>
  .error ⟨problem, tokens, tokens, List.suffix_rfl, List.suffix_rfl⟩

/-- The first token has been read. -/
def one {α : Type} (value : α) (t : Token) (rest : List Token) : Read α (t :: rest) :=
  ⟨value, rest, List.suffix_cons t rest, Nat.lt_succ_self _⟩

namespace Read

variable {α β : Type} {tokens : List Token}

/-- Something else made of what was read. -/
def map (f : α → β) (r : Read α tokens) : Read β tokens :=
  ⟨f r.value, r.rest, r.suffix, r.shorter⟩

/-- What was read after some tokens was read from all of them. -/
def widen {all : List Token} (r : Read α tokens) (within : tokens <:+ all) : Read α all :=
  ⟨r.value, r.rest, r.suffix.trans within, Nat.lt_of_lt_of_le r.shorter within.length_le⟩

/-- Reads on where a first reading ended. -/
def next (r : Read α tokens) (reader : Reader β) : Except (Fault tokens) (Read β tokens) :=
  match reader r.rest with
  | .ok s => .ok (s.widen r.suffix)
  | .error fault => .error (fault.widen r.suffix)

/-- The problem is blamed on the first token, though reading went on past it. -/
def refuse (r : Read α tokens) (problem : Problem) : Fault tokens :=
  ⟨problem, tokens, r.rest, r.suffix, List.suffix_rfl⟩

/-- Demands a symbol where a reading ended, and reads past it. -/
def close (r : Read α tokens) (s : Symbol) (otherwise : Problem) :
    Except (Fault tokens) (Read α tokens) :=
  r.next fun tokens =>
    match tokens with
    | [] => stuck otherwise []
    | t :: rest => if t.is s then .ok (one r.value t rest) else stuck otherwise (t :: rest)

end Read

/-- Reads on after the first token. -/
def after {α : Type} (t : Token) (rest : List Token) (reader : Reader α) :
    Except (Fault (t :: rest)) (Read α (t :: rest)) :=
  match reader rest with
  | .ok r => .ok (r.widen (List.suffix_cons t rest))
  | .error fault => .error (fault.widen (List.suffix_cons t rest))

end Parse

end Lox
