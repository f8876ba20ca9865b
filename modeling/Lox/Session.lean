/-
# Lox.Session -- texts run one after the other

A session runs each text as a program of its own, on one interpreter, and remembers whether
a text was rejected and whether a program failed until that memory is reset.  A text with any
lexical or syntax fault is not run at all.  Evaluation may descend as deep as the highest tree
that the session accepts, however low its own limit is set.
-/

import Lox.Parser
import Lox.Interpreter

namespace Lox

set_option autoImplicit false

/-- The limits of a session. -/
structure Config where
  /-- How high a tree may be. -/
  maxDepth : Nat := Parser.defaultBound
  /-- How many levels evaluation may descend, at least. -/
  maxEvalDepth : Nat := 1024
deriving DecidableEq, Repr, Inhabited

/-- Why a text did not run to its end. -/
inductive RunError where
  /-- Its lexical faults and then its syntax faults; there is one at least. -/
  | rejected (faults : List Diagnostic)
  | stopped (error : RuntimeError)
deriving DecidableEq, Repr, Inhabited

/-- What there is to tell about a run that did not reach its end. -/
def RunError.diagnostics : RunError → List Diagnostic
  | rejected faults => faults
  | stopped error => [error.diagnostic]

/-- The statements of a text, or all its faults if it has any. -/
def programOfText (maxDepth : Nat) (text : String) : Except (List Diagnostic) (List Stmt) :=
  match (Parser.ofText text maxDepth).program with
  | (program, { reported := [], .. }) => .ok program
  | (_, { reported, .. }) => .error reported

/-- The limits, the interpreter, and what went wrong since the last reset. -/
structure Session where
  config : Config
  interpreter : Interpreter
  hadSyntaxError : Bool := false
  hadRuntimeError : Bool := false
deriving Inhabited

namespace Session

/-- A session that writes to a sink. -/
def start (config : Config) (sink : Sink := {}) : Session :=
  { config
    interpreter := { limit := max config.maxEvalDepth config.maxDepth, sink } }

/-- Forgets what went wrong. -/
def resetErrors (s : Session) : Session :=
  { s with hadSyntaxError := false, hadRuntimeError := false }

/-- The program of a text; a rejected text is remembered. -/
def parse (s : Session) (text : String) : Except RunError (List Stmt) × Session :=
  match programOfText s.config.maxDepth text with
  | .ok program => (.ok program, s)
  | .error faults => (.error (.rejected faults), { s with hadSyntaxError := true })

/-- Runs a program; a failure is remembered. -/
def execute (s : Session) (program : List Stmt) : Except RunError Unit × Session :=
  match s.interpreter.interpret program with
  | (.ok (), interpreter) => (.ok (), { s with interpreter })
  | (.error e, interpreter) =>
    (.error (.stopped e), { s with interpreter, hadRuntimeError := true })

/-- Runs a text. -/
def run (s : Session) (text : String) : Except RunError Unit × Session :=
  match s.parse text with
  | (.error e, s) => (.error e, s)
  | (.ok program, s) => s.execute program

end Session

end Lox
