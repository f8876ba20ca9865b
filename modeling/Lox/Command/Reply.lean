/-
# Lox.Command.Reply -- the whole run of a command line

`reply` takes a command line, a way to read files and the standard input to what is written
on the two outputs and the exit code.  A script is run once; without a script, every line of
the input is a program of its own, run with its newline after a prompt, and the input ends
early at a line that is not UTF-8.
-/

import Lox.Command.Dump

namespace Lox.Command

set_option autoImplicit false

/-- What a run leaves behind. -/
structure Reply where
  stdout : ByteArray := .empty
  stderr : String := ""
  code : UInt32 := 0
deriving Inhabited

/-- Why a script cannot be read. -/
inductive ReadFailure where
  | missing
  | isDirectory
  | notText
  | other (reason : String)
deriving DecidableEq, Repr, Inhabited

/-- The wording of a failure to read. -/
def ReadFailure.text : ReadFailure → String
  | missing => "No such file or directory (os error 2)"
  | isDirectory => "Is a directory (os error 21)"
  | notText => "stream did not contain valid UTF-8"
  | other reason => reason

/-! ## Fixed replies -/

/-- What help says. -/
def helpText : String :=
  "A tree-walking interpreter for Lox. Starts an interactive prompt when no script is given\n" ++
  "\n" ++
  "Usage: lox [OPTIONS] [SCRIPT]\n" ++
  "\n" ++
  "Arguments:\n" ++
  "  [SCRIPT]  Script to run\n" ++
  "\n" ++
  "Options:\n" ++
  "      --tokens                 Print the scanned tokens before running\n" ++
  "      --ast <AST>              Print every parsed statement's expression tree before " ++
    "running [possible values: prefix, postfix]\n" ++
  "      --max-depth <MAX_DEPTH>  Maximum height of an expression tree [default: 128]\n" ++
  "  -h, --help                   Print help\n" ++
  "  -V, --version                Print version\n"

/-- What the version says. -/
def versionText : String := "lox 0.1.0\n"

/-- The reply to a command line that asks for nothing possible. -/
def misused : Reply :=
  { stderr := "Usage: lox [script]\n", code := 64 }

/-- The reply when a script cannot be read. -/
def unreadable (path : String) (failure : ReadFailure) : Reply :=
  { stderr := "Failed to read the script '" ++ path ++ "': " ++ failure.text ++ "\n"
    code := 66 }

/-! ## Running texts -/

/-- A session with the settings of a run. -/
def Options.session (o : Options) : Session :=
  .start { maxDepth := o.maxDepth }

/-- What is told of a run that did not reach its end. -/
def reported : Except RunError Unit → String
  | .ok () => ""
  | .error e => Diagnostic.report e.diagnostics

/-- The bytes of a file as text. -/
def asText (content : Except ReadFailure ByteArray) : Except ReadFailure String :=
  match content with
  | .error failure => .error failure
  | .ok bytes =>
    match String.fromUTF8? bytes with
    | some text => .ok text
    | none => .error .notText

/-- Runs a script. -/
def runScript (o : Options) (path : String) (content : Except ReadFailure ByteArray) : Reply :=
  match asText content with
  | .error failure => unreadable path failure
  | .ok text =>
    let (result, session) := o.session.run text
    { stdout := session.interpreter.sink.content
      stderr := o.dump text ++ reported result
      code := if session.hadRuntimeError then 70 else 0 }

/-! ## The prompt -/

/-- What is written before every line that is read. -/
def promptText : ByteArray := "> ".toUTF8

/-- What one line at the prompt brings about. -/
structure Turn where
  stdout : ByteArray
  stderr : String
  session : Session

/-- Runs one line as a program of its own, if it is UTF-8. -/
def turn? (o : Options) (session : Session) (line : ByteArray) : Option Turn :=
  match String.fromUTF8? line with
  | none => none
  | some text =>
    let (result, session) := session.resetErrors.run text
    let sink := session.interpreter.sink
    some
      { stdout := sink.content
        stderr := o.dump text ++ reported result
        session :=
          { session with
            interpreter := { session.interpreter with sink := { sink with content := .empty } } } }

/-- The lines of the input, each with its newline; the last may lack one. -/
def lines (input : ByteArray) : List ByteArray :=
  (input.data.toList.splitBy fun byte _ => byte != 10).map fun line => ⟨line.toArray⟩

/-- Runs lines one after the other, after what has been written so far. -/
def converse (o : Options) (session : Session) (soFar : Reply) : List ByteArray → Reply
  | [] => { soFar with stdout := soFar.stdout ++ promptText }
  | line :: rest =>
    match turn? o session line with
    | none => { soFar with stdout := soFar.stdout ++ promptText }
    | some turn =>
      converse o turn.session
        { soFar with
          stdout := soFar.stdout ++ promptText ++ turn.stdout
          stderr := soFar.stderr ++ turn.stderr } rest

/-- Runs the lines of an input. -/
def runPrompt (o : Options) (input : ByteArray) : Reply :=
  converse o o.session {} (lines input)

/-- The reply to a command line. -/
def reply (readFile : String → Except ReadFailure ByteArray) (input : ByteArray)
    (args : List String) : Reply :=
  match Request.ofArgs args with
  | .misuse => misused
  | .help => { stdout := helpText.toUTF8 }
  | .version => { stdout := versionText.toUTF8 }
  | .run o =>
    match o.script? with
    | some path => runScript o path (readFile path)
    | none => runPrompt o input

end Lox.Command
