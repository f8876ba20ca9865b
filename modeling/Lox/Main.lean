/-
# Lox.Main -- the command line

The outer layer: it reads the script or the input and writes what the command makes of it.
-/

import Lox.Command.Reply

namespace Lox.Command

set_option autoImplicit false

/-- The bytes of a file. -/
def readFile (path : String) : IO (Except ReadFailure ByteArray) := do
  try
    return .ok (← IO.FS.readBinFile path)
  catch
    | .noFileOrDirectory .. => return .error .missing
    | .inappropriateType .. => return .error .isDirectory
    | e => return .error (.other (toString e))

/-- Writes a reply and answers with its code. -/
def send (r : Reply) : IO UInt32 := do
  let stdout ← IO.getStdout
  stdout.write r.stdout
  stdout.flush
  IO.eprint r.stderr
  return r.code

/-- Reads on to the end of a line, or of the input. -/
partial def readLine (line : ByteArray) : IO ByteArray := do
  let byte ← (← IO.getStdin).read 1
  if byte.isEmpty || byte.data.contains 10 then return line ++ byte
  readLine (line ++ byte)

/-- Prompts for lines and runs them until the input ends. -/
partial def promptLoop (o : Options) (session : Session) : IO Unit := do
  let stdout ← IO.getStdout
  stdout.write promptText
  stdout.flush
  let line ← readLine .empty
  if line.isEmpty then return
  match turn? o session line with
  | none => return
  | some turn =>
    stdout.write turn.stdout
    stdout.flush
    IO.eprint turn.stderr
    promptLoop o turn.session

/-- Does what a command line asks for. -/
def run (args : List String) : IO UInt32 := do
  match Request.ofArgs args with
  | .run o =>
    match o.script? with
    | some path => send (runScript o path (← readFile path))
    | none =>
      promptLoop o o.session
      return 0
  | _ => send (reply (fun _ => .error .missing) .empty args)

end Lox.Command

/-- Does what the command line asks for. -/
def main (args : List String) : IO UInt32 :=
  Lox.Command.run args
