/-
# Lox.Diagnostic -- located messages

Every fault, lexical, syntactic or at run time, is told to the user as a `Diagnostic`: a
message, a line, and whether it stands at a lexeme, at the end of the input, or nowhere in
particular.
-/

namespace Lox

set_option autoImplicit false

/-- Where on its line a diagnostic points. -/
inductive Location where
  | nowhere
  | atEnd
  | atLexeme (lexeme : String)
deriving DecidableEq, Repr, Inhabited

/-- The location as it stands in the text of a diagnostic. -/
def Location.text : Location → String
  | .nowhere => ""
  | .atEnd => " at end"
  | .atLexeme lexeme => " at '" ++ lexeme ++ "'"

/-- A located message. -/
structure Diagnostic where
  line : Nat
  location : Location
  message : String
deriving DecidableEq, Repr, Inhabited

namespace Diagnostic

/-- A diagnostic that points at no lexeme. -/
def onLine (line : Nat) (message : String) : Diagnostic :=
  ⟨line, .nowhere, message⟩

/-- The text of a diagnostic. -/
def text (d : Diagnostic) : String :=
  "[line " ++ toString d.line ++ "] Error" ++ d.location.text ++ ": " ++ d.message

/-- The texts of diagnostics, each on a line of its own that ends in a newline. -/
def report (ds : List Diagnostic) : String :=
  String.join (ds.map fun d => d.text ++ "\n")

/-- The texts of diagnostics with a newline between them. -/
def joined (ds : List Diagnostic) : String :=
  "\n".intercalate (ds.map text)

end Diagnostic

end Lox
