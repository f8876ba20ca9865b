/-
# Lox.Command.Request -- what a command line asks for

Arguments are taken from left to right, and the first that asks for help or for the version,
or that is wrong, decides.  An option's value is joined to it by `=` or is the next argument,
unless that looks like an option itself; `--` ends the options, and `-` alone is a file name.
No option may be given twice, and there is at most one script, whose name is not empty.
-/

import Lox.Parser
import Lox.Expr.Form

namespace Lox.Command

set_option autoImplicit false

attribute [local instance(high)] instPowNat

/-- The settings of a run. -/
structure Options where
  dumpTokens : Bool := false
  /-- The form in which trees are dumped, if they are. -/
  dumpTrees : Option Expr.Form := none
  maxDepth? : Option Nat := none
  script? : Option String := none
deriving DecidableEq, Repr, Inhabited

/-- How high a tree may be. -/
def Options.maxDepth (o : Options) : Nat :=
  o.maxDepth?.getD Parser.defaultBound

/-- What a command line asks for. -/
inductive Request where
  | run (options : Options)
  | help
  | version
  | misuse
deriving DecidableEq, Repr, Inhabited

/-! ## Single arguments -/

/-- An argument by its look. -/
inductive Argument where
  | endOfOptions
  | long (name : String) (value? : Option String)
  /-- Letters after a single dash; only the first of them matters. -/
  | short (letter : Char)
  | plain (text : String)
deriving DecidableEq, Repr, Inhabited

/-- What an argument looks like before the options end. -/
def Argument.ofString (arg : String) : Argument :=
  match arg.toList with
  | ['-', '-'] => .endOfOptions
  | '-' :: '-' :: option =>
    let name := String.ofList (option.takeWhile (· != '='))
    match option.dropWhile (· != '=') with
    | [] => .long name none
    | _ :: value => .long name (some (String.ofList value))
  | '-' :: letter :: _ => .short letter
  | _ => .plain arg

/-- Whether an argument can be the value of the option before it. -/
def Argument.isPlain : Argument → Bool
  | .plain _ => true
  | _ => false

/-- The number written as decimal digits, perhaps after a plus sign, if it is below `2 ^ 64`. -/
def depth? (text : String) : Option Nat :=
  let digits := match text.toList with
    | '+' :: digits => digits
    | digits => digits
  let value := Nat.ofDigitChars 10 digits 0
  if !digits.isEmpty && digits.all Char.isDigit && value < 2 ^ (64 : Nat) then some value else none

/-- The form of a name. -/
def form? (name : String) : Option Expr.Form :=
  if name = "prefix" then some .prefixForm
  else if name = "postfix" then some .postfixForm
  else none

namespace Options

/-- Asks for the tokens to be dumped. -/
def withTokens (o : Options) : Option Options :=
  if o.dumpTokens then none else some { o with dumpTokens := true }

/-- Asks for trees to be dumped in the form of a name. -/
def withForm (o : Options) (name : String) : Option Options :=
  match o.dumpTrees, form? name with
  | none, some form => some { o with dumpTrees := some form }
  | _, _ => none

/-- Sets how high a tree may be. -/
def withDepth (o : Options) (text : String) : Option Options :=
  match o.maxDepth?, depth? text with
  | none, some depth => some { o with maxDepth? := some depth }
  | _, _ => none

/-- Names the script. -/
def withScript (o : Options) (path : String) : Option Options :=
  if o.script?.isSome || path.isEmpty then none else some { o with script? := some path }

/-- What an option that takes a value does with it, if there is such an option. -/
def valued? (name : String) : Option (Options → String → Option Options) :=
  if name = "ast" then some withForm
  else if name = "max-depth" then some withDepth
  else none

end Options

/-! ## Command lines -/

namespace Request

/-- Reads arguments after the options have ended. -/
def ofOperands (o : Options) : List String → Request
  | [] => .run o
  | path :: rest =>
    match o.withScript path with
    | none => .misuse
    | some o => ofOperands o rest

/-- What an option that takes no value asks for, if it does not let reading go on. -/
def ofFlag? (name : String) : Option Request :=
  if name = "help" then some .help
  else if name = "version" then some .version
  else none

/-- Reads arguments on top of the settings so far. -/
def ofArguments (o : Options) : List String → Request
  | [] => .run o
  | arg :: rest =>
    match Argument.ofString arg with
    | .endOfOptions => ofOperands o rest
    | .plain path =>
      match o.withScript path with
      | none => .misuse
      | some o => ofArguments o rest
    | .short letter =>
      if letter = 'h' then .help else if letter = 'V' then .version else .misuse
    | .long name value? =>
      match Options.valued? name, value?, rest with
      | some set, some value, rest =>
        match set o value with
        | none => .misuse
        | some o => ofArguments o rest
      | some set, none, value :: rest =>
        if (Argument.ofString value).isPlain then
          match set o value with
          | none => .misuse
          | some o => ofArguments o rest
        else .misuse
      | some _, none, [] => .misuse
      | none, some _, _ => .misuse
      | none, none, rest =>
        if name = "tokens" then
          match o.withTokens with
          | none => .misuse
          | some o => ofArguments o rest
        else (ofFlag? name).getD .misuse

/-- What a command line asks for. -/
def ofArgs (args : List String) : Request :=
  ofArguments {} args

end Request

end Lox.Command
