/-
# Lox.Token.Kind -- symbols, keywords and the kinds of tokens

A kind says what a token is: one of the fixed symbols, one of the keywords, an identifier,
a number or string literal with the value it carries (if any), or the end of the input.
`error` is the kind of unreadable text; scanning reports such text and makes no token of it.
Only number and string kinds carry a literal, so no other token can.
-/

import Lox.Value

namespace Lox

set_option autoImplicit false

/-! ## Symbols -/

/-- The operators and punctuation marks. -/
inductive Symbol where
  | leftParen | rightParen | leftBrace | rightBrace
  | comma | dot | minus | plus | semicolon | slash | star
  | bang | bangEqual | equal | equalEqual
  | greater | greaterEqual | less | lessEqual
deriving DecidableEq, Repr, Inhabited

namespace Symbol

/-- Every symbol. -/
def all : List Symbol :=
  [leftParen, rightParen, leftBrace, rightBrace, comma, dot, minus, plus, semicolon, slash,
    star, bang, bangEqual, equal, equalEqual, greater, greaterEqual, less, lessEqual]

theorem mem_all (s : Symbol) : s ∈ all := by
  cases s <;> decide

/-- The characters of a symbol. -/
def chars : Symbol → List Char
  | leftParen => ['('] | rightParen => [')'] | leftBrace => ['\x7b'] | rightBrace => ['\x7d']
  | comma => [','] | dot => ['.'] | minus => ['-'] | plus => ['+'] | semicolon => [';']
  | slash => ['/'] | star => ['*']
  | bang => ['!'] | bangEqual => ['!', '='] | equal => ['='] | equalEqual => ['=', '=']
  | greater => ['>'] | greaterEqual => ['>', '='] | less => ['<'] | lessEqual => ['<', '=']

/-- The name of a symbol. -/
def name : Symbol → String
  | leftParen => "LeftParen" | rightParen => "RightParen"
  | leftBrace => "LeftBrace" | rightBrace => "RightBrace"
  | comma => "Comma" | dot => "Dot" | minus => "Minus" | plus => "Plus"
  | semicolon => "Semicolon" | slash => "Slash" | star => "Star"
  | bang => "Bang" | bangEqual => "BangEqual" | equal => "Equal" | equalEqual => "EqualEqual"
  | greater => "Greater" | greaterEqual => "GreaterEqual"
  | less => "Less" | lessEqual => "LessEqual"

/-- The longest symbol at the front of a text. -/
def longest? : List Char → Option Symbol
  | '(' :: _ => some leftParen
  | ')' :: _ => some rightParen
  | '\x7b' :: _ => some leftBrace
  | '\x7d' :: _ => some rightBrace
  | ',' :: _ => some comma
  | '.' :: _ => some dot
  | '-' :: _ => some minus
  | '+' :: _ => some plus
  | ';' :: _ => some semicolon
  | '/' :: _ => some slash
  | '*' :: _ => some star
  | '!' :: '=' :: _ => some bangEqual
  | '!' :: _ => some bang
  | '=' :: '=' :: _ => some equalEqual
  | '=' :: _ => some equal
  | '>' :: '=' :: _ => some greaterEqual
  | '>' :: _ => some greater
  | '<' :: '=' :: _ => some lessEqual
  | '<' :: _ => some less
  | _ => none

end Symbol

/-! ## Keywords -/

/-- The reserved words. -/
inductive Keyword where
  | andWord | classWord | elseWord | falseWord | funWord | forWord | ifWord | nilWord
  | orWord | printWord | returnWord | superWord | thisWord | trueWord | varWord | whileWord
deriving DecidableEq, Repr, Inhabited

namespace Keyword

/-- Every keyword. -/
def all : List Keyword :=
  [andWord, classWord, elseWord, falseWord, funWord, forWord, ifWord, nilWord,
    orWord, printWord, returnWord, superWord, thisWord, trueWord, varWord, whileWord]

theorem mem_all (k : Keyword) : k ∈ all := by
  cases k <;> decide

/-- The characters of a keyword. -/
def chars : Keyword → List Char
  | andWord => ['a', 'n', 'd']
  | classWord => ['c', 'l', 'a', 's', 's']
  | elseWord => ['e', 'l', 's', 'e']
  | falseWord => ['f', 'a', 'l', 's', 'e']
  | funWord => ['f', 'u', 'n']
  | forWord => ['f', 'o', 'r']
  | ifWord => ['i', 'f']
  | nilWord => ['n', 'i', 'l']
  | orWord => ['o', 'r']
  | printWord => ['p', 'r', 'i', 'n', 't']
  | returnWord => ['r', 'e', 't', 'u', 'r', 'n']
  | superWord => ['s', 'u', 'p', 'e', 'r']
  | thisWord => ['t', 'h', 'i', 's']
  | trueWord => ['t', 'r', 'u', 'e']
  | varWord => ['v', 'a', 'r']
  | whileWord => ['w', 'h', 'i', 'l', 'e']

/-- The name of a keyword. -/
def name : Keyword → String
  | andWord => "And" | classWord => "Class" | elseWord => "Else" | falseWord => "False"
  | funWord => "Fun" | forWord => "For" | ifWord => "If" | nilWord => "Nil"
  | orWord => "Or" | printWord => "Print" | returnWord => "Return" | superWord => "Super"
  | thisWord => "This" | trueWord => "True" | varWord => "Var" | whileWord => "While"

/-- The keyword that a word is, if it is one. -/
def ofChars? (word : List Char) : Option Keyword :=
  all.find? fun k => k.chars == word

/-- The keywords that can begin a statement. -/
def startsStatement : Keyword → Bool
  | classWord | funWord | varWord | forWord | ifWord | whileWord | printWord | returnWord => true
  | _ => false

end Keyword

/-! ## Kinds -/

/-- What a token is. -/
inductive Kind where
  | symbol (s : Symbol)
  | keyword (k : Keyword)
  | identifier
  | number (literal : Option Value)
  | string (literal : Option Value)
  | error
  | eof
deriving DecidableEq, Repr, Inhabited

namespace Kind

/-- The name of a kind. -/
def name : Kind → String
  | .symbol s => s.name
  | .keyword k => k.name
  | .identifier => "Identifier"
  | .number _ => "NumberLit"
  | .string _ => "StringLit"
  | .error => "Error"
  | .eof => "Eof"

/-- The kind of a name; `literal` is for the kinds that carry one. -/
def ofName? (name : String) (literal : Option Value) : Option Kind :=
  let kinds := Symbol.all.map symbol ++ Keyword.all.map keyword ++
    [identifier, number literal, string literal, error, eof]
  kinds.find? fun kind => kind.name == name

/-- The one lexeme of a kind whose text is fixed. -/
def lexeme? : Kind → Option String
  | .symbol s => some (String.ofList s.chars)
  | .keyword k => some (String.ofList k.chars)
  | _ => none

/-- The literal that a number or string kind carries. -/
def literal : Kind → Option Value
  | .number literal | .string literal => literal
  | _ => none

/-- The value that a token of this kind denotes in an expression. -/
def value? : Kind → Option Value
  | .keyword .trueWord => some (.boolean true)
  | .keyword .falseWord => some (.boolean false)
  | .keyword .nilWord => some .nil
  | kind => kind.literal

/-- Whether a statement can begin with this kind. -/
def startsStatement : Kind → Bool
  | .keyword k => k.startsStatement
  | _ => false

end Kind

end Lox
