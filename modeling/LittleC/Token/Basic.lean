/-! Tokens: a kind, the text that matters, and the bytes of the source it covers. For
a string and for raw text the value leaves out the delimiters, the span does not. -/
namespace LittleC

inductive TokenKind where
  | eof
  | number
  | string
  | rawCode
  | identifier
  | openCurly
  | closeCurly
  | openParen
  | closeParen
  | assignment
  | equals
  | less
  | greater
  | semicolon
  | colon
  | comma
  | arrow
  | plus
  | dash
  | slash
  | star
  | kwLet
  | kwVar
  | kwFn
  | kwReturn
  | kwIf
  | kwElse
  | kwFor
  | kwTrue
  | kwFalse
  deriving DecidableEq, Repr

namespace TokenKind

def all : List TokenKind :=
  [eof, number, string, rawCode, identifier, openCurly, closeCurly, openParen, closeParen,
   assignment, equals, less, greater, semicolon, colon, comma, arrow, plus, dash, slash, star,
   kwLet, kwVar, kwFn, kwReturn, kwIf, kwElse, kwFor, kwTrue, kwFalse]

def name : TokenKind → String
  | eof => "EOF"
  | number => "Number"
  | string => "String"
  | rawCode => "RawCode"
  | identifier => "Identifier"
  | openCurly => "OpenCurly"
  | closeCurly => "CloseCurly"
  | openParen => "OpenParen"
  | closeParen => "CloseParen"
  | assignment => "Assignment"
  | equals => "Equals"
  | less => "Less"
  | greater => "Greater"
  | semicolon => "Semicolon"
  | colon => "Colon"
  | comma => "Comma"
  | arrow => "Arrow"
  | plus => "Plus"
  | dash => "Dash"
  | slash => "Slash"
  | star => "Star"
  | kwLet => "Let"
  | kwVar => "Var"
  | kwFn => "Fn"
  | kwReturn => "Return"
  | kwIf => "If"
  | kwElse => "Else"
  | kwFor => "For"
  | kwTrue => "True"
  | kwFalse => "False"

def ofName? (s : String) : Option TokenKind :=
  all.find? fun k => k.name = s

/-- The kind of a reserved word. -/
def reserved? (word : String) : Option TokenKind :=
  if word = "let" then some kwLet
  else if word = "var" then some kwVar
  else if word = "fn" then some kwFn
  else if word = "return" then some kwReturn
  else if word = "if" then some kwIf
  else if word = "else" then some kwElse
  else if word = "for" then some kwFor
  else if word = "true" then some kwTrue
  else if word = "false" then some kwFalse
  else none

end TokenKind

/-- The bytes of a source from `start` up to `stop`. -/
structure Span where
  start : Nat
  stop : Nat
  file : String
  deriving DecidableEq, Repr

structure Token where
  kind : TokenKind
  value : String
  span : Span
  deriving DecidableEq, Repr

namespace Token

/-- The kind, and the value where the kind alone does not give it. -/
def display (t : Token) : String :=
  match t.kind with
  | .string | .identifier | .number | .rawCode => t.kind.name ++ " (" ++ t.value ++ ")"
  | _ => t.kind.name

end Token
end LittleC
