import LittleC.Text.Quoted

/-! Errors: a cause and, for what went wrong in a source text, the position. Each
cause has a name, a message and, where there is something to suggest, a tip. -/
namespace LittleC

/-- A byte offset into a named source. -/
structure Position where
  offset : Nat
  file : String
  deriving DecidableEq, Repr

inductive Cause where
  /-- No token begins with this character. -/
  | unrecognisedToken (token : String)
  /-- Another token has to stand here. -/
  | unexpectedToken (token : String)
  /-- The token cannot stand here, and why. -/
  | unexpectedTokenDetailed (token message : String)
  /-- The text is no number of its kind, or too large for it. -/
  | invalidNumber (token : String)
  /-- No type has this name. -/
  | unknownType (name : String)
  /-- The tree cannot be loaded. -/
  | invalidAst (message : String)
  | undefinedSymbol (name : String)
  | undefinedFunction (name : String)
  /-- The first argument without a parameter. -/
  | extraArgument (function argument : String)
  /-- The first parameter without an argument. -/
  | missingArgument (function parameter : String)
  | typeMismatch (context expected received : String)
  deriving DecidableEq, Repr

namespace Cause

def name : Cause → String
  | unrecognisedToken _ => "UnrecognisedToken"
  | unexpectedToken _ => "UnexpectedToken"
  | unexpectedTokenDetailed .. => "UnexpectedTokenDetailed"
  | invalidNumber _ => "NumberParseError"
  | unknownType _ => "UnknownType"
  | invalidAst _ => "InvalidAst"
  | undefinedSymbol _ => "UndefinedSymbol"
  | undefinedFunction _ => "UndefinedFunction"
  | extraArgument .. => "ExtraArgument"
  | missingArgument .. => "MissingArgument"
  | typeMismatch .. => "TypeMismatch"

open Text in
def message : Cause → String
  | unrecognisedToken t => "unrecognised token: " ++ quote t
  | unexpectedToken t => "unexpected token: " ++ quote t
  | unexpectedTokenDetailed t m => "unexpected token (" ++ m ++ "): " ++ quote t
  | invalidNumber t => "error parsing number: " ++ quote t
  | unknownType n => "unknown type " ++ n ++ " found"
  | invalidAst m => "invalid AST: " ++ m
  | undefinedSymbol n => "undefined symbol " ++ quote n
  | undefinedFunction n => "undefined function " ++ quote n
  | extraArgument f a => "unexpected extra argument " ++ a ++ " in call to " ++ quote f
  | missingArgument f p => "missing argument " ++ quote p ++ " in call to " ++ quote f
  | typeMismatch c e r => "types do not match in " ++ c ++ ": expected " ++ e ++ ", received " ++ r

def tip? : Cause → Option String
  | unrecognisedToken _ | invalidAst _ => none
  | unexpectedToken t => some ("Unexpected token: `" ++ t ++ "`, did you miss a semicolon?")
  | unexpectedTokenDetailed t m => some ("Unexpected token: `" ++ t ++ "`, " ++ m)
  | invalidNumber t => some ("Invalid number literal: `" ++ t ++ "`")
  | unknownType n =>
    some ("Unknown type `" ++ n ++ "`, expected one of I32, F32, F64, String, Bool or Void")
  | undefinedSymbol n => some ("`" ++ n ++ "` is not declared in any enclosing scope")
  | undefinedFunction n =>
    some ("Function `" ++ n ++ "` is not declared, add a prototype before calling it")
  | extraArgument f _ => some ("Too many arguments in call to `" ++ f ++ "`")
  | missingArgument f p => some ("Call to `" ++ f ++ "` is missing a value for `" ++ p ++ "`")
  | typeMismatch _ e r => some ("Expected type `" ++ e ++ "`, received `" ++ r ++ "`")

end Cause

structure Error where
  cause : Cause
  position : Option Position
  deriving DecidableEq, Repr

namespace Error

def located (cause : Cause) (position : Position) : Error :=
  ⟨cause, some position⟩

def unlocated (cause : Cause) : Error :=
  ⟨cause, none⟩

end Error
end LittleC
