import LittleC.Ast.Expr
import LittleC.Error
import LittleC.Token.Basic

/-! Numeric literals. The suffix `f` makes a float, a point a double, and anything else
is an integer of 32 bits. The literal keeps its text; only whether that text denotes a
number of its kind is checked here. -/
namespace LittleC.Literal

/-! ### Texts of numbers -/

/-- A text without its sign, and whether that is a minus. -/
def unsigned : List Char → Bool × List Char
  | '-' :: rest => (true, rest)
  | '+' :: rest => (false, rest)
  | cs => (false, cs)

def isDigits (cs : List Char) : Bool :=
  !cs.isEmpty && cs.all Char.isDigit

/-- The number that decimal digits denote. -/
def digitsValue (cs : List Char) : Nat :=
  cs.foldl (fun n c => n * 10 + (c.toNat - '0'.toNat)) 0

/-- The integer with a sign and digits. -/
def integer? (cs : List Char) : Option Int :=
  let (negative, digits) := unsigned cs
  if isDigits digits then
    some (if negative then -(digitsValue digits : Int) else digitsValue digits)
  else none

/-- Whether a text is an integer of 32 bits. -/
def isInt32 (cs : List Char) : Bool :=
  match integer? cs with
  | some n => decide (-2147483648 ≤ n) && decide (n ≤ 2147483647)
  | none => false

/-- The rest of a decimal from its exponent on: nothing, or a mark and an integer. -/
def isExponent : List Char → Bool
  | [] => true
  | c :: rest => (c == 'e' || c == 'E') && isDigits (unsigned rest).2

/-- Digits with a point among or around them, and perhaps an exponent. -/
def isDecimal (cs : List Char) : Bool :=
  let whole := cs.takeWhile Char.isDigit
  match cs.dropWhile Char.isDigit with
  | '.' :: rest =>
    let fraction := rest.takeWhile Char.isDigit
    !(whole.isEmpty && fraction.isEmpty) && isExponent (rest.dropWhile Char.isDigit)
  | rest => !whole.isEmpty && isExponent rest

/-- The names of the values that are no numbers, in any case. -/
def isSpecial (cs : List Char) : Bool :=
  let name := String.ofList (cs.map Char.toLower)
  name == "inf" || name == "infinity" || name == "nan"

/-- Whether a text denotes a floating-point value. None is too large or too small. -/
def isFloating (cs : List Char) : Bool :=
  let rest := (unsigned cs).2
  isDecimal rest || isSpecial rest

/-! ### Literals -/

/-- The literal with this text, if it denotes a number of its kind. -/
def ofText? (text : String) : Option Expr :=
  let cs := text.toList
  if cs.getLast? = some 'f' then
    if isFloating cs.dropLast then some (.float text) else none
  else if cs.contains '.' then
    if isFloating cs then some (.double text) else none
  else if isInt32 cs then some (.integer text)
  else none

/-- The literal of a token with this text, or an error at the token. -/
def ofToken (t : Token) (text : String) : Except Error Expr :=
  match ofText? text with
  | some e => .ok e
  | none => .error (.located (.invalidNumber text) ⟨t.span.start, t.span.file⟩)

end LittleC.Literal
