/-! Binary operators, with their tag in the tree, their spelling in C and how tightly
C binds them. -/
namespace LittleC

inductive BinaryOp where
  | plus
  | minus
  | multiply
  | divide
  | equals
  | greaterThan
  | lessThan
  deriving DecidableEq, Repr

namespace BinaryOp

/-- All operators, in the order in which a node's tags are tried. -/
def all : List BinaryOp :=
  [plus, minus, multiply, divide, equals, greaterThan, lessThan]

def tag : BinaryOp → String
  | plus => "plus"
  | minus => "minus"
  | multiply => "multiply"
  | divide => "divide"
  | equals => "equals"
  | greaterThan => "greaterThan"
  | lessThan => "lessThan"

def ofTag? (s : String) : Option BinaryOp :=
  all.find? fun op => op.tag = s

def symbol : BinaryOp → String
  | plus => "+"
  | minus => "-"
  | multiply => "*"
  | divide => "/"
  | equals => "=="
  | greaterThan => ">"
  | lessThan => "<"

/-- Whether the result is a truth value. -/
def isComparison : BinaryOp → Bool
  | equals | greaterThan | lessThan => true
  | plus | minus | multiply | divide => false

/-- The level of the operator in C's grammar; a higher one binds tighter. -/
def precedence : BinaryOp → Nat
  | multiply | divide => 4
  | plus | minus => 3
  | greaterThan | lessThan => 2
  | equals => 1

theorem ofTag?_tag (op : BinaryOp) : ofTag? op.tag = some op := by
  cases op <;> decide

end BinaryOp
end LittleC
