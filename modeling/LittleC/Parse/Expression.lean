import LittleC.Parse.Cursor
import LittleC.Parse.Literal

/-! Reading expressions. An operand is followed by the tokens that continue it as long as
they bind tighter than a floor: an operator of the chain, an assignment, a call. Each
function reads from its cursor, and those that begin after a token that was looked at
already say so in their name. -/
namespace LittleC

/-- How tightly a token holds on to the expression on its left. -/
inductive Power where
  | lowest
  | assignment
  | relational
  | additive
  | multiplicative
  | call
  | primary
  deriving DecidableEq, Repr

namespace Power

def all : List Power :=
  [lowest, assignment, relational, additive, multiplicative, call, primary]

def name : Power → String
  | lowest => "Default"
  | assignment => "Assignment"
  | relational => "Relational"
  | additive => "Additive"
  | multiplicative => "Multiplicative"
  | call => "Call"
  | primary => "Primary"

def ofName? (s : String) : Option Power :=
  all.find? fun p => p.name = s

def rank : Power → Nat
  | lowest => 0
  | assignment => 1
  | relational => 2
  | additive => 3
  | multiplicative => 4
  | call => 5
  | primary => 6

end Power

/-- What a token makes of the expression on its left. -/
inductive Continuation where
  | assignment
  | binary (op : BinaryOp)
  | call
  deriving DecidableEq, Repr

/-- All comparisons share one power, so they chain from the left. -/
def Continuation.power : Continuation → Power
  | assignment => .assignment
  | binary .equals | binary .lessThan | binary .greaterThan => .relational
  | binary .plus | binary .minus => .additive
  | binary .multiply | binary .divide => .multiplicative
  | call => .call

namespace TokenKind

/-- The operator that a token stands for between two operands. -/
def operator? : TokenKind → Option BinaryOp
  | plus => some .plus
  | dash => some .minus
  | star => some .multiply
  | slash => some .divide
  | equals => some .equals
  | greater => some .greaterThan
  | less => some .lessThan
  | _ => none

def continuation? (k : TokenKind) : Option Continuation :=
  match k with
  | assignment => some .assignment
  | openParen => some .call
  | k => k.operator?.map .binary

/-- Whether an expression may begin with the token. -/
def startsExpr : TokenKind → Bool
  | number | identifier | string | kwTrue | kwFalse | rawCode | dash | openParen => true
  | _ => false

end TokenKind

namespace Parse

/-- The expression that a token is by itself. -/
def primaryOf (t : Token) : Except Error Expr :=
  match t.kind with
  | .number => Literal.ofToken t t.value
  | .identifier => .ok (.symbol t.value)
  | .string => .ok (.string t.value)
  | .kwTrue => .ok (.boolean true)
  | .kwFalse => .ok (.boolean false)
  | .rawCode => .ok (.raw t.value)
  | _ => .error (.located (.unexpectedToken t.value) ⟨t.span.start, t.span.file⟩)

/-- An expression of one token. -/
def primary (c : Cursor) : Reading 1 Expr c :=
  match c with
  | ⟨[], final⟩ =>
    .fail (.located (.unexpectedToken final.value) ⟨final.span.start, final.span.file⟩)
  | ⟨t :: rest, final⟩ =>
    match primaryOf t with
    | .ok e => (Reading.done e : Reading 0 Expr ⟨rest, final⟩).afterFirst
    | .error e => .fail e

/-- The number after a minus sign. Nothing else can be negated. -/
def afterMinus (c : Cursor) : Reading 0 Expr c :=
  if c.kind = .number then .step (Literal.ofToken c.current ("-" ++ c.current.value))
  else .fail (c.unexpected "only numeric literals can be negated")

set_option linter.unusedVariables false in
mutual
/-- An expression whose continuations bind tighter than the floor. -/
def expr (floor : Power) (c : Cursor) : Reading 1 Expr c :=
  (operand c).bind fun left d hd => chain floor left d
termination_by (c.size, 1)
decreasing_by
  · exact Prod.Lex.right _ (by decide)
  · exact Prod.Lex.left _ _ hd

/-- What an expression begins with: one token, a negated number, or an expression in
parentheses. -/
def operand (c : Cursor) : Reading 1 Expr c :=
  match c with
  | ⟨[], final⟩ => .fail (Cursor.unexpected ⟨[], final⟩ "expected an expression")
  | ⟨t :: rest, final⟩ =>
    if t.kind = .dash then (afterMinus ⟨rest, final⟩).afterFirst
    else if t.kind = .openParen then (afterOpenParen ⟨rest, final⟩).afterFirst
    else if t.kind.startsExpr then primary ⟨t :: rest, final⟩
    else .fail (Cursor.unexpected ⟨t :: rest, final⟩ "expected an expression")
termination_by (c.size, 0)
decreasing_by exact Prod.Lex.left _ _ (Nat.lt_succ_self _)

/-- The rest of an expression in parentheses. -/
def afterOpenParen (c : Cursor) : Reading 1 Expr c :=
  (expr .lowest c).bind fun e d _ => (d.expect .closeParen).map fun _ => e
termination_by (c.size, 2)
decreasing_by exact Prod.Lex.right _ (by decide)

/-- The continuations of an expression, as many as bind tighter than the floor. -/
def chain (floor : Power) (left : Expr) (c : Cursor) : Reading 0 Expr c :=
  match c with
  | ⟨[], _⟩ => .done left
  | ⟨t :: rest, final⟩ =>
    match t.kind.continuation? with
    | none => .done left
    | some continuation =>
      if continuation.power.rank ≤ floor.rank then .done left
      else
        let extended : Reading 1 Expr ⟨t :: rest, final⟩ :=
          match continuation, left with
          | .binary op, left =>
            ((expr continuation.power ⟨rest, final⟩).map (.binary op left)).afterFirst
          | .assignment, .symbol name => ((expr .lowest ⟨rest, final⟩).map (.assign name)).afterFirst
          | .assignment, _ =>
            .fail (Cursor.unexpected ⟨t :: rest, final⟩ "only variables can be assigned to")
          | .call, .symbol name => ((arguments ⟨rest, final⟩).map (.call name)).afterFirst
          | .call, _ =>
            .fail (Cursor.unexpected ⟨t :: rest, final⟩ "only named functions can be called")
        (extended.bind fun e d hd => chain floor e d).weaken
termination_by (c.size, 0)
decreasing_by
  · exact Prod.Lex.left _ _ (Nat.lt_succ_self _)
  · exact Prod.Lex.left _ _ (Nat.lt_succ_self _)
  · exact Prod.Lex.left _ _ (Nat.lt_succ_self _)
  · exact Prod.Lex.left _ _ hd

/-- The arguments of a call through the closing parenthesis. A comma may follow the last. -/
def arguments (c : Cursor) : Reading 0 (List Expr) c :=
  if c.kind = .closeParen then .step (.ok [])
  else
    ((expr .lowest c).bind fun e d hd =>
      if d.kind = .closeParen then (arguments d).map (e :: ·)
      else (d.expect .comma).bind fun _ d' hd' => (arguments d').map (e :: ·)).weaken
termination_by (c.size, 2)
decreasing_by
  · exact Prod.Lex.right _ (by decide)
  · exact Prod.Lex.left _ _ hd
  · exact Prod.Lex.left _ _ (Nat.lt_of_le_of_lt hd' hd)
end

/-! ### Continuations read on their own -/

/-- A number and the sign in front of it, whichever token that is. -/
def negative (c : Cursor) : Reading 0 Expr c :=
  (afterMinus c.advance).afterCurrent

/-- An expression in parentheses, the opening one being the current token. -/
def grouping (c : Cursor) : Reading 0 Expr c :=
  (afterOpenParen c.advance).afterCurrent

/-- An operator and the expression on its right. -/
def binary (left : Expr) (power : Power) (c : Cursor) : Reading 0 Expr c :=
  match c.kind.operator? with
  | some op => ((expr power c.advance).map (.binary op left)).afterCurrent
  | none => .fail (c.unexpected "expected a binary operator")

/-- An assignment to the expression on the left, which has to be a name. -/
def assignment (left : Expr) (c : Cursor) : Reading 0 Expr c :=
  match left with
  | .symbol name => ((expr .lowest c.advance).map (.assign name)).afterCurrent
  | _ => .fail (c.unexpected "only variables can be assigned to")

/-- A call of the expression on the left, which has to be a name. -/
def call (left : Expr) (c : Cursor) : Reading 0 Expr c :=
  match left with
  | .symbol name => ((arguments c.advance).map (.call name)).afterCurrent
  | _ => .fail (c.unexpected "only named functions can be called")

end Parse
end LittleC
