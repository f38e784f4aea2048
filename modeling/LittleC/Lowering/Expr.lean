import LittleC.Error
import LittleC.Json.Text
import LittleC.Lowering.Layout
import LittleC.Scope

/-! Lowering expressions: the text in C and the type, or the first thing that is wrong
with the expression. Types are inferred from the leaves and compared where two values
meet; the arguments of a call are counted and not compared. Parentheses are written
exactly where C would group the operands in another way. -/
namespace LittleC

/-- The text of an expression in C, and its type. -/
structure Lowered where
  code : String
  type : Ty
  deriving DecidableEq, Repr

namespace Expr

/-- An operand in its place: in parentheses if it is an assignment, or an operation that
binds too loosely there. -/
def operandCode (loose : Nat → Bool) (operand : Expr) (code : String) : String :=
  match operand with
  | binary op _ _ => if loose op.precedence then "(" ++ code ++ ")" else code
  | assign _ _ => "(" ++ code ++ ")"
  | _ => code

/-- An operation on two lowered operands, whose types have to be compatible. -/
def combine (op : BinaryOp) (left right : Expr) (l r : Lowered) : Except Error Lowered :=
  if l.type.compatible r.type then
    .ok
      { code :=
          operandCode (· < op.precedence) left l.code ++ " " ++ op.symbol ++ " " ++
            operandCode (· ≤ op.precedence) right r.code
        type := if op.isComparison then .bool else l.type.unify r.type }
  else
    .error (.unlocated (.typeMismatch ("`" ++ op.symbol ++ "` operands") l.type.name r.type.name))

/-- A call with lowered arguments, as many as the function has parameters. -/
def apply (callee : String) (signature : Signature) (args : List Lowered) : Except Error Lowered :=
  match args[signature.params.length]?, signature.params[args.length]? with
  | some extra, _ => .error (.unlocated (.extraArgument callee extra.code))
  | none, some param => .error (.unlocated (.missingArgument callee param.name))
  | none, none =>
    .ok ⟨callee ++ "(" ++ Layout.commaList (args.map Lowered.code) ++ ")", signature.result⟩

/-- An assignment of a lowered value, whose type has to be compatible with the target's. -/
def store (target : String) (type : Ty) (value : Lowered) : Except Error Lowered :=
  if value.type.compatible type then .ok ⟨target ++ " = " ++ value.code, type⟩
  else
    .error (.unlocated (.typeMismatch ("assignment to `" ++ target ++ "`") type.name value.type.name))

/-- The comment that stands for a node that could not be read. -/
def marker (node : Json) : String :=
  "/* UNK: " ++ node.compact ++ " */"

mutual
/-- The text and the type of an expression. Parts are lowered from left to right. -/
def lower (scope : Scope) : Expr → Except Error Lowered
  | binary op left right => do
    let l ← lower scope left
    let r ← lower scope right
    combine op left right l r
  | symbol name =>
    match scope.lookup name with
    | some s => .ok ⟨name, s.type⟩
    | none => .error (.unlocated (.undefinedSymbol name))
  | float text => .ok ⟨text, .f32⟩
  | double text => .ok ⟨text, .f64⟩
  | integer text => .ok ⟨text, .i32⟩
  | string text => .ok ⟨"\"" ++ text ++ "\"", .string⟩
  | boolean b => .ok ⟨if b then "true" else "false", .bool⟩
  | call callee arguments =>
    match scope.function? callee with
    | some signature => do
      let args ← lowerAll scope arguments
      apply callee signature args
    | none => .error (.unlocated (.undefinedFunction callee))
  | assign target value =>
    match scope.assignable? target with
    | some type => do
      let v ← lower scope value
      store target type v
    | none => .error (.unlocated (.undefinedSymbol target))
  | raw text => .ok ⟨text, .any⟩
  | unrecognized node => .ok ⟨marker node, .unknown⟩

def lowerAll (scope : Scope) : List Expr → Except Error (List Lowered)
  | [] => .ok []
  | e :: rest => do
    let first ← lower scope e
    let others ← lowerAll scope rest
    return first :: others
end

end Expr
end LittleC
