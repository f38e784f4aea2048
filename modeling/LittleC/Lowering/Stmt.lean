import LittleC.Lowering.Expr
import LittleC.Parse.Statement

/-! Lowering statements and programs. A statement gives its text and the scope of the
statements after it; a block gives the texts of its statements on lines of their own and
keeps its declarations to itself. A prototype has no text: it only declares. -/
namespace LittleC

/-- The text of a statement, and the scope after it. -/
structure LoweredStmt where
  code : String
  scope : Scope
  deriving DecidableEq, Repr

namespace Stmt

/-- A parameter list in C, which is never empty. -/
def paramList (params : List Param) : String :=
  if params.isEmpty then "void"
  else Layout.commaList (params.map fun p => p.type.spelling ++ " " ++ p.name)

/-- A function definition around the text of its body. -/
def functionCode (indent name : String) (signature : Signature) (body : String) : String :=
  indent ++ signature.result.spelling ++ " " ++ name ++ "(" ++ paramList signature.params ++ ")" ++
    Layout.braced indent body ++ "\n"

mutual
/-- The text of a statement at an indentation, and the scope after it. -/
def lower (scope : Scope) (indent : String) : Stmt → Except Error LoweredStmt
  | prototype name signature => .ok ⟨"", scope.bind name (.function signature)⟩
  | function name signature body => do
    let (codes, _) ← lowerAll (scope.enter name signature) (Layout.nested indent) body
    return ⟨functionCode indent name signature (Layout.joinLines codes),
      scope.bind name (.function signature)⟩
  | conditional condition body none => do
    let c ← condition.lower scope
    let (codes, _) ← lowerAll scope.push (Layout.nested indent) body
    return ⟨indent ++ "if(" ++ c.code ++ ")" ++ Layout.braced indent (Layout.joinLines codes), scope⟩
  | conditional condition body (some otherwise) => do
    let c ← condition.lower scope
    let (codes, _) ← lowerAll scope.push (Layout.nested indent) body
    let (codes', _) ← lowerAll scope.push (Layout.nested indent) otherwise
    return ⟨indent ++ "if(" ++ c.code ++ ")" ++ Layout.braced indent (Layout.joinLines codes) ++
      " else" ++ Layout.braced indent (Layout.joinLines codes'), scope⟩
  | loop initial condition step body => do
    let i ← lower scope.push "" initial
    let c ← condition.lower i.scope
    let s ← step.lower i.scope
    let (codes, _) ← lowerAll i.scope.push (Layout.nested indent) body
    return ⟨indent ++ "for(" ++ i.code ++ " " ++ c.code ++ "; " ++ s.code ++ ")" ++
      Layout.braced indent (Layout.joinLines codes), scope⟩
  | ret none => .ok ⟨indent ++ "return;", scope⟩
  | ret (some value) => do
    let v ← value.lower scope
    return ⟨indent ++ "return " ++ v.code ++ ";", scope⟩
  | declare name value => do
    let v ← value.lower scope
    return ⟨indent ++ v.type.spelling ++ " " ++ name ++ " = " ++ v.code ++ ";",
      scope.bind name (.value v.type)⟩
  | call callee arguments => do
    let v ← (Expr.call callee arguments).lower scope
    return ⟨indent ++ v.code ++ ";", scope⟩
  | assign target value => do
    let v ← (Expr.assign target value).lower scope
    return ⟨indent ++ v.code ++ ";", scope⟩
  | raw text => .ok ⟨indent ++ text ++ "\n", scope⟩
  | unrecognized node => .ok ⟨indent ++ "// UNK: " ++ node.compact, scope⟩

/-- The texts of statements one after the other, and the scope after the last. -/
def lowerAll (scope : Scope) (indent : String) : List Stmt → Except Error (List String × Scope)
  | [] => .ok ([], scope)
  | s :: rest => do
    let first ← lower scope indent s
    let (codes, last) ← lowerAll first.scope indent rest
    return (first.code :: codes, last)
end

/-- The text of a block at an indentation. -/
def lowerBlock (scope : Scope) (indent : String) (body : List Stmt) : Except Error String := do
  let (codes, _) ← lowerAll scope indent body
  return Layout.joinLines codes

end Stmt

/-- The text of a program in C. -/
def Program.lower (p : Program) : Except Error String :=
  Stmt.lowerBlock .root "" p

/-- The text in C of a source text. -/
def compileSource (source file : String) : Except Error String := do
  let p ← parseSource source file
  p.lower

end LittleC
