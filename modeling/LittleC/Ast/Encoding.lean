import LittleC.Ast.Stmt

/-! The JSON form of trees. A node is an object with one member, whose key is the tag
of its kind; literals are written as strings, and an unrecognized node as it was
found. -/
namespace LittleC

namespace Expr

/-- The kinds of expression nodes. -/
inductive Tag where
  | binary (op : BinaryOp)
  | symbol
  | float
  | double
  | integer
  | string
  | boolean
  | call
  | assign
  | raw
  deriving DecidableEq, Repr

namespace Tag

def key : Tag → String
  | binary op => op.tag
  | symbol => "id"
  | float => "float"
  | double => "double"
  | integer => "integer"
  | string => "string"
  | boolean => "boolean"
  | call => "call"
  | assign => "assign"
  | raw => "passThrough"

/-- The tags by rank: of several in one node the first counts. -/
def all : List Tag :=
  BinaryOp.all.map binary ++ [symbol, float, double, integer, string, boolean, call, assign, raw]

end Tag

/-- A node with its tag and content. -/
def node (tag : Tag) (content : Json) : Json :=
  .object [(tag.key, content)]

mutual
def toJson : Expr → Json
  | binary op l r => node (.binary op) (.array [toJson l, toJson r])
  | symbol name => node .symbol (.string name)
  | float text => node .float (.string text)
  | double text => node .double (.string text)
  | integer text => node .integer (.string text)
  | string text => node .string (.string text)
  | boolean b => node .boolean (.bool b)
  | call f args => node .call (.object [("args", .array (toJsonAll args)), ("id", .string f)])
  | assign x v => node .assign (.object [("name", .string x), ("value", toJson v)])
  | raw text => node .raw (.string text)
  | unrecognized j => j

def toJsonAll : List Expr → List Json
  | [] => []
  | e :: rest => toJson e :: toJsonAll rest
end

theorem toJsonAll_eq_map (es : List Expr) : toJsonAll es = es.map toJson := by
  induction es with
  | nil => rfl
  | cons e rest ih => simp [toJsonAll, ih]

end Expr

namespace Stmt

/-- The kinds of statement nodes. A declaration has two tags. -/
inductive Tag where
  | function
  | conditional
  | loop
  | ret
  | declareVar
  | declareLet
  | call
  | assign
  | raw
  deriving DecidableEq, Repr

namespace Tag

def key : Tag → String
  | function => "function"
  | conditional => "if"
  | loop => "for"
  | ret => "return"
  | declareVar => "var"
  | declareLet => "let"
  | call => "call"
  | assign => "assign"
  | raw => "passThrough"

/-- The tags by rank: of several in one node the first counts. -/
def all : List Tag :=
  [function, conditional, loop, ret, declareVar, declareLet, call, assign, raw]

end Tag

def node (tag : Tag) (content : Json) : Json :=
  .object [(tag.key, content)]

def paramToJson (p : Param) : Json :=
  .object [("name", .string p.name), ("type", .string p.type.name)]

/-- The members of a function other than its body. -/
def signatureMembers (name : String) (s : Signature) : List (String × Json) :=
  [("name", .string name), ("parameters", .array (s.params.map paramToJson)),
   ("type", .string s.result.name)]

mutual
def toJson : Stmt → Json
  | prototype name s => node .function (.object (signatureMembers name s))
  | function name s body =>
    node .function (.object (("body", .array (toJsonAll body)) :: signatureMembers name s))
  | conditional c body none =>
    node .conditional (.object [("body", .array (toJsonAll body)), ("condition", c.toJson)])
  | conditional c body (some otherwise) =>
    node .conditional (.object [("body", .array (toJsonAll body)), ("condition", c.toJson),
      ("elseBody", .array (toJsonAll otherwise))])
  | loop initial c step body =>
    node .loop (.object [("body", .array (toJsonAll body)), ("condition", c.toJson),
      ("initialStatement", toJson initial), ("recurringExpression", step.toJson)])
  | ret none => node .ret .null
  | ret (some v) => node .ret v.toJson
  | declare x v => node .declareVar (.object [("name", .string x), ("value", v.toJson)])
  | call f args =>
    node .call (.object [("args", .array (args.map Expr.toJson)), ("id", .string f)])
  | assign x v => node .assign (.object [("name", .string x), ("value", v.toJson)])
  | raw text => node .raw (.string text)
  | unrecognized j => j

def toJsonAll : List Stmt → List Json
  | [] => []
  | s :: rest => toJson s :: toJsonAll rest
end

theorem toJsonAll_eq_map (ss : List Stmt) : toJsonAll ss = ss.map toJson := by
  induction ss with
  | nil => rfl
  | cons s rest ih => simp [toJsonAll, ih]

end Stmt

/-- The tree of a program: the array of its statements. -/
def Program.toJson (p : Program) : Json :=
  .array (p.map Stmt.toJson)

end LittleC
