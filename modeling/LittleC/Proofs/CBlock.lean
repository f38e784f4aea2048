import LittleC.Lowering.Stmt
import LittleC.Proofs.Environment
import LittleC.Proofs.ExprText

/-! Statements of C and what the names in them denote. An `Item` is a statement as the
emitted text has it, and `Item.text` is that text. Every declaration carries a number, its
site, which the text does not show.

`Item.denotations` is C's block scoping: a name is in scope from the end of its own
declarator, and so inside its own initializer, up to the end of its block; parameters are
in scope in the whole body, and what the first part of a loop declares in the whole loop.
A variable whose type C cannot spell is written without one, and that is no declaration:
C reads an assignment there. Raw text and comments are not looked into. -/
namespace LittleC

/-- Whether C has a word for the type. -/
def Ty.isSpelled (t : Ty) : Bool :=
  t ≠ .any && t ≠ .unknown

namespace Expr

mutual
/-- The names in an expression, in the order of its text. -/
def names : Expr → List String
  | binary _ left right => names left ++ names right
  | symbol name => [name]
  | call callee arguments => callee :: namesAll arguments
  | assign target value => target :: names value
  | float _ | double _ | integer _ | string _ | boolean _ | raw _ | unrecognized _ => []

def namesAll : List Expr → List String
  | [] => []
  | e :: rest => names e ++ namesAll rest
end

end Expr

namespace C

/-- The number of a declaration. -/
abbrev Site := Nat

/-- A statement of C. -/
inductive Item where
  /-- Nothing is written. -/
  | absent
  | function (site : Site) (name : String) (result : Ty) (params : List (Param × Site))
      (body : List Item)
  | conditional (condition : Expr) (body : List Item) (otherwise : Option (List Item))
  | loop (initial : Item) (condition step : Expr) (body : List Item)
  | ret (value : Option Expr)
  | declare (site : Site) (type : Ty) (name : String) (value : Expr)
  | effect (e : Expr)
  | verbatim (text : String)

namespace Item

/-! ### The text -/

mutual
/-- How a statement is written at an indentation. -/
def text (indent : String) : Item → String
  | absent => ""
  | function _ name result params body =>
    Stmt.functionCode indent name ⟨params.map Prod.fst, result⟩
      (Layout.joinLines (textAll (Layout.nested indent) body))
  | conditional condition body none =>
    indent ++ "if(" ++ condition.text ++ ")" ++
      Layout.braced indent (Layout.joinLines (textAll (Layout.nested indent) body))
  | conditional condition body (some otherwise) =>
    indent ++ "if(" ++ condition.text ++ ")" ++
      Layout.braced indent (Layout.joinLines (textAll (Layout.nested indent) body)) ++ " else" ++
      Layout.braced indent (Layout.joinLines (textAll (Layout.nested indent) otherwise))
  | loop initial condition step body =>
    indent ++ "for(" ++ text "" initial ++ " " ++ condition.text ++ "; " ++ step.text ++ ")" ++
      Layout.braced indent (Layout.joinLines (textAll (Layout.nested indent) body))
  | ret none => indent ++ "return;"
  | ret (some value) => indent ++ "return " ++ value.text ++ ";"
  | declare _ type name value =>
    indent ++ type.spelling ++ " " ++ name ++ " = " ++ value.text ++ ";"
  | effect e => indent ++ e.text ++ ";"
  | verbatim t => indent ++ t

def textAll (indent : String) : List Item → List String
  | [] => []
  | i :: rest => text indent i :: textAll indent rest
end

/-! ### Block scoping -/

/-- What is in scope after a statement in the same block. -/
def after (B : Names Site) : Item → Names Site
  | function site name _ _ _ => B.add name site
  | declare site type name _ => if type.isSpelled then B.add name site else B
  | _ => B

theorem after_declare {type : Ty} (h : type.isSpelled = true) (B : Names Site) (site : Site)
    (name : String) (value : Expr) : after B (declare site type name value) = B.add name site :=
  if_pos h

/-- What is written without a type declares nothing. -/
theorem after_declare_unspelled {type : Ty} (h : ¬ type.isSpelled = true) (B : Names Site)
    (site : Site) (name : String) (value : Expr) : after B (declare site type name value) = B :=
  if_neg h

/-- What each name in an expression denotes. -/
def mentions (B : Names Site) (e : Expr) : List (String × Option Site) :=
  e.names.map fun name => (name, B name)

/-- What is in scope in the body of a function: the function and its parameters. -/
def inBody (B : Names Site) (site : Site) (name : String) (params : List (Param × Site)) :
    Names Site :=
  (B.add name site).addAll (params.map fun p => (p.1.name, p.2))

mutual
/-- What each name in the expressions of a statement denotes, in the order of the text. -/
def denotations (B : Names Site) : Item → List (String × Option Site)
  | absent => []
  | function site name _ params body => denotationsAll (inBody B site name params) body
  | conditional condition body none => mentions B condition ++ denotationsAll B body
  | conditional condition body (some otherwise) =>
    mentions B condition ++ (denotationsAll B body ++ denotationsAll B otherwise)
  | loop initial condition step body =>
    denotations B initial ++ (mentions (after B initial) condition ++
      (mentions (after B initial) step ++ denotationsAll (after B initial) body))
  | ret none => []
  | ret (some value) => mentions B value
  -- The declarator ends before the initializer begins.
  | declare site type name value => mentions (after B (declare site type name value)) value
  | effect e => mentions B e
  | verbatim _ => []

def denotationsAll (B : Names Site) : List Item → List (String × Option Site)
  | [] => []
  | i :: rest => denotations B i ++ denotationsAll (after B i) rest
end

end Item
end C
end LittleC
