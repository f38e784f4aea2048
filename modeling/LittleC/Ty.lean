/-! The types of the language. Six have a name that a program can write. `any` is
the type of text passed through untouched, which fits every place, and `unknown`
that of a node nobody could read, which fits none. -/
namespace LittleC

inductive Ty where
  | f32
  | f64
  | i32
  | string
  | bool
  | void
  | any
  | unknown
  deriving DecidableEq, Repr

namespace Ty

def all : List Ty :=
  [f32, f64, i32, string, bool, void, any, unknown]

/-- The name of a type in programs and messages. -/
def name : Ty → String
  | f32 => "F32"
  | f64 => "F64"
  | i32 => "I32"
  | string => "String"
  | bool => "Bool"
  | void => "Void"
  | any => "Any"
  | unknown => "UNK"

/-- The type that a program writes by this name. `any` and `unknown` cannot be
written. -/
def ofName? (s : String) : Option Ty :=
  if s = "F32" then some f32
  else if s = "F64" then some f64
  else if s = "I32" then some i32
  else if s = "String" then some string
  else if s = "Bool" then some bool
  else if s = "Void" then some void
  else none

/-- How C spells a type. The two without a spelling become a marker comment. -/
def spelling : Ty → String
  | f32 => "float"
  | f64 => "double"
  | i32 => "int"
  | string => "char*"
  | bool => "int"
  | void => "void"
  | any | unknown => "/* UNK type */"

/-- Whether values of the two types may meet in an operation. Compatibility is
symmetric and not transitive: `any` meets every known type, `unknown` not even
itself. -/
def compatible (a b : Ty) : Bool :=
  if a = unknown ∨ b = unknown then false
  else if a = any ∨ b = any then true
  else decide (a = b)

/-- The type of the result where two compatible types meet: the one that says more. -/
def unify (a b : Ty) : Ty :=
  if a = any then b else a

theorem ofName?_name (t : Ty) :
    ofName? t.name = if t = any ∨ t = unknown then none else some t := by
  cases t <;> decide

theorem compatible_comm (a b : Ty) : compatible a b = compatible b a := by
  cases a <;> cases b <;> rfl

end Ty
end LittleC
