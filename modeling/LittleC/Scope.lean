import LittleC.Assoc
import LittleC.Ast.Stmt

/-! Scopes: a chain of frames, the innermost first. A name means what the nearest frame
that has it says. Scopes are values: to bind a name or to open a frame gives a new scope
and leaves the old one as it was. -/
namespace LittleC

/-- What a name stands for. -/
inductive Symbol where
  | value (type : Ty)
  | function (signature : Signature)
  deriving DecidableEq, Repr

/-- The type of the name as an expression: for a function, that of its result. -/
def Symbol.type : Symbol → Ty
  | value t => t
  | function s => s.result

/-- The names declared in one block, in order, each once. -/
abbrev Frame := List (String × Symbol)

structure Scope where
  head : Frame
  outer : List Frame
  deriving DecidableEq, Repr

namespace Scope

/-- One empty frame. -/
def root : Scope := ⟨[], []⟩

def frames (s : Scope) : List Frame :=
  s.head :: s.outer

def depth (s : Scope) : Nat :=
  s.frames.length

/-- What the nearest frame with the name says. -/
def lookup (s : Scope) (name : String) : Option Symbol :=
  s.frames.findSome? (List.lookup name)

/-- The signature of a function to be called. A nearer variable hides it. -/
def function? (s : Scope) (name : String) : Option Signature :=
  match s.lookup name with
  | some (.function signature) => some signature
  | _ => none

/-- The type of a variable to be assigned to. A nearer function hides it. -/
def assignable? (s : Scope) (name : String) : Option Ty :=
  match s.lookup name with
  | some (.value t) => some t
  | _ => none

/-- Declares a name in the innermost frame, over an earlier declaration there. -/
def bind (s : Scope) (name : String) (symbol : Symbol) : Scope :=
  ⟨Assoc.insert name symbol s.head, s.outer⟩

/-- Opens a frame with these declarations, the later of two for one name counting. -/
def pushFrame (s : Scope) (declarations : List (String × Symbol)) : Scope :=
  ⟨Assoc.ofPairs declarations, s.frames⟩

/-- Opens an empty frame. -/
def push (s : Scope) : Scope :=
  s.pushFrame []

/-- The scope of a function's body: the function itself and its parameters, which come
later and may hide it. -/
def enter (s : Scope) (name : String) (signature : Signature) : Scope :=
  s.pushFrame ((name, .function signature) ::
    signature.params.map fun p => (p.name, .value p.type))

theorem lookup_eq_or (s : Scope) (name : String) :
    s.lookup name = (s.head.lookup name).or (s.outer.findSome? (List.lookup name)) := by
  simp only [lookup, frames, List.findSome?_cons]
  cases s.head.lookup name <;> rfl

@[simp] theorem lookup_root (name : String) : root.lookup name = none := rfl

@[simp] theorem lookup_push (s : Scope) (name : String) : s.push.lookup name = s.lookup name := rfl

theorem lookup_bind (s : Scope) (name other : String) (symbol : Symbol) :
    (s.bind name symbol).lookup other = if other = name then some symbol else s.lookup other := by
  simp only [lookup_eq_or, bind, Assoc.lookup_insert]
  split <;> simp

end Scope
end LittleC
