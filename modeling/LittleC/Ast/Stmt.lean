import LittleC.Ast.Expr
import LittleC.Ty

/-! Statements and programs. A function without a body is a prototype: it declares a
signature and leaves the definition to C. `blockDepth` is how deep the blocks of a
program nest. -/
namespace LittleC

structure Param where
  name : String
  type : Ty
  deriving DecidableEq, Repr

/-- What a call has to know about a function. -/
structure Signature where
  params : List Param
  result : Ty
  deriving DecidableEq, Repr

inductive Stmt where
  | prototype (name : String) (signature : Signature)
  | function (name : String) (signature : Signature) (body : List Stmt)
  | conditional (condition : Expr) (body : List Stmt) (otherwise : Option (List Stmt))
  | loop (initial : Stmt) (condition step : Expr) (body : List Stmt)
  | ret (value : Option Expr)
  | declare (name : String) (value : Expr)
  | call (callee : String) (arguments : List Expr)
  | assign (target : String) (value : Expr)
  | raw (text : String)
  | unrecognized (node : Json)

/-- The statements of a source text or a tree, in order. -/
abbrev Program := List Stmt

namespace Stmt

/-- A function with the body it has, if any. -/
def ofFunction (name : String) (signature : Signature) : Option (List Stmt) → Stmt
  | none => prototype name signature
  | some body => function name signature body

/-- The name of a statement's kind. -/
def kind : Stmt → String
  | prototype .. => "Prototype"
  | function .. => "Function"
  | conditional .. => "If"
  | loop .. => "For"
  | ret .. => "Return"
  | declare .. => "VarDecl"
  | call .. => "Call"
  | assign .. => "Assignment"
  | raw .. => "PassThrough"
  | unrecognized .. => "Unrecognized"

/-! ### Nesting -/

mutual
/-- How many blocks stand inside one another in a statement. The initial statement
of a loop does not count. -/
def depth : Stmt → Nat
  | function _ _ body => 1 + blockDepth body
  | conditional _ body none => 1 + blockDepth body
  | conditional _ body (some otherwise) => 1 + max (blockDepth body) (blockDepth otherwise)
  | loop _ _ _ body => 1 + blockDepth body
  | prototype .. | ret .. | declare .. | call .. | assign .. | raw .. | unrecognized .. => 0

/-- The depth of the deepest statement of a block. -/
def blockDepth : List Stmt → Nat
  | [] => 0
  | s :: rest => max (depth s) (blockDepth rest)
end

/-! ### Equality -/

mutual
def same : Stmt → Stmt → Bool
  | prototype f s, prototype g t => f == g && s == t
  | function f s as, function g t bs => f == g && s == t && sameAll as bs
  | conditional c as e, conditional d bs f => c == d && sameAll as bs && sameElse e f
  | loop i c e as, loop j d f bs => same i j && c == d && e == f && sameAll as bs
  | ret a, ret b => a == b
  | declare x a, declare y b => x == y && a == b
  | call f as, call g bs => f == g && as == bs
  | assign x a, assign y b => x == y && a == b
  | raw a, raw b => a == b
  | unrecognized a, unrecognized b => a == b
  | _, _ => false

def sameAll : List Stmt → List Stmt → Bool
  | [], [] => true
  | a :: as, b :: bs => same a b && sameAll as bs
  | _, _ => false

def sameElse : Option (List Stmt) → Option (List Stmt) → Bool
  | none, none => true
  | some as, some bs => sameAll as bs
  | _, _ => false
end

mutual
theorem eq_of_same : (a b : Stmt) → same a b = true → a = b
  | prototype .., b, h => by cases b <;> simp_all [same]
  | function _ _ as, b, h => by
    cases b <;> simp_all [same]
    exact eq_of_sameAll as _ h.2
  | conditional _ as e, b, h => by
    cases b <;> simp_all [same]
    exact ⟨eq_of_sameAll as _ h.1.2, eq_of_sameElse e _ h.2⟩
  | loop i _ _ as, b, h => by
    cases b <;> simp_all [same]
    exact ⟨eq_of_same i _ h.1.1.1, eq_of_sameAll as _ h.2⟩
  | ret _, b, h => by cases b <;> simp_all [same]
  | declare .., b, h => by cases b <;> simp_all [same]
  | call .., b, h => by cases b <;> simp_all [same]
  | assign .., b, h => by cases b <;> simp_all [same]
  | raw _, b, h => by cases b <;> simp_all [same]
  | unrecognized _, b, h => by cases b <;> simp_all [same]

theorem eq_of_sameAll : (as bs : List Stmt) → sameAll as bs = true → as = bs
  | [], bs, h => by cases bs <;> simp_all [sameAll]
  | a :: as, [], h => by simp [sameAll] at h
  | a :: as, b :: bs, h => by
    simp only [sameAll, Bool.and_eq_true] at h
    rw [eq_of_same a b h.1, eq_of_sameAll as bs h.2]

theorem eq_of_sameElse : (a b : Option (List Stmt)) → sameElse a b = true → a = b
  | none, b, h => by cases b <;> simp_all [sameElse]
  | some as, none, h => by simp [sameElse] at h
  | some as, some bs, h => by rw [eq_of_sameAll as bs h]
end

mutual
theorem same_refl : (a : Stmt) → same a a = true
  | prototype .. => by simp [same]
  | function _ _ as => by simp [same, sameAll_refl as]
  | conditional _ as e => by simp [same, sameAll_refl as, sameElse_refl e]
  | loop i _ _ as => by simp [same, same_refl i, sameAll_refl as]
  | ret _ => by simp [same]
  | declare .. => by simp [same]
  | call .. => by simp [same]
  | assign .. => by simp [same]
  | raw _ => by simp [same]
  | unrecognized _ => by simp [same]

theorem sameAll_refl : (as : List Stmt) → sameAll as as = true
  | [] => rfl
  | a :: as => by rw [sameAll, same_refl a, sameAll_refl as]; rfl

theorem sameElse_refl : (a : Option (List Stmt)) → sameElse a a = true
  | none => rfl
  | some as => sameAll_refl as
end

theorem same_iff (a b : Stmt) : same a b = true ↔ a = b :=
  ⟨eq_of_same a b, fun h => h ▸ same_refl a⟩

instance : DecidableEq Stmt :=
  fun a b => decidable_of_iff _ (same_iff a b)

end Stmt

/-- How deep the blocks of a program nest. -/
def Program.depth (p : Program) : Nat :=
  Stmt.blockDepth p

end LittleC
