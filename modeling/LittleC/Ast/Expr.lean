import LittleC.Ast.Operator
import LittleC.Json.Basic

/-! Expressions. Literals keep the text they were written with. `raw` is text for C
that the language does not look into, and `unrecognized` a piece of a tree that has
no meaning here, kept so that it can be shown. -/
namespace LittleC

inductive Expr where
  | binary (op : BinaryOp) (left right : Expr)
  | symbol (name : String)
  | float (text : String)
  | double (text : String)
  | integer (text : String)
  | string (text : String)
  | boolean (value : Bool)
  | call (callee : String) (arguments : List Expr)
  | assign (target : String) (value : Expr)
  | raw (text : String)
  | unrecognized (node : Json)

namespace Expr

/-- The literal of an integer. -/
def ofInt (n : Int) : Expr :=
  integer (toString n)

/-! ### Equality -/

mutual
def same : Expr → Expr → Bool
  | binary op l r, binary op' l' r' => op == op' && same l l' && same r r'
  | symbol a, symbol b => a == b
  | float a, float b => a == b
  | double a, double b => a == b
  | integer a, integer b => a == b
  | string a, string b => a == b
  | boolean a, boolean b => a == b
  | call f as, call g bs => f == g && sameAll as bs
  | assign x a, assign y b => x == y && same a b
  | raw a, raw b => a == b
  | unrecognized a, unrecognized b => a == b
  | _, _ => false

def sameAll : List Expr → List Expr → Bool
  | [], [] => true
  | a :: as, b :: bs => same a b && sameAll as bs
  | _, _ => false
end

mutual
theorem eq_of_same : (a b : Expr) → same a b = true → a = b
  | binary op l r, b, h => by
    cases b <;> simp_all [same]
    exact ⟨eq_of_same l _ h.1.2, eq_of_same r _ h.2⟩
  | symbol _, b, h => by cases b <;> simp_all [same]
  | float _, b, h => by cases b <;> simp_all [same]
  | double _, b, h => by cases b <;> simp_all [same]
  | integer _, b, h => by cases b <;> simp_all [same]
  | string _, b, h => by cases b <;> simp_all [same]
  | boolean _, b, h => by cases b <;> simp_all [same]
  | call f as, b, h => by
    cases b <;> simp_all [same]
    exact eq_of_sameAll as _ h.2
  | assign x a, b, h => by
    cases b <;> simp_all [same]
    exact eq_of_same a _ h.2
  | raw _, b, h => by cases b <;> simp_all [same]
  | unrecognized _, b, h => by cases b <;> simp_all [same]

theorem eq_of_sameAll : (as bs : List Expr) → sameAll as bs = true → as = bs
  | [], bs, h => by cases bs <;> simp_all [sameAll]
  | a :: as, [], h => by simp [sameAll] at h
  | a :: as, b :: bs, h => by
    simp only [sameAll, Bool.and_eq_true] at h
    rw [eq_of_same a b h.1, eq_of_sameAll as bs h.2]
end

mutual
theorem same_refl : (a : Expr) → same a a = true
  | binary op l r => by simp [same, same_refl l, same_refl r]
  | symbol _ => by simp [same]
  | float _ => by simp [same]
  | double _ => by simp [same]
  | integer _ => by simp [same]
  | string _ => by simp [same]
  | boolean _ => by simp [same]
  | call _ as => by simp [same, sameAll_refl as]
  | assign _ a => by simp [same, same_refl a]
  | raw _ => by simp [same]
  | unrecognized _ => by simp [same]

theorem sameAll_refl : (as : List Expr) → sameAll as as = true
  | [] => rfl
  | a :: as => by rw [sameAll, same_refl a, sameAll_refl as]; rfl
end

theorem same_iff (a b : Expr) : same a b = true ↔ a = b :=
  ⟨eq_of_same a b, fun h => h ▸ same_refl a⟩

instance : DecidableEq Expr :=
  fun a b => decidable_of_iff _ (same_iff a b)

end Expr
end LittleC
