import LittleC.Assoc
import LittleC.Json.Double

/-! JSON values. An object is a list of members in key order with one member for
each key, so that two objects with the same members are the same value. Numbers
written without fraction and exponent stay whole as long as 64 bits hold them. -/
namespace LittleC

namespace Json

inductive Number where
  | whole (value : Int)
  | double (value : Double)
  deriving DecidableEq, Repr

def Number.text : Number → String
  | whole n => toString n
  | double x => x.text

end Json

inductive Json where
  | null
  | bool (value : Bool)
  | number (value : Json.Number)
  | string (value : String)
  | array (elements : List Json)
  | object (members : List (String × Json))

namespace Json

/-! ### Equality -/

mutual
def same : Json → Json → Bool
  | null, null => true
  | bool a, bool b => a == b
  | number a, number b => a == b
  | string a, string b => a == b
  | array as, array bs => sameAll as bs
  | object as, object bs => sameMembers as bs
  | _, _ => false

def sameAll : List Json → List Json → Bool
  | [], [] => true
  | a :: as, b :: bs => same a b && sameAll as bs
  | _, _ => false

def sameMembers : List (String × Json) → List (String × Json) → Bool
  | [], [] => true
  | (k, a) :: as, (l, b) :: bs => k == l && same a b && sameMembers as bs
  | _, _ => false
end

mutual
theorem eq_of_same : (a b : Json) → same a b = true → a = b
  | null, b, h => by cases b <;> simp_all [same]
  | bool _, b, h => by cases b <;> simp_all [same]
  | number _, b, h => by cases b <;> simp_all [same]
  | string _, b, h => by cases b <;> simp_all [same]
  | array as, b, h => by
    cases b <;> simp_all [same]
    exact eq_of_sameAll as _ h
  | object as, b, h => by
    cases b <;> simp_all [same]
    exact eq_of_sameMembers as _ h

theorem eq_of_sameAll : (as bs : List Json) → sameAll as bs = true → as = bs
  | [], bs, h => by cases bs <;> simp_all [sameAll]
  | a :: as, [], h => by simp [sameAll] at h
  | a :: as, b :: bs, h => by
    simp only [sameAll, Bool.and_eq_true] at h
    rw [eq_of_same a b h.1, eq_of_sameAll as bs h.2]

theorem eq_of_sameMembers : (as bs : List (String × Json)) → sameMembers as bs = true → as = bs
  | [], bs, h => by cases bs <;> simp_all [sameMembers]
  | a :: as, [], h => by simp [sameMembers] at h
  | (k, a) :: as, (l, b) :: bs, h => by
    simp only [sameMembers, Bool.and_eq_true, beq_iff_eq] at h
    rw [h.1.1, eq_of_same a b h.1.2, eq_of_sameMembers as bs h.2]
end

mutual
theorem same_refl : (a : Json) → same a a = true
  | null => rfl
  | bool _ => by simp [same]
  | number _ => by simp [same]
  | string _ => by simp [same]
  | array as => by rw [same, sameAll_refl as]
  | object as => by rw [same, sameMembers_refl as]

theorem sameAll_refl : (as : List Json) → sameAll as as = true
  | [] => rfl
  | a :: as => by rw [sameAll, same_refl a, sameAll_refl as]; rfl

theorem sameMembers_refl : (as : List (String × Json)) → sameMembers as as = true
  | [] => rfl
  | (k, a) :: as => by simp [sameMembers, same_refl a, sameMembers_refl as]
end

theorem same_iff (a b : Json) : same a b = true ↔ a = b :=
  ⟨eq_of_same a b, fun h => h ▸ same_refl a⟩

instance : DecidableEq Json :=
  fun a b => decidable_of_iff _ (same_iff a b)

/-! ### Members -/

/-- The member of an object by its key. -/
def get? (key : String) : Json → Option Json
  | object members => members.lookup key
  | _ => none

theorem sizeOf_lookup_lt {key : String} {v : Json} :
    {members : List (String × Json)} → members.lookup key = some v → sizeOf v < sizeOf members
  | [], h => by simp at h
  | (k, w) :: rest, h => by
    rw [List.lookup_cons] at h
    split at h
    · cases h
      simp only [List.cons.sizeOf_spec, Prod.mk.sizeOf_spec]
      omega
    · have := sizeOf_lookup_lt h
      simp only [List.cons.sizeOf_spec]
      omega

/-- A member is smaller than its object. -/
theorem sizeOf_get?_lt {key : String} {j v : Json} (h : j.get? key = some v) :
    sizeOf v < sizeOf j := by
  cases j <;> simp [get?] at h
  have := sizeOf_lookup_lt h
  simp only [object.sizeOf_spec]
  omega

end Json
end LittleC
