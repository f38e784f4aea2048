import LittleC.Proofs.Nodes

/-! How the texts of expressions are grouped when they are read as source. In C the operator
`==` is looser than `<` and `>`, so a comparison by `<` on its right is written without
parentheses. In source texts the three chain from the left, and there `a == b < c` compares
`a` with `b` first.

`Expr.reread` is the expression with that grouping. `Expr.reread_eq_iff`: it is the expression
itself exactly where no `==` has `<` or `>` on its right. -/
namespace LittleC

/-- Whether the operator compares by order. -/
def BinaryOp.isOrdering : BinaryOp → Bool
  | lessThan | greaterThan => true
  | plus | minus | multiply | divide | equals => false

namespace Expr

/-- Whether the expression is a comparison by order. -/
def isOrdering : Expr → Bool
  | binary op _ _ => op.isOrdering
  | _ => false

/-- The expression behind `left ==`, if there is something on the left. -/
def join : Option Expr → Expr → Expr
  | none, e => e
  | some left, e => binary .equals left e

mutual
/-- How the text of an expression is grouped in source, behind `left ==` if there is something
on the left. A comparison by order lets it in: what is on the left is compared with the first
operand of the chain. -/
def reread (left : Option Expr) : Expr → Expr
  | binary op l r =>
    match op with
    | .equals => join left (reread (some (reread none l)) r)
    | .lessThan | .greaterThan => binary op (reread left l) (reread none r)
    | .plus | .minus | .multiply | .divide => join left (binary op (reread none l) (reread none r))
  | call callee arguments => join left (call callee (rereadAll arguments))
  | assign target value => join left (assign target (reread none value))
  | e => join left e

def rereadAll : List Expr → List Expr
  | [] => []
  | e :: rest => reread none e :: rereadAll rest
end

theorem reread_equals (left : Option Expr) (l r : Expr) :
    reread left (binary .equals l r) = join left (reread (some (reread none l)) r) := by
  rw [reread]

theorem reread_ordering {op : BinaryOp} (hop : op.isOrdering = true) (left : Option Expr)
    (l r : Expr) : reread left (binary op l r) = binary op (reread left l) (reread none r) := by
  cases op with
  | lessThan | greaterThan => rw [reread]
  | _ => cases hop

theorem reread_arithmetic {op : BinaryOp} (hop : op.isComparison = false) (left : Option Expr)
    (l r : Expr) :
    reread left (binary op l r) = join left (binary op (reread none l) (reread none r)) := by
  cases op with
  | equals | lessThan | greaterThan => cases hop
  | _ => rw [reread]

/-- An expression that is no comparison by order stays together on the right of `==`. -/
theorem reread_some {e : Expr} (he : e.isOrdering = false) (left : Expr) :
    reread (some left) e = binary .equals left (reread none e) := by
  cases e with
  | binary op l r =>
    cases op with
    | lessThan | greaterThan => cases he
    | _ => rw [reread, reread]; rfl
  | call _ _ | assign _ _ => rw [reread, reread]; rfl
  | _ => rfl

theorem isOrdering_reread {e : Expr} (he : e.isOrdering = true) (left : Option Expr) :
    (reread left e).isOrdering = true := by
  cases e with
  | binary op l r =>
    rw [reread_ordering he]
    exact he
  | _ => cases he

/-! ### Where the grouping is kept -/

/-- The node is `==` with a comparison by order on its right. -/
def IsMixed (e : Expr) : Prop :=
  ∃ l op x y, (op = .lessThan ∨ op = .greaterThan) ∧ e = binary .equals l (binary op x y)

theorem isMixed_equals {l r : Expr} : (binary .equals l r).IsMixed ↔ r.isOrdering = true := by
  constructor
  · rintro ⟨_, _, _, _, hop, h⟩
    cases h
    rcases hop with rfl | rfl
    · rfl
    · rfl
  · intro h
    cases r with
    | binary op x y =>
      cases op with
      | lessThan => exact ⟨l, _, x, y, .inl rfl, rfl⟩
      | greaterThan => exact ⟨l, _, x, y, .inr rfl, rfl⟩
      | _ => cases h
    | _ => cases h

theorem not_isMixed {e : Expr} (h : ∀ l r, e ≠ binary .equals l r) : ¬ e.IsMixed := by
  rintro ⟨l, op, x, y, _, he⟩
  exact h l _ he

/-- An operation that is grouped as its operands are. -/
theorem binary_eq_iff {op : BinaryOp} {l r l' r' : Expr} (hself : ¬ (binary op l r).IsMixed)
    (hl : l' = l ↔ ∀ n ∈ l.nodes, ¬ n.IsMixed) (hr : r' = r ↔ ∀ n ∈ r.nodes, ¬ n.IsMixed) :
    binary op l' r' = binary op l r ↔ ∀ n ∈ (binary op l r).nodes, ¬ n.IsMixed := by
  rw [nodes, List.forall_mem_cons, List.forall_mem_append, ← hl, ← hr]
  simp [hself]

mutual
theorem reread_eq_iff : (e : Expr) → (reread none e = e ↔ ∀ n ∈ e.nodes, ¬ n.IsMixed)
  | binary op l r => by
    have hl := reread_eq_iff l
    have hr := reread_eq_iff r
    cases op with
    | equals =>
      rw [reread_equals]
      by_cases hright : r.isOrdering = true
      · -- What is read is a comparison by order itself.
        have hroot := isOrdering_reread hright (some (reread none l))
        constructor
        · intro h
          rw [show reread (some (reread none l)) r = binary .equals l r from h] at hroot
          cases hroot
        · intro h
          exact absurd (isMixed_equals.mpr hright) (h _ (List.mem_cons_self ..))
      · rw [reread_some (by simpa using hright)]
        exact binary_eq_iff (fun h => hright (isMixed_equals.mp h)) hl hr
    | lessThan | greaterThan =>
      rw [reread_ordering rfl]
      exact binary_eq_iff (not_isMixed (by simp)) hl hr
    | plus | minus | multiply | divide =>
      rw [reread_arithmetic rfl]
      exact binary_eq_iff (not_isMixed (by simp)) hl hr
  | call callee arguments => by
    rw [reread, nodes, List.forall_mem_cons, ← rereadAll_eq_iff arguments]
    simp [join, not_isMixed]
  | assign target value => by
    rw [reread, nodes, List.forall_mem_cons, ← reread_eq_iff value]
    simp [join, not_isMixed]
  | symbol _ | float _ | double _ | integer _ | string _ | boolean _ | raw _ | unrecognized _ => by
    simp [reread, join, nodes, not_isMixed]

theorem rereadAll_eq_iff : (es : List Expr) →
    (rereadAll es = es ↔ ∀ n ∈ nodesAll es, ¬ n.IsMixed)
  | [] => by simp [rereadAll, nodesAll]
  | e :: rest => by
    rw [rereadAll, nodesAll, List.forall_mem_append, ← reread_eq_iff e, ← rereadAll_eq_iff rest,
      List.cons.injEq]
end

end Expr
end LittleC
