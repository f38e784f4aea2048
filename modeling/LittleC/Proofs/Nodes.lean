import LittleC.Ast.Stmt

/-! The nodes of a tree. A program has statements at any depth, each with expressions and
types of its own, and these expressions have expressions inside them. What is asked of
every node of a program is asked of the members of `Program.stmts`, `Program.exprs` and
`Program.types`. -/
namespace LittleC

namespace Expr

mutual
/-- The expression and all inside it. -/
def nodes : Expr → List Expr
  | binary op left right => binary op left right :: (nodes left ++ nodes right)
  | call callee arguments => call callee arguments :: nodesAll arguments
  | assign target value => assign target value :: nodes value
  | e => [e]

def nodesAll : List Expr → List Expr
  | [] => []
  | e :: rest => nodes e ++ nodesAll rest
end

theorem self_mem_nodes (e : Expr) : e ∈ e.nodes := by
  cases e <;> exact List.mem_cons_self ..

theorem nodesAll_eq_flatMap (es : List Expr) : nodesAll es = es.flatMap nodes := by
  induction es with
  | nil => rfl
  | cons e rest ih => rw [nodesAll, ih, List.flatMap_cons]

/-! What holds of every unrecognized node, by the parts of an expression. -/

section
variable {P : Json → Prop}

theorem unrecognized_binary {op : BinaryOp} {l r : Expr} :
    (∀ j, unrecognized j ∈ (binary op l r).nodes → P j) ↔
      (∀ j, unrecognized j ∈ l.nodes → P j) ∧ ∀ j, unrecognized j ∈ r.nodes → P j := by
  simp [nodes, or_imp, forall_and]

theorem unrecognized_call {f : String} {args : List Expr} :
    (∀ j, unrecognized j ∈ (call f args).nodes → P j) ↔
      ∀ a ∈ args, ∀ j, unrecognized j ∈ a.nodes → P j := by
  simp only [nodes, nodesAll_eq_flatMap, List.mem_cons, List.mem_flatMap, reduceCtorEq, false_or]
  constructor
  · intro h a ha j hj
    exact h j ⟨a, ha, hj⟩
  · intro h j hj
    obtain ⟨a, ha, hj⟩ := hj
    exact h a ha j hj

theorem unrecognized_assign {x : String} {v : Expr} :
    (∀ j, unrecognized j ∈ (assign x v).nodes → P j) ↔ ∀ j, unrecognized j ∈ v.nodes → P j := by
  simp [nodes]

/-- An expression without parts that was recognized has no such node. -/
theorem unrecognized_leaf {e : Expr} (hnodes : e.nodes = [e]) (h : ∀ j, unrecognized j ≠ e) :
    ∀ j, unrecognized j ∈ e.nodes → P j := by
  intro j hj
  rw [hnodes, List.mem_singleton] at hj
  exact absurd hj (h j)

end

end Expr

/-- The types that a signature names. -/
def Signature.types (s : Signature) : List Ty :=
  s.result :: s.params.map Param.type

namespace Stmt

mutual
/-- The statement and all inside it. -/
def nodes : Stmt → List Stmt
  | function name signature body => function name signature body :: nodesAll body
  | conditional condition body none => conditional condition body none :: nodesAll body
  | conditional condition body (some otherwise) =>
    conditional condition body (some otherwise) :: (nodesAll body ++ nodesAll otherwise)
  | loop initial condition step body =>
    loop initial condition step body :: (nodes initial ++ nodesAll body)
  | s => [s]

def nodesAll : List Stmt → List Stmt
  | [] => []
  | s :: rest => nodes s ++ nodesAll rest
end

theorem self_mem_nodes (s : Stmt) : s ∈ s.nodes := by
  cases s with
  | conditional condition body otherwise => cases otherwise <;> exact List.mem_cons_self ..
  | _ => exact List.mem_cons_self ..

theorem nodesAll_eq_flatMap (ss : List Stmt) : nodesAll ss = ss.flatMap nodes := by
  induction ss with
  | nil => rfl
  | cons s rest ih => rw [nodesAll, ih, List.flatMap_cons]

/-! What holds of every node, by the parts of a statement. -/

section
variable {P : Stmt → Prop}

theorem forall_nodesAll {ss : List Stmt} :
    (∀ t ∈ nodesAll ss, P t) ↔ ∀ s ∈ ss, ∀ t ∈ s.nodes, P t := by
  simp only [nodesAll_eq_flatMap, List.mem_flatMap]
  constructor
  · intro h s hs t ht
    exact h t ⟨s, hs, ht⟩
  · intro h t ht
    obtain ⟨s, hs, ht⟩ := ht
    exact h s hs t ht

theorem forall_nodes_function {name : String} {s : Signature} {body : List Stmt} :
    (∀ t ∈ (function name s body).nodes, P t) ↔
      P (function name s body) ∧ ∀ b ∈ body, ∀ t ∈ b.nodes, P t := by
  rw [nodes, List.forall_mem_cons, forall_nodesAll]

theorem forall_nodes_conditional {c : Expr} {body : List Stmt} {otherwise : Option (List Stmt)} :
    (∀ t ∈ (conditional c body otherwise).nodes, P t) ↔
      P (conditional c body otherwise) ∧ (∀ b ∈ body, ∀ t ∈ b.nodes, P t) ∧
        ∀ ss, otherwise = some ss → ∀ b ∈ ss, ∀ t ∈ b.nodes, P t := by
  cases otherwise with
  | none =>
    rw [nodes, List.forall_mem_cons, forall_nodesAll]
    simp
  | some ss =>
    rw [nodes, List.forall_mem_cons, List.forall_mem_append, forall_nodesAll, forall_nodesAll]
    simp

theorem forall_nodes_loop {initial : Stmt} {c step : Expr} {body : List Stmt} :
    (∀ t ∈ (loop initial c step body).nodes, P t) ↔
      P (loop initial c step body) ∧ (∀ t ∈ initial.nodes, P t) ∧
        ∀ b ∈ body, ∀ t ∈ b.nodes, P t := by
  rw [nodes, List.forall_mem_cons, List.forall_mem_append, forall_nodesAll]

/-- A statement without statements inside. -/
theorem forall_nodes_leaf {s : Stmt} (hnodes : s.nodes = [s]) : (∀ t ∈ s.nodes, P t) ↔ P s := by
  rw [hnodes, List.forall_mem_singleton]

end

mutual
/-- What is inside a node is inside the statement. -/
theorem nodes_subset : (s : Stmt) → ∀ t ∈ s.nodes, t.nodes ⊆ s.nodes
  | function name signature body => by
    rw [nodes, List.forall_mem_cons, nodes]
    exact ⟨List.Subset.refl _, fun t ht => List.subset_cons_of_subset _ (nodesAll_subset body t ht)⟩
  | conditional condition body none => by
    rw [nodes, List.forall_mem_cons, nodes]
    exact ⟨List.Subset.refl _, fun t ht => List.subset_cons_of_subset _ (nodesAll_subset body t ht)⟩
  | conditional condition body (some otherwise) => by
    rw [nodes, List.forall_mem_cons, nodes, List.forall_mem_append]
    refine ⟨List.Subset.refl _, fun t ht => ?_, fun t ht => ?_⟩
    · exact List.subset_cons_of_subset _
        (List.subset_append_of_subset_left _ (nodesAll_subset body t ht))
    · exact List.subset_cons_of_subset _
        (List.subset_append_of_subset_right _ (nodesAll_subset otherwise t ht))
  | loop initial condition step body => by
    rw [nodes, List.forall_mem_cons, nodes, List.forall_mem_append]
    refine ⟨List.Subset.refl _, fun t ht => ?_, fun t ht => ?_⟩
    · exact List.subset_cons_of_subset _
        (List.subset_append_of_subset_left _ (nodes_subset initial t ht))
    · exact List.subset_cons_of_subset _
        (List.subset_append_of_subset_right _ (nodesAll_subset body t ht))
  | prototype .. | ret _ | declare .. | call .. | assign .. | raw _ | unrecognized _ =>
    List.forall_mem_singleton.mpr (List.Subset.refl _)

theorem nodesAll_subset : (ss : List Stmt) → ∀ t ∈ nodesAll ss, t.nodes ⊆ nodesAll ss
  | [] => List.forall_mem_nil _
  | s :: rest => by
    rw [nodesAll, List.forall_mem_append]
    refine ⟨fun t ht => ?_, fun t ht => ?_⟩
    · exact List.subset_append_of_subset_left _ (nodes_subset s t ht)
    · exact List.subset_append_of_subset_right _ (nodesAll_subset rest t ht)
end

/-- The expressions of the statement itself, not those of statements inside it. -/
def exprs : Stmt → List Expr
  | conditional condition _ _ => [condition]
  | loop _ condition step _ => [condition, step]
  | ret value => value.toList
  | declare _ value => [value]
  | call _ arguments => arguments
  | assign _ value => [value]
  | prototype .. | function .. | raw _ | unrecognized _ => []

/-- The types that the statement itself names. -/
def types : Stmt → List Ty
  | prototype _ signature => signature.types
  | function _ signature _ => signature.types
  | conditional .. | loop .. | ret _ | declare .. | call .. | assign .. | raw _
  | unrecognized _ => []

end Stmt

namespace Program

/-- The statements of a program at any depth. -/
def stmts (p : Program) : List Stmt :=
  Stmt.nodesAll p

/-- The expressions of a program at any depth. -/
def exprs (p : Program) : List Expr :=
  p.stmts.flatMap fun s => Expr.nodesAll s.exprs

/-- The types of parameters and results in a program. -/
def types (p : Program) : List Ty :=
  p.stmts.flatMap Stmt.types

/-- What a loop of the program begins with is a statement of the program. -/
theorem initial_mem_stmts {p : Program} {initial : Stmt} {condition step : Expr} {body : List Stmt}
    (h : .loop initial condition step body ∈ p.stmts) : initial ∈ p.stmts := by
  refine Stmt.nodesAll_subset p _ h ?_
  rw [Stmt.nodes]
  exact List.mem_cons_of_mem _ (List.mem_append_left _ initial.self_mem_nodes)

theorem mem_exprs {p : Program} {e : Expr} :
    e ∈ p.exprs ↔ ∃ s ∈ p.stmts, ∃ d ∈ s.exprs, e ∈ d.nodes := by
  simp only [exprs, Expr.nodesAll_eq_flatMap, List.mem_flatMap]

theorem mem_types {p : Program} {t : Ty} : t ∈ p.types ↔ ∃ s ∈ p.stmts, t ∈ s.types :=
  List.mem_flatMap

end Program
end LittleC
