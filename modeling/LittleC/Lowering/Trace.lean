import LittleC.Lowering.Stmt

/-! What lowering meets on its way. The trace of a statement lists the expressions and
statements that lowering reaches, each with the scope it is lowered in, and the lowered
conditions, in order and up to the first failure. Remarks are read off the trace. -/
namespace LittleC

/-- Something lowering comes to. -/
inductive Visit where
  | expr (scope : Scope) (e : Expr)
  | stmt (scope : Scope) (s : Stmt)
  /-- The condition of a conditional, lowered. -/
  | condition (lowered : Lowered)

/-- The second trace follows the first only if what the first belongs to was lowered. -/
def Visit.thenIf {α : Type} (result : Except Error α) (next : α → List Visit) : List Visit :=
  match result with
  | .ok a => next a
  | .error _ => []

namespace Expr

mutual
/-- What lowering an expression reaches. -/
def trace (scope : Scope) : Expr → List Visit
  | binary op left right =>
    .expr scope (binary op left right) ::
      (trace scope left ++ Visit.thenIf (left.lower scope) fun _ => trace scope right)
  | call callee arguments =>
    .expr scope (call callee arguments) ::
      if (scope.function? callee).isSome then traceAll scope arguments else []
  | assign target value =>
    .expr scope (assign target value) ::
      if (scope.assignable? target).isSome then trace scope value else []
  | e => [.expr scope e]

def traceAll (scope : Scope) : List Expr → List Visit
  | [] => []
  | e :: rest => trace scope e ++ Visit.thenIf (e.lower scope) fun _ => traceAll scope rest
end

end Expr

namespace Stmt

mutual
/-- What lowering a statement reaches. The indentation does not matter for it. -/
def trace (scope : Scope) : Stmt → List Visit
  | function name signature body =>
    .stmt scope (function name signature body) :: traceAll (scope.enter name signature) body
  | conditional condition body none =>
    .stmt scope (conditional condition body none) ::
      (condition.trace scope ++ Visit.thenIf (condition.lower scope) fun c =>
        .condition c :: traceAll scope.push body)
  | conditional condition body (some otherwise) =>
    .stmt scope (conditional condition body (some otherwise)) ::
      (condition.trace scope ++ Visit.thenIf (condition.lower scope) fun c =>
        .condition c :: (traceAll scope.push body ++
          Visit.thenIf (lowerAll scope.push "" body) fun _ => traceAll scope.push otherwise))
  | loop initial condition step body =>
    .stmt scope (loop initial condition step body) ::
      (trace scope.push initial ++ Visit.thenIf (lower scope.push "" initial) fun i =>
        condition.trace i.scope ++ Visit.thenIf (condition.lower i.scope) fun _ =>
          step.trace i.scope ++ Visit.thenIf (step.lower i.scope) fun _ =>
            traceAll i.scope.push body)
  | ret (some value) => .stmt scope (ret (some value)) :: value.trace scope
  | declare name value => .stmt scope (declare name value) :: value.trace scope
  | call callee arguments =>
    .stmt scope (call callee arguments) :: (Expr.call callee arguments).trace scope
  | assign target value =>
    .stmt scope (assign target value) :: (Expr.assign target value).trace scope
  | s => [.stmt scope s]

def traceAll (scope : Scope) : List Stmt → List Visit
  | [] => []
  | s :: rest => trace scope s ++ Visit.thenIf (lower scope "" s) fun l => traceAll l.scope rest
end

end Stmt
end LittleC
