import LittleC.Proofs.Sequence
import LittleC.Proofs.Weakening

/-! What lowering reads of a chain. Two chains that say the same of the names that some code
mentions are the same to it, whatever else is in them and however many frames they have: its
text is the same in both, and so is its error.

The agreement is kept along the way (`Scope.AgreeOn`): what a declaration adds to both chains
is the same, as it was read from names that they agree on. `lowering_reads_mentioned`: the
order of prototypes, and prototypes that nothing mentions, therefore do not matter. -/
namespace LittleC

/-! ### Chains that agree -/

namespace Scope

/-- The two chains say the same of these names. -/
def AgreeOn (names : List String) (s t : Scope) : Prop :=
  ∀ n ∈ names, s.lookup n = t.lookup n

namespace AgreeOn

variable {names others : List String} {s t : Scope}

theorem mono (h : AgreeOn names s t) (hsub : others ⊆ names) : AgreeOn others s t :=
  fun n hn => h n (hsub hn)

theorem left (h : AgreeOn (names ++ others) s t) : AgreeOn names s t :=
  h.mono (List.subset_append_left ..)

theorem right (h : AgreeOn (names ++ others) s t) : AgreeOn others s t :=
  h.mono (List.subset_append_right ..)

theorem push (h : AgreeOn names s t) : AgreeOn names s.push t.push := h

theorem bind (h : AgreeOn names s t) (name : String) (symbol : Symbol) :
    AgreeOn names (s.bind name symbol) (t.bind name symbol) := by
  intro n hn
  rw [lookup_bind, lookup_bind, h n hn]

theorem pushFrame (h : AgreeOn names s t) (declarations : List (String × Symbol)) :
    AgreeOn names (s.pushFrame declarations) (t.pushFrame declarations) := by
  intro n hn
  rw [lookup_eq_or, lookup_eq_or (t.pushFrame declarations)]
  exact congrArg (Option.or _) (h n hn)

theorem enter (h : AgreeOn names s t) (name : String) (signature : Signature) :
    AgreeOn names (s.enter name signature) (t.enter name signature) :=
  h.pushFrame _

end AgreeOn

theorem function?_congr {s t : Scope} {name : String} (h : s.lookup name = t.lookup name) :
    s.function? name = t.function? name := by
  rw [function?, function?, h]

theorem assignable?_congr {s t : Scope} {name : String} (h : s.lookup name = t.lookup name) :
    s.assignable? name = t.assignable? name := by
  rw [assignable?, assignable?, h]

end Scope

/-! ### Expressions -/

namespace Expr
open Scope (AgreeOn)

variable {s t : Scope}

mutual
theorem lower_congr : (e : Expr) → AgreeOn e.names s t → e.lower s = e.lower t
  | binary op left right, h => by
    rw [lower, lower, lower_congr left h.left, lower_congr right h.right]
  | symbol name, h => by
    rw [lower, lower, h name (List.mem_singleton_self name)]
  | call callee arguments, h => by
    obtain ⟨hcallee, hrest⟩ := List.forall_mem_cons.mp h
    rw [lower, lower, Scope.function?_congr hcallee, lowerAll_congr arguments hrest]
  | assign target value, h => by
    obtain ⟨htarget, hrest⟩ := List.forall_mem_cons.mp h
    rw [lower, lower, Scope.assignable?_congr htarget, lower_congr value hrest]
  | float _, _ | double _, _ | integer _, _ | string _, _ | boolean _, _ | raw _, _
  | unrecognized _, _ => rfl

theorem lowerAll_congr : (es : List Expr) → AgreeOn (namesAll es) s t →
    lowerAll s es = lowerAll t es
  | [], _ => rfl
  | e :: rest, h => by
    rw [lowerAll, lowerAll, lower_congr e h.left, lowerAll_congr rest h.right]
end

theorem typeIn_congr {e : Expr} (h : AgreeOn e.names s t) : e.typeIn s = e.typeIn t := by
  rw [typeIn, typeIn, lower_congr e h]

end Expr

/-! ### Statements -/

namespace Stmt
open Scope (AgreeOn)

mutual
/-- The names in the expressions of a statement and of those inside it: symbols, callees and
targets of assignments. What it declares is not mentioned by that. -/
def names : Stmt → List String
  | function _ _ body => namesAll body
  | conditional condition body none => condition.names ++ namesAll body
  | conditional condition body (some otherwise) =>
    condition.names ++ (namesAll body ++ namesAll otherwise)
  | loop initial condition step body =>
    names initial ++ (condition.names ++ (step.names ++ namesAll body))
  | ret (some value) => value.names
  | declare _ value => value.names
  | call callee arguments => (Expr.call callee arguments).names
  | assign target value => (Expr.assign target value).names
  | prototype .. | ret none | raw _ | unrecognized _ => []

def namesAll : List Stmt → List String
  | [] => []
  | s :: rest => names s ++ namesAll rest
end

/-- A statement adds the same to chains that agree on what it mentions. -/
theorem after_congr {stmt : Stmt} {others : List String} {s t : Scope}
    (h : AgreeOn stmt.names s t) (hothers : AgreeOn others s t) :
    AgreeOn others (stmt.after s) (stmt.after t) := by
  cases stmt with
  | prototype name signature => exact hothers.bind name _
  | function name signature body => exact hothers.bind name _
  | declare name value =>
    rw [after, after, Expr.typeIn_congr h]
    exact hothers.bind name _
  | _ => exact hothers

mutual
theorem lowerCode_congr {s t : Scope} (indent : String) : (stmt : Stmt) →
    AgreeOn stmt.names s t → stmt.lowerCode s indent = stmt.lowerCode t indent
  | function name signature body, h => by
    rw [lowerCode_function, lowerCode_function,
      lowerBlock_congr (Layout.nested indent) body (AgreeOn.enter h name signature)]
  | conditional condition body none, h => by
    rw [lowerCode_conditional, lowerCode_conditional, condition.lower_congr h.left,
      lowerBlock_congr (Layout.nested indent) body h.right.push]
  | conditional condition body (some otherwise), h => by
    rw [lowerCode_alternative, lowerCode_alternative, condition.lower_congr h.left,
      lowerBlock_congr (Layout.nested indent) body h.right.left.push,
      lowerBlock_congr (Layout.nested indent) otherwise h.right.right.push]
  | loop initial condition step body, h => by
    -- What the loop begins with extends both chains alike, for the rest of the loop.
    have hinner := after_congr h.left.push h.right.push
    simp only [lowerCode_loop, lower_eq, bind_assoc, pure_bind]
    rw [lowerCode_congr "" initial h.left.push, condition.lower_congr hinner.left,
      step.lower_congr hinner.right.left,
      lowerBlock_congr (Layout.nested indent) body hinner.right.right.push]
  | ret (some value), h => by
    rw [lowerCode_ret, lowerCode_ret, value.lower_congr h]
  | declare name value, h => by
    rw [lowerCode_declare, lowerCode_declare, value.lower_congr h]
  | call callee arguments, h => by
    rw [lowerCode_call, lowerCode_call, Expr.lower_congr _ h]
  | assign target value, h => by
    rw [lowerCode_assign, lowerCode_assign, Expr.lower_congr _ h]
  | prototype _ _, _ | ret none, _ | raw _, _ | unrecognized _, _ => rfl

theorem lowerBlock_congr {s t : Scope} (indent : String) : (body : List Stmt) →
    AgreeOn (namesAll body) s t → lowerBlock s indent body = lowerBlock t indent body
  | [], _ => rfl
  | stmt :: rest, h => by
    rw [lowerBlock_cons, lowerBlock_cons, lowerCode_congr indent stmt h.left,
      lowerBlock_congr indent rest (after_congr h.left h.right)]
end

/-- Two prototypes of different names may stand in either order. -/
theorem lowerBlock_swap {f g : String} (hfg : f ≠ g) (σ τ : Signature) (scope : Scope)
    (indent : String) (body : List Stmt) :
    lowerBlock scope indent (prototype f σ :: prototype g τ :: body) =
      lowerBlock scope indent (prototype g τ :: prototype f σ :: body) := by
  simp only [lowerBlock_prototype]
  refine lowerBlock_congr indent body fun n _ => ?_
  simp only [Scope.lookup_bind]
  by_cases hf : n = f
  · have hg : n ≠ g := fun hg => hfg (hf.symm.trans hg)
    rw [if_neg hg, if_pos hf, if_pos hf]
  · rw [if_neg hf, if_neg hf]

/-- A prototype that nothing behind it mentions has no effect. -/
theorem lowerBlock_unmentioned {f : String} {body : List Stmt} (hf : f ∉ namesAll body)
    (σ : Signature) (scope : Scope) (indent : String) :
    lowerBlock scope indent (prototype f σ :: body) = lowerBlock scope indent body := by
  rw [lowerBlock_prototype]
  refine lowerBlock_congr indent body fun n hn => ?_
  have hne : n ≠ f := fun h => hf (h ▸ hn)
  rw [Scope.lookup_bind, if_neg hne]

end Stmt

/-! ### Inside a program -/

/-- Statements that are lowered alike everywhere are lowered alike inside a program. -/
theorem BlockHole.lower_congr (hole : BlockHole) (front : List Stmt) {x y : List Stmt}
    (h : ∀ scope indent, Stmt.lowerBlock scope indent x = Stmt.lowerBlock scope indent y) :
    Program.lower (hole.fill (front ++ x)) = Program.lower (hole.fill (front ++ y)) := by
  have hbody : ∀ scope indent,
      Stmt.lowerBlock scope indent (front ++ x) = Stmt.lowerBlock scope indent (front ++ y) := by
    intro scope indent
    simp only [Stmt.lowerBlock_append, h]
  obtain ⟨rest, hrest⟩ := hole.surrounds .root ""
  refine (hrest (front ++ x)).trans (Eq.trans ?_ (hrest (front ++ y)).symm)
  simp only [hbody]

/-- **Lowering reads of a chain only the names that the code mentions.** In chains that agree
on those, of whatever depths, a block has the same text or the same error. So inside any body
of a program two prototypes of different names may be exchanged, and one that nothing behind
it in its block mentions may be left out. -/
theorem lowering_reads_mentioned :
    (∀ (body : List Stmt) (indent : String) (s t : Scope),
      (∀ n ∈ Stmt.namesAll body, s.lookup n = t.lookup n) →
      Stmt.lowerBlock s indent body = Stmt.lowerBlock t indent body) ∧
    (∀ (hole : BlockHole) (front back : List Stmt) (f g : String) (σ τ : Signature), f ≠ g →
      Program.lower (hole.fill (front ++ .prototype f σ :: .prototype g τ :: back)) =
        Program.lower (hole.fill (front ++ .prototype g τ :: .prototype f σ :: back))) ∧
    ∀ (hole : BlockHole) (front back : List Stmt) (f : String) (σ : Signature),
      f ∉ Stmt.namesAll back →
      Program.lower (hole.fill (front ++ .prototype f σ :: back)) =
        Program.lower (hole.fill (front ++ back)) := by
  refine ⟨fun body indent s t h => Stmt.lowerBlock_congr indent body h, ?_, ?_⟩
  · intro hole front back f g σ τ hfg
    exact hole.lower_congr front fun scope indent => Stmt.lowerBlock_swap hfg σ τ scope indent back
  · intro hole front back f σ hf
    exact hole.lower_congr front fun scope indent =>
      Stmt.lowerBlock_unmentioned hf σ scope indent

/-- A loop that calls one function and hides another. -/
def masking : List Stmt :=
  [.loop (.declare "i" (.call "f" [])) (.binary .lessThan (.symbol "i") (.integer "9"))
    (.assign "i" (.call "f" [])) [.declare "g" (.symbol "i")]]

def maskingCode : String :=
  "for(int i = f(); i < 9; i = f()) \x7b\n  int g = i;\n\x7d"

theorem lowering_reads_mentioned_masking :
    let signature : Signature := ⟨[], .i32⟩
    let near := (Scope.root.bind "i" (.value .void)).bind "f" (.function signature)
    let far := ((near.bind "g" (.value .bool)).push.bind "h" (.value .string)).push
    let hole : BlockHole := .within [] (.function "main" ⟨[], .void⟩ .here) []
    Stmt.lowerBlock near "" masking = .ok maskingCode ∧
      Stmt.lowerBlock far "" masking = .ok maskingCode ∧
      Program.lower (hole.fill (.prototype "f" signature :: .prototype "g" ⟨[], .bool⟩ :: masking)) =
        Program.lower (hole.fill (.prototype "f" signature :: masking)) ∧
      Program.lower (hole.fill (.prototype "g" ⟨[], .bool⟩ :: .prototype "f" signature :: masking)) =
        Program.lower (hole.fill (.prototype "f" signature :: masking)) := by
  intro signature near far hole
  obtain ⟨hchain, hswap, hdelete⟩ := lowering_reads_mentioned
  have hnear : Stmt.lowerBlock near "" masking = .ok maskingCode := by rfl
  have hagree : ∀ n ∈ Stmt.namesAll masking, far.lookup n = near.lookup n := by decide
  have hunmentioned : "g" ∉ Stmt.namesAll masking := by decide
  have hleft := hdelete hole [.prototype "f" signature] masking "g" ⟨[], .bool⟩ hunmentioned
  have hright := hswap hole [] masking "g" "f" ⟨[], .bool⟩ signature (by decide)
  exact ⟨hnear, (hchain masking "" far near hagree).trans hnear, hleft, hright.trans hleft⟩

end LittleC
