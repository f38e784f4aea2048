import LittleC.Ast.Encoding
import LittleC.Error
import LittleC.Json.Reader

/-! Loading trees. Reading a node is lenient: a literal may be a number or a string,
a missing list of arguments is empty, a type nobody knows is `unknown`, and a node
whose first tag does not have the content it needs is kept as `unrecognized`. Only a
text that is not JSON, or not an array, fails. -/
namespace LittleC

namespace Json

/-- The first of the tags that is a member of the node, with its content. -/
def tagged? {τ : Type} (key : τ → String) (tags : List τ) (j : Json) : Option (τ × Json) :=
  tags.findSome? fun t => (j.get? (key t)).map (Prod.mk t)

theorem sizeOf_tagged?_lt {τ : Type} {key : τ → String} {tags : List τ} {j : Json} {t : τ} {v : Json}
    (h : j.tagged? key tags = some (t, v)) : sizeOf v < sizeOf j := by
  obtain ⟨t', _, h'⟩ := List.exists_of_findSome?_eq_some h
  obtain ⟨w, hw, he⟩ := Option.map_eq_some_iff.1 h'
  cases he
  exact sizeOf_get?_lt hw

/-- The text of a literal. -/
def literalText? : Json → Option String
  | number n => some n.text
  | string s => some s
  | _ => none

/-- A truth value, which may be spelled as a string. -/
def truth? : Json → Option Bool
  | bool b => some b
  | string s => if s = "true" then some true else if s = "false" then some false else none
  | _ => none

/-- A list that may be left out: `some none` when it is, `none` when it is not a list. -/
def optionalList? : Option Json → Option (Option (List Json))
  | none | some null => some none
  | some (array elements) => some (some elements)
  | _ => none

/-- What stands in the place of an array of statements. -/
def describe : Json → String
  | null => "null"
  | bool _ => "a boolean"
  | number _ => "a number"
  | string _ => "a string"
  | array _ => "an array"
  | object _ => "an object"

/-- The name and the arguments of a call. -/
def callParts? (j : Json) : Option (String × List Json) :=
  match j.get? "id", optionalList? (j.get? "args") with
  | some (.string f), some args => some (f, args.getD [])
  | _, _ => none

/-- A name and the value given to it. -/
def bindingParts? (j : Json) : Option (String × Json) :=
  match j.get? "name", j.get? "value" with
  | some (.string x), some v => some (x, v)
  | _, _ => none

theorem sizeOf_optionalList?_lt {j : Json} {key : String} {vs : List Json}
    (h : optionalList? (j.get? key) = some (some vs)) : sizeOf vs < sizeOf j := by
  cases hv : j.get? key with
  | none => rw [hv] at h; simp [optionalList?] at h
  | some v =>
    rw [hv] at h
    cases v <;> simp [optionalList?] at h
    have := sizeOf_get?_lt hv
    subst h
    simp only [array.sizeOf_spec] at this
    omega

theorem sizeOf_callParts?_lt {j : Json} {f : String} {args : List Json}
    (h : callParts? j = some (f, args)) : sizeOf args ≤ sizeOf j := by
  unfold callParts? at h
  split at h
  · rename_i found _ hargs
    cases h
    cases found with
    | none =>
      have hj : 1 ≤ sizeOf j := by cases j <;> simp only [Json.null.sizeOf_spec, Json.bool.sizeOf_spec,
        Json.number.sizeOf_spec, Json.string.sizeOf_spec, Json.array.sizeOf_spec,
        Json.object.sizeOf_spec] <;> omega
      simpa using hj
    | some vs => exact Nat.le_of_lt (sizeOf_optionalList?_lt hargs)
  · simp at h

theorem sizeOf_bindingParts?_lt {j : Json} {x : String} {v : Json}
    (h : bindingParts? j = some (x, v)) : sizeOf v < sizeOf j := by
  unfold bindingParts? at h
  split at h
  · rename_i hv
    cases h
    exact sizeOf_get?_lt hv
  · simp at h

end Json

/-! ### Expressions -/

namespace Expr

/-- The first tag of an expression node. -/
def tagged? (j : Json) : Option (Tag × Json) :=
  j.tagged? Tag.key Tag.all

set_option linter.unusedVariables false in
mutual
/-- The expression of a node, if its first tag has the content it needs. -/
def read? (j : Json) : Option Expr :=
  match hj : tagged? j with
  | some (.binary op, .array [l, r]) => some (.binary op (ofJson l) (ofJson r))
  | some (.symbol, .string name) => some (.symbol name)
  | some (.float, v) => v.literalText?.map .float
  | some (.double, v) => v.literalText?.map .double
  | some (.integer, v) => v.literalText?.map .integer
  | some (.string, .string text) => some (.string text)
  | some (.boolean, v) => v.truth?.map .boolean
  | some (.call, v) =>
    match hv : v.callParts? with
    | some (f, args) => some (.call f (ofJsonAll args))
    | none => none
  | some (.assign, v) =>
    match hv : v.bindingParts? with
    | some (x, value) => some (.assign x (ofJson value))
    | none => none
  | some (.raw, .string text) => some (.raw text)
  | _ => none
termination_by (sizeOf j, 0)
decreasing_by
  all_goals have hlt := Json.sizeOf_tagged?_lt hj
  · simp only [Json.array.sizeOf_spec, List.cons.sizeOf_spec] at hlt
    exact Prod.Lex.left _ _ (by omega)
  · simp only [Json.array.sizeOf_spec, List.cons.sizeOf_spec] at hlt
    exact Prod.Lex.left _ _ (by omega)
  · have := Json.sizeOf_callParts?_lt hv
    exact Prod.Lex.left _ _ (by omega)
  · have := Json.sizeOf_bindingParts?_lt hv
    exact Prod.Lex.left _ _ (by omega)

/-- The expression of any node. -/
def ofJson (j : Json) : Expr :=
  match read? j with
  | some e => e
  | none => .unrecognized j
termination_by (sizeOf j, 1)

def ofJsonAll (js : List Json) : List Expr :=
  match js with
  | [] => []
  | j :: rest => ofJson j :: ofJsonAll rest
termination_by (sizeOf js, 0)
end

theorem ofJsonAll_eq_map (js : List Json) : ofJsonAll js = js.map ofJson := by
  induction js with
  | nil => rw [ofJsonAll, List.map_nil]
  | cons j rest ih => rw [ofJsonAll, ih, List.map_cons]

end Expr

/-! ### Statements -/

namespace Stmt

/-- The first tag of a statement node. -/
def tagged? (j : Json) : Option (Tag × Json) :=
  j.tagged? Tag.key Tag.all

/-- The type with a name, `unknown` if there is none. -/
def typeOf (j : Option Json) : Ty :=
  match j with
  | some (.string name) => (Ty.ofName? name).getD .unknown
  | _ => .unknown

def paramOf? (j : Json) : Option Param :=
  match j.get? "name" with
  | some (.string name) => some ⟨name, typeOf (j.get? "type")⟩
  | _ => none

/-- The parameters of a function. Anything but a list stands for none. -/
def paramsOf? (j : Option Json) : Option (List Param) :=
  match j with
  | some (.array js) => js.mapM paramOf?
  | _ => some []

/-- The name, the signature and the body of a function. -/
def functionParts? (j : Json) : Option (String × Signature × Option (List Json)) :=
  match j.get? "name", paramsOf? (j.get? "parameters"), Json.optionalList? (j.get? "body") with
  | some (.string name), some params, some body =>
    some (name, ⟨params, typeOf (j.get? "type")⟩, body)
  | _, _, _ => none

/-- The condition and the two bodies of a conditional. -/
def conditionalParts? (j : Json) : Option (Json × List Json × Option (List Json)) :=
  match j.get? "condition", Json.optionalList? (j.get? "body"),
      Json.optionalList? (j.get? "elseBody") with
  | some c, some (some body), some otherwise => some (c, body, otherwise)
  | _, _, _ => none

/-- The initial statement, the condition, the step and the body of a loop. -/
def loopParts? (j : Json) : Option (Json × Json × Json × List Json) :=
  match j.get? "initialStatement", j.get? "condition", j.get? "recurringExpression",
      Json.optionalList? (j.get? "body") with
  | some initial, some c, some step, some (some body) => some (initial, c, step, body)
  | _, _, _, _ => none

theorem sizeOf_functionParts?_lt {j : Json} {name : String} {s : Signature} {body : List Json}
    (h : functionParts? j = some (name, s, some body)) : sizeOf body < sizeOf j := by
  unfold functionParts? at h
  split at h
  · rename_i hbody
    cases h
    exact Json.sizeOf_optionalList?_lt hbody
  · simp at h

theorem sizeOf_conditionalParts?_lt {j c : Json} {body : List Json} {otherwise : Option (List Json)}
    (h : conditionalParts? j = some (c, body, otherwise)) :
    sizeOf body < sizeOf j ∧ ∀ vs, otherwise = some vs → sizeOf vs < sizeOf j := by
  unfold conditionalParts? at h
  split at h
  · rename_i hbody helse
    cases h
    refine ⟨Json.sizeOf_optionalList?_lt hbody, ?_⟩
    rintro vs rfl
    exact Json.sizeOf_optionalList?_lt helse
  · simp at h

theorem sizeOf_loopParts?_lt {j initial c step : Json} {body : List Json}
    (h : loopParts? j = some (initial, c, step, body)) :
    sizeOf initial < sizeOf j ∧ sizeOf body < sizeOf j := by
  unfold loopParts? at h
  split at h
  · rename_i hinitial _ _ hbody
    cases h
    exact ⟨Json.sizeOf_get?_lt hinitial, Json.sizeOf_optionalList?_lt hbody⟩
  · simp at h

set_option linter.unusedVariables false in
mutual
/-- The statement of a node, if its first tag has the content it needs. -/
def read? (j : Json) : Option Stmt :=
  match hj : tagged? j with
  | some (.function, v) =>
    match hv : functionParts? v with
    | some (name, s, none) => some (.prototype name s)
    | some (name, s, some body) => some (.function name s (ofJsonAll body))
    | none => none
  | some (.conditional, v) =>
    match hv : conditionalParts? v with
    | some (c, body, none) => some (.conditional (.ofJson c) (ofJsonAll body) none)
    | some (c, body, some otherwise) =>
      some (.conditional (.ofJson c) (ofJsonAll body) (some (ofJsonAll otherwise)))
    | none => none
  | some (.loop, v) =>
    match hv : loopParts? v with
    | some (initial, c, step, body) =>
      some (.loop (ofJson initial) (.ofJson c) (.ofJson step) (ofJsonAll body))
    | none => none
  | some (.ret, .null) => some (.ret none)
  | some (.ret, v) => some (.ret (some (.ofJson v)))
  | some (.declareVar, v) | some (.declareLet, v) =>
    v.bindingParts?.map fun (x, value) => .declare x (.ofJson value)
  | some (.call, v) => v.callParts?.map fun (f, args) => .call f (args.map Expr.ofJson)
  | some (.assign, v) => v.bindingParts?.map fun (x, value) => .assign x (.ofJson value)
  | some (.raw, .string text) => some (.raw text)
  | _ => none
termination_by (sizeOf j, 0)
decreasing_by
  all_goals have hlt := Json.sizeOf_tagged?_lt hj
  · have := sizeOf_functionParts?_lt hv
    exact Prod.Lex.left _ _ (by omega)
  · have := (sizeOf_conditionalParts?_lt hv).1
    exact Prod.Lex.left _ _ (by omega)
  · have := (sizeOf_conditionalParts?_lt hv).1
    exact Prod.Lex.left _ _ (by omega)
  · have := (sizeOf_conditionalParts?_lt hv).2 _ rfl
    exact Prod.Lex.left _ _ (by omega)
  · have := (sizeOf_loopParts?_lt hv).1
    exact Prod.Lex.left _ _ (by omega)
  · have := (sizeOf_loopParts?_lt hv).2
    exact Prod.Lex.left _ _ (by omega)

/-- The statement of any node. -/
def ofJson (j : Json) : Stmt :=
  match read? j with
  | some s => s
  | none => .unrecognized j
termination_by (sizeOf j, 1)

def ofJsonAll (js : List Json) : List Stmt :=
  match js with
  | [] => []
  | j :: rest => ofJson j :: ofJsonAll rest
termination_by (sizeOf js, 0)
end

theorem ofJsonAll_eq_map (js : List Json) : ofJsonAll js = js.map ofJson := by
  induction js with
  | nil => rw [ofJsonAll, List.map_nil]
  | cons j rest ih => rw [ofJsonAll, ih, List.map_cons]

end Stmt

/-! ### Programs -/

namespace Program

/-- The program of a tree, which has to be an array. -/
def ofJson : Json → Except Error Program
  | .array js => .ok (js.map Stmt.ofJson)
  | j =>
    .error (.unlocated (.invalidAst ("expected an array of statements, found " ++ j.describe)))

/-- The program of the text of a tree. -/
def load (text : String) : Except Error Program :=
  match Json.read text with
  | .ok j => ofJson j
  | .error e => .error (.unlocated (.invalidAst e.message))

end Program
end LittleC
