import LittleC.Ast.Decoding
import LittleC.Proofs.Nodes

/-! Trees that their JSON form gives back. A tree is canonical when no type in it is `any`,
which has no name, when its unrecognized nodes hold what reading would not recognize, and
when no `return` has a null for its value, which would be read as no value.

Loading gives canonical trees only (`Stmt.canonical_ofJson`), and the JSON form of a
canonical tree is loaded as that tree (`Stmt.ofJson_toJson`). So loading what was written
gives the program back exactly when it is canonical, and writing a loaded program changes
its JSON form once at most. -/
namespace LittleC

theorem Ty.ofName?_ne_any (name : String) : ofName? name ≠ some any := by
  unfold ofName?
  repeat' split
  all_goals simp

namespace Json

/-! ### Parts of nodes -/

theorem callParts?_members (f : String) (args : List Json) :
    callParts? (.object [("args", .array args), ("id", .string f)]) = some (f, args) := rfl

theorem bindingParts?_members (x : String) (v : Json) :
    bindingParts? (.object [("name", .string x), ("value", v)]) = some (x, v) := rfl

end Json

/-! ### Expressions -/

namespace Expr

theorem tagged?_node (t : Tag) (content : Json) : tagged? (node t content) = some (t, content) := by
  cases t with
  | binary op => cases op <;> rfl
  | _ => rfl

/-- The expression that the content under a tag gives. -/
def ofContent? : Tag → Json → Option Expr
  | .binary op, .array [l, r] => some (.binary op (ofJson l) (ofJson r))
  | .symbol, .string name => some (.symbol name)
  | .float, v => v.literalText?.map .float
  | .double, v => v.literalText?.map .double
  | .integer, v => v.literalText?.map .integer
  | .string, .string text => some (.string text)
  | .boolean, v => v.truth?.map .boolean
  | .call, v => v.callParts?.map fun (f, args) => .call f (args.map ofJson)
  | .assign, v => v.bindingParts?.map fun (x, value) => .assign x (ofJson value)
  | .raw, .string text => some (.raw text)
  | _, _ => none

/-- Reading a node is finding its first tag and reading the content under it. -/
theorem read?_eq (j : Json) : read? j = (tagged? j).bind fun (t, v) => ofContent? t v := by
  rw [read?]
  split
  · simp [*, ofContent?]
  · simp [*, ofContent?]
  · simp [*, ofContent?]
  · simp [*, ofContent?]
  · simp [*, ofContent?]
  · simp [*, ofContent?]
  · simp [*, ofContent?]
  · split <;> simp [*, ofContent?, ofJsonAll_eq_map]
  · split <;> simp [*, ofContent?]
  · simp [*, ofContent?]
  · cases ht : tagged? j with
    | none => rfl
    | some tv =>
      rw [Option.bind_some]
      unfold ofContent?
      split
      all_goals simp_all

theorem ofJson_of_none {j : Json} (h : read? j = none) : ofJson j = unrecognized j := by
  rw [ofJson, h]

theorem ofJson_of_some {j : Json} {e : Expr} (h : read? j = some e) : ofJson j = e := by
  rw [ofJson, h]

theorem ofJson_node {t : Tag} {v : Json} {e : Expr} (h : ofContent? t v = some e) :
    ofJson (node t v) = e := by
  apply ofJson_of_some
  rw [read?_eq, tagged?_node]
  exact h

/-- Every unrecognized node holds what cannot be read. -/
def Canonical (e : Expr) : Prop :=
  ∀ j, unrecognized j ∈ e.nodes → read? j = none

theorem canonical_binary {op : BinaryOp} {l r : Expr} :
    (binary op l r).Canonical ↔ l.Canonical ∧ r.Canonical :=
  unrecognized_binary

theorem canonical_call {f : String} {args : List Expr} :
    (call f args).Canonical ↔ ∀ a ∈ args, a.Canonical :=
  unrecognized_call

theorem canonical_assign {x : String} {v : Expr} : (assign x v).Canonical ↔ v.Canonical :=
  unrecognized_assign

theorem canonical_unrecognized {j : Json} : (unrecognized j).Canonical ↔ read? j = none := by
  simp [Canonical, nodes]

theorem canonical_ofContent? {t : Tag} {v : Json} {e : Expr} (h : ofContent? t v = some e)
    (ih : ∀ j, sizeOf j < sizeOf v → (ofJson j).Canonical) : e.Canonical := by
  unfold ofContent? at h
  split at h
  case h_1 =>
    cases h
    simp only [Json.array.sizeOf_spec, List.cons.sizeOf_spec] at ih
    exact canonical_binary.mpr ⟨ih _ (by omega), ih _ (by omega)⟩
  case h_8 =>
    obtain ⟨⟨f, args⟩, hparts, rfl⟩ := Option.map_eq_some_iff.mp h
    have hsize := Json.sizeOf_callParts?_lt hparts
    refine canonical_call.mpr fun a ha => ?_
    obtain ⟨j, hj, rfl⟩ := List.mem_map.mp ha
    have := List.sizeOf_lt_of_mem hj
    exact ih j (by omega)
  case h_9 =>
    obtain ⟨⟨x, value⟩, hparts, rfl⟩ := Option.map_eq_some_iff.mp h
    exact canonical_assign.mpr (ih value (Json.sizeOf_bindingParts?_lt hparts))
  case h_2 | h_6 | h_10 =>
    cases h
    exact unrecognized_leaf rfl nofun
  case h_3 | h_4 | h_5 | h_7 =>
    obtain ⟨_, _, rfl⟩ := Option.map_eq_some_iff.mp h
    exact unrecognized_leaf rfl nofun
  case h_11 => cases h

/-- **Reading gives canonical expressions**, whatever is read. -/
theorem canonical_ofJson (j : Json) : (ofJson j).Canonical := by
  cases h : read? j with
  | none =>
    rw [ofJson_of_none h]
    exact canonical_unrecognized.mpr h
  | some e =>
    rw [ofJson_of_some h]
    rw [read?_eq] at h
    obtain ⟨⟨t, v⟩, ht, hv⟩ := Option.bind_eq_some_iff.mp h
    have hsize : sizeOf v < sizeOf j := Json.sizeOf_tagged?_lt ht
    exact canonical_ofContent? hv fun j' _ => canonical_ofJson j'
termination_by sizeOf j

/-- What is read under a tag is recognized. -/
theorem ofContent?_ne_unrecognized {t : Tag} {v j : Json} :
    ofContent? t v ≠ some (unrecognized j) := by
  intro h
  unfold ofContent? at h
  split at h <;> simp at h

theorem eq_of_ofJson_eq_unrecognized {v j : Json} (h : ofJson v = unrecognized j) : v = j := by
  cases hread : read? v with
  | none =>
    rw [ofJson_of_none hread] at h
    exact unrecognized.inj h
  | some e =>
    rw [ofJson_of_some hread] at h
    rw [h, read?_eq] at hread
    obtain ⟨⟨t, content⟩, _, hcontent⟩ := Option.bind_eq_some_iff.mp hread
    exact absurd hcontent ofContent?_ne_unrecognized

mutual
/-- **A canonical expression is read back** from its JSON form. -/
theorem ofJson_toJson : (e : Expr) → e.Canonical → ofJson e.toJson = e
  | binary op l r, h => by
    obtain ⟨hl, hr⟩ := canonical_binary.mp h
    apply ofJson_node
    simp only [ofContent?, ofJson_toJson l hl, ofJson_toJson r hr]
  | symbol _, _ => ofJson_node rfl
  | float _, _ => ofJson_node rfl
  | double _, _ => ofJson_node rfl
  | integer _, _ => ofJson_node rfl
  | string _, _ => ofJson_node rfl
  | boolean _, _ => ofJson_node rfl
  | call f args, h => by
    have hargs := ofJson_toJsonAll args (canonical_call.mp h)
    apply ofJson_node
    simp only [ofContent?, toJsonAll_eq_map, Json.callParts?_members, Option.map_some, hargs]
  | assign x v, h => by
    have hv := ofJson_toJson v (canonical_assign.mp h)
    apply ofJson_node
    simp only [ofContent?, Json.bindingParts?_members, Option.map_some, hv]
  | raw _, _ => ofJson_node rfl
  | unrecognized j, h => ofJson_of_none (canonical_unrecognized.mp h)

theorem ofJson_toJsonAll : (es : List Expr) → (∀ e ∈ es, e.Canonical) →
    (es.map toJson).map ofJson = es
  | [], _ => rfl
  | e :: rest, h => by
    obtain ⟨he, hrest⟩ := List.forall_mem_cons.mp h
    simp only [List.map_cons, ofJson_toJson e he, ofJson_toJsonAll rest hrest]
end

theorem toJson_eq_null {e : Expr} : e.toJson = .null ↔ e = unrecognized .null := by
  cases e <;> simp [toJson, node]

end Expr

/-! ### Statements -/

namespace Stmt

theorem tagged?_node (t : Tag) (content : Json) : tagged? (node t content) = some (t, content) := by
  cases t <;> rfl

/-- The statement that the content under a tag gives. -/
def ofContent? : Tag → Json → Option Stmt
  | .function, v => (functionParts? v).map fun (name, s, body) =>
    ofFunction name s (body.map (List.map ofJson))
  | .conditional, v => (conditionalParts? v).map fun (c, body, otherwise) =>
    .conditional (.ofJson c) (body.map ofJson) (otherwise.map (List.map ofJson))
  | .loop, v => (loopParts? v).map fun (initial, c, step, body) =>
    .loop (ofJson initial) (.ofJson c) (.ofJson step) (body.map ofJson)
  | .ret, .null => some (.ret none)
  | .ret, v => some (.ret (some (.ofJson v)))
  | .declareVar, v | .declareLet, v =>
    v.bindingParts?.map fun (x, value) => .declare x (.ofJson value)
  | .call, v => v.callParts?.map fun (f, args) => .call f (args.map Expr.ofJson)
  | .assign, v => v.bindingParts?.map fun (x, value) => .assign x (.ofJson value)
  | .raw, .string text => some (.raw text)
  | _, _ => none

theorem read?_eq (j : Json) : read? j = (tagged? j).bind fun (t, v) => ofContent? t v := by
  rw [read?]
  split
  · split <;> simp [*, ofContent?, ofJsonAll_eq_map, ofFunction]
  · split <;> simp [*, ofContent?, ofJsonAll_eq_map]
  · split <;> simp [*, ofContent?, ofJsonAll_eq_map]
  · simp [*, ofContent?]
  · simp [*, ofContent?]
  · simp [*, ofContent?]
  · simp [*, ofContent?]
  · simp [*, ofContent?]
  · simp [*, ofContent?]
  · simp [*, ofContent?]
  · cases ht : tagged? j with
    | none => rfl
    | some tv =>
      rw [Option.bind_some]
      unfold ofContent?
      split
      all_goals simp_all

theorem ofJson_of_none {j : Json} (h : read? j = none) : ofJson j = unrecognized j := by
  rw [ofJson, h]

theorem ofJson_of_some {j : Json} {s : Stmt} (h : read? j = some s) : ofJson j = s := by
  rw [ofJson, h]

theorem ofJson_node {t : Tag} {v : Json} {s : Stmt} (h : ofContent? t v = some s) :
    ofJson (node t v) = s := by
  apply ofJson_of_some
  rw [read?_eq, tagged?_node]
  exact h

/-! ### Signatures -/

/-- A type that is read is one with a name, or unknown. -/
theorem typeOf_ne_any (j : Option Json) : typeOf j ≠ .any := by
  unfold typeOf
  split
  · rename_i name
    cases h : Ty.ofName? name with
    | none => simp
    | some t =>
      rintro rfl
      exact Ty.ofName?_ne_any name h
  · simp

theorem typeOf_name {t : Ty} (h : t ≠ .any) : typeOf (some (.string t.name)) = t := by
  rw [typeOf, Ty.ofName?_name]
  split
  · rename_i ht
    exact (ht.resolve_left h).symm
  · rfl

theorem paramOf?_type_ne_any {j : Json} {p : Param} (h : paramOf? j = some p) : p.type ≠ .any := by
  unfold paramOf? at h
  split at h
  · cases h
    exact typeOf_ne_any _
  · cases h

theorem mapM_paramOf?_ne_any {js : List Json} {ps : List Param} (h : js.mapM paramOf? = some ps) :
    ∀ p ∈ ps, p.type ≠ .any := by
  induction js generalizing ps with
  | nil =>
    cases h
    exact List.forall_mem_nil _
  | cons j rest ih =>
    simp only [List.mapM_cons, Option.bind_eq_bind, Option.bind_eq_some_iff, Option.pure_def,
      Option.some.injEq] at h
    obtain ⟨p, hp, ps', hps, rfl⟩ := h
    exact List.forall_mem_cons.mpr ⟨paramOf?_type_ne_any hp, ih hps⟩

theorem functionParts?_types {j : Json} {name : String} {s : Signature} {body : Option (List Json)}
    (h : functionParts? j = some (name, s, body)) : .any ∉ s.types := by
  unfold functionParts? at h
  split at h
  · rename_i params _ _ hparams _
    cases h
    have hne : ∀ p ∈ params, p.type ≠ .any := by
      unfold paramsOf? at hparams
      split at hparams
      · exact mapM_paramOf?_ne_any hparams
      · cases hparams
        exact List.forall_mem_nil _
    simp only [Signature.types, List.mem_cons, List.mem_map, not_or, not_exists, not_and]
    exact ⟨(typeOf_ne_any _).symm, hne⟩
  · cases h

theorem mapM_paramToJson {ps : List Param} (h : ∀ p ∈ ps, p.type ≠ .any) :
    (ps.map paramToJson).mapM paramOf? = some ps := by
  induction ps with
  | nil => rfl
  | cons p rest ih =>
    obtain ⟨hp, hrest⟩ := List.forall_mem_cons.mp h
    have hfirst : paramOf? (paramToJson p) = some p := by
      show some (Param.mk p.name (typeOf (some (.string p.type.name)))) = some p
      rw [typeOf_name hp]
    simp [List.mapM_cons, hfirst, ih hrest]

theorem functionParts?_members {j : Json} {name : String} {s : Signature}
    {body : Option (List Json)} (h : .any ∉ s.types) (hname : j.get? "name" = some (.string name))
    (hparams : j.get? "parameters" = some (.array (s.params.map paramToJson)))
    (hresult : j.get? "type" = some (.string s.result.name))
    (hbody : Json.optionalList? (j.get? "body") = some body) :
    functionParts? j = some (name, s, body) := by
  simp only [Signature.types, List.mem_cons, List.mem_map, not_or, not_exists, not_and] at h
  have hread : paramsOf? (some (.array (s.params.map paramToJson))) = some s.params :=
    mapM_paramToJson h.2
  rw [functionParts?, hname, hparams, hresult, hbody, hread, typeOf_name (Ne.symm h.1)]

/-! ### Canonical statements -/

/-- What canonical trees ask of a statement besides the statements inside it. -/
def Stable : Stmt → Prop
  | prototype _ signature => .any ∉ signature.types
  | function _ signature _ => .any ∉ signature.types
  | ret (some value) => value.Canonical ∧ value ≠ .unrecognized .null
  | unrecognized j => read? j = none
  | s => ∀ e ∈ s.exprs, e.Canonical

def Canonical (s : Stmt) : Prop :=
  ∀ t ∈ s.nodes, t.Stable

theorem stable_iff (s : Stmt) : s.Stable ↔ .any ∉ s.types ∧ (∀ e ∈ s.exprs, e.Canonical) ∧
    (∀ j, s = unrecognized j → read? j = none) ∧ s ≠ ret (some (.unrecognized .null)) := by
  cases s with
  | ret value => cases value <;> simp [Stable, types, exprs]
  | _ => simp [Stable, types, exprs]

theorem canonical_function {name : String} {s : Signature} {body : List Stmt} :
    (function name s body).Canonical ↔ .any ∉ s.types ∧ ∀ t ∈ body, t.Canonical :=
  forall_nodes_function

theorem canonical_conditional {c : Expr} {body : List Stmt} {otherwise : Option (List Stmt)} :
    (conditional c body otherwise).Canonical ↔ c.Canonical ∧ (∀ t ∈ body, t.Canonical) ∧
      ∀ ss, otherwise = some ss → ∀ t ∈ ss, t.Canonical := by
  have hown : (conditional c body otherwise).Stable ↔ c.Canonical := by simp [Stable, exprs]
  rw [← hown]
  exact forall_nodes_conditional

theorem canonical_loop {initial : Stmt} {c step : Expr} {body : List Stmt} :
    (loop initial c step body).Canonical ↔
      (c.Canonical ∧ step.Canonical) ∧ initial.Canonical ∧ ∀ t ∈ body, t.Canonical := by
  have hown : (loop initial c step body).Stable ↔ c.Canonical ∧ step.Canonical := by
    simp [Stable, exprs]
  rw [← hown]
  exact forall_nodes_loop

/-- A statement without statements inside. -/
theorem canonical_leaf {s : Stmt} (hnodes : s.nodes = [s]) : s.Canonical ↔ s.Stable :=
  forall_nodes_leaf hnodes

/-! ### Reading gives canonical statements -/

theorem canonical_ofFunction {name : String} {s : Signature} {body : Option (List Stmt)}
    (hs : .any ∉ s.types) (hbody : ∀ ss, body = some ss → ∀ t ∈ ss, t.Canonical) :
    (ofFunction name s body).Canonical := by
  cases body with
  | none => exact (canonical_leaf rfl).mpr hs
  | some ss => exact canonical_function.mpr ⟨hs, hbody ss rfl⟩

/-- A statement with one expression and nothing else. -/
theorem canonical_of_exprs {s : Stmt} {v : Json} (hnodes : s.nodes = [s])
    (hstable : s.Stable ↔ ∀ e ∈ s.exprs, e.Canonical) (hexprs : s.exprs = [.ofJson v]) :
    s.Canonical := by
  rw [canonical_leaf hnodes, hstable, hexprs, List.forall_mem_singleton]
  exact Expr.canonical_ofJson v

theorem canonical_ofContent? {t : Tag} {v : Json} {s : Stmt} (h : ofContent? t v = some s)
    (ih : ∀ j, sizeOf j < sizeOf v → (ofJson j).Canonical) : s.Canonical := by
  have hall : ∀ js : List Json, sizeOf js < sizeOf v → ∀ t ∈ js.map ofJson, t.Canonical := by
    intro js hjs t ht
    obtain ⟨j, hj, rfl⟩ := List.mem_map.mp ht
    have := List.sizeOf_lt_of_mem hj
    exact ih j (by omega)
  have hoptional : ∀ vs : Option (List Json), (∀ js, vs = some js → sizeOf js < sizeOf v) →
      ∀ ss, vs.map (List.map ofJson) = some ss → ∀ t ∈ ss, t.Canonical := by
    intro vs hvs ss hss
    obtain ⟨js, hjs, rfl⟩ := Option.map_eq_some_iff.mp hss
    exact hall js (hvs js hjs)
  unfold ofContent? at h
  split at h
  · obtain ⟨⟨name, signature, body⟩, hparts, rfl⟩ := Option.map_eq_some_iff.mp h
    refine canonical_ofFunction (functionParts?_types hparts) (hoptional body ?_)
    rintro js rfl
    exact sizeOf_functionParts?_lt hparts
  · obtain ⟨⟨c, body, otherwise⟩, hparts, rfl⟩ := Option.map_eq_some_iff.mp h
    obtain ⟨hbody, hother⟩ := sizeOf_conditionalParts?_lt hparts
    exact canonical_conditional.mpr
      ⟨Expr.canonical_ofJson c, hall body hbody, hoptional otherwise hother⟩
  · obtain ⟨⟨initial, c, step, body⟩, hparts, rfl⟩ := Option.map_eq_some_iff.mp h
    obtain ⟨hinitial, hbody⟩ := sizeOf_loopParts?_lt hparts
    exact canonical_loop.mpr ⟨⟨Expr.canonical_ofJson c, Expr.canonical_ofJson step⟩,
      ih initial hinitial, hall body hbody⟩
  · cases h
    exact (canonical_leaf rfl).mpr (by simp [Stable, exprs])
  · rename_i hnull
    cases h
    refine (canonical_leaf rfl).mpr ⟨Expr.canonical_ofJson v, fun h => ?_⟩
    exact hnull (Expr.eq_of_ofJson_eq_unrecognized h)
  · obtain ⟨⟨x, value⟩, _, rfl⟩ := Option.map_eq_some_iff.mp h
    exact canonical_of_exprs rfl Iff.rfl rfl
  · obtain ⟨⟨x, value⟩, _, rfl⟩ := Option.map_eq_some_iff.mp h
    exact canonical_of_exprs rfl Iff.rfl rfl
  · obtain ⟨⟨f, args⟩, _, rfl⟩ := Option.map_eq_some_iff.mp h
    refine (canonical_leaf rfl).mpr fun e he => ?_
    obtain ⟨j, _, rfl⟩ := List.mem_map.mp he
    exact Expr.canonical_ofJson j
  · obtain ⟨⟨x, value⟩, _, rfl⟩ := Option.map_eq_some_iff.mp h
    exact canonical_of_exprs rfl Iff.rfl rfl
  · cases h
    exact (canonical_leaf rfl).mpr (by simp [Stable, exprs])
  · cases h

/-- **Reading gives canonical statements**, whatever is read. -/
theorem canonical_ofJson (j : Json) : (ofJson j).Canonical := by
  cases h : read? j with
  | none =>
    rw [ofJson_of_none h]
    exact (canonical_leaf rfl).mpr h
  | some s =>
    rw [ofJson_of_some h]
    rw [read?_eq] at h
    obtain ⟨⟨t, v⟩, ht, hv⟩ := Option.bind_eq_some_iff.mp h
    have hsize : sizeOf v < sizeOf j := Json.sizeOf_tagged?_lt ht
    exact canonical_ofContent? hv fun j' _ => canonical_ofJson j'
termination_by sizeOf j

/-! ### Canonical statements are read back -/

theorem conditionalParts?_members (c : Json) (body : List Json) :
    conditionalParts? (.object [("body", .array body), ("condition", c)]) = some (c, body, none) :=
  rfl

theorem conditionalParts?_members_else (c : Json) (body otherwise : List Json) :
    conditionalParts? (.object [("body", .array body), ("condition", c),
      ("elseBody", .array otherwise)]) = some (c, body, some otherwise) :=
  rfl

theorem loopParts?_members (initial c step : Json) (body : List Json) :
    loopParts? (.object [("body", .array body), ("condition", c), ("initialStatement", initial),
      ("recurringExpression", step)]) = some (initial, c, step, body) :=
  rfl

/-- A null is no value, and everything else is one. -/
theorem ofContent?_ret {v : Json} (h : v ≠ .null) :
    ofContent? .ret v = some (.ret (some (.ofJson v))) := by
  cases v with
  | null => exact absurd rfl h
  | _ => rfl

mutual
/-- **A canonical statement is read back** from its JSON form. -/
theorem ofJson_toJson : (s : Stmt) → s.Canonical → ofJson s.toJson = s
  | prototype name signature, h => by
    have hparts : functionParts? (.object (signatureMembers name signature)) =
        some (name, signature, none) :=
      functionParts?_members ((canonical_leaf rfl).mp h) rfl rfl rfl rfl
    apply ofJson_node
    simp only [ofContent?, hparts, Option.map_some, Option.map_none, ofFunction]
  | function name signature body, h => by
    obtain ⟨hs, hbody⟩ := canonical_function.mp h
    have hparts : functionParts? (.object (("body", .array (toJsonAll body)) ::
        signatureMembers name signature)) = some (name, signature, some (body.map toJson)) := by
      rw [toJsonAll_eq_map]
      exact functionParts?_members hs rfl rfl rfl rfl
    apply ofJson_node
    simp only [ofContent?, hparts, Option.map_some, ofFunction, ofJson_toJsonAll body hbody]
  | conditional c body none, h => by
    obtain ⟨hc, hbody, _⟩ := canonical_conditional.mp h
    apply ofJson_node
    simp only [ofContent?, toJsonAll_eq_map, conditionalParts?_members, Option.map_some,
      Option.map_none, Expr.ofJson_toJson c hc, ofJson_toJsonAll body hbody]
  | conditional c body (some otherwise), h => by
    obtain ⟨hc, hbody, hother⟩ := canonical_conditional.mp h
    apply ofJson_node
    simp only [ofContent?, toJsonAll_eq_map, conditionalParts?_members_else, Option.map_some,
      Expr.ofJson_toJson c hc, ofJson_toJsonAll body hbody,
      ofJson_toJsonAll otherwise (hother otherwise rfl)]
  | loop initial c step body, h => by
    obtain ⟨⟨hc, hstep⟩, hinitial, hbody⟩ := canonical_loop.mp h
    apply ofJson_node
    simp only [ofContent?, toJsonAll_eq_map, loopParts?_members, Option.map_some,
      ofJson_toJson initial hinitial, Expr.ofJson_toJson c hc, Expr.ofJson_toJson step hstep,
      ofJson_toJsonAll body hbody]
  | ret none, _ => ofJson_node rfl
  | ret (some v), h => by
    obtain ⟨hv, hnull⟩ := (canonical_leaf rfl).mp h
    have hjson : v.toJson ≠ .null := fun h => hnull (Expr.toJson_eq_null.mp h)
    apply ofJson_node
    rw [ofContent?_ret hjson, Expr.ofJson_toJson v hv]
  | declare x v, h => by
    have hv : v.Canonical := (canonical_leaf rfl).mp h v (List.mem_singleton_self v)
    apply ofJson_node
    simp only [ofContent?, Json.bindingParts?_members, Option.map_some, Expr.ofJson_toJson v hv]
  | call f args, h => by
    have hargs := Expr.ofJson_toJsonAll args ((canonical_leaf rfl).mp h)
    apply ofJson_node
    simp only [ofContent?, Json.callParts?_members, Option.map_some, hargs]
  | assign x v, h => by
    have hv : v.Canonical := (canonical_leaf rfl).mp h v (List.mem_singleton_self v)
    apply ofJson_node
    simp only [ofContent?, Json.bindingParts?_members, Option.map_some, Expr.ofJson_toJson v hv]
  | raw _, _ => ofJson_node rfl
  | unrecognized j, h => ofJson_of_none ((canonical_leaf rfl).mp h)

theorem ofJson_toJsonAll : (ss : List Stmt) → (∀ s ∈ ss, s.Canonical) →
    (ss.map toJson).map ofJson = ss
  | [], _ => rfl
  | s :: rest, h => by
    obtain ⟨hs, hrest⟩ := List.forall_mem_cons.mp h
    simp only [List.map_cons, ofJson_toJson s hs, ofJson_toJsonAll rest hrest]
end

end Stmt

/-! ### Programs -/

namespace Program

/-- A program that its JSON form gives back. -/
structure Canonical (p : Program) : Prop where
  types : .any ∉ p.types
  exprs : ∀ j, .unrecognized j ∈ p.exprs → Expr.read? j = none
  stmts : ∀ j, .unrecognized j ∈ p.stmts → Stmt.read? j = none
  returns : .ret (some (.unrecognized .null)) ∉ p.stmts

theorem canonical_iff_stable (p : Program) : p.Canonical ↔ ∀ s ∈ p.stmts, s.Stable := by
  simp only [Stmt.stable_iff]
  constructor
  · intro h s hs
    refine ⟨fun hany => ?_, fun e he j hj => ?_, fun j hj => ?_, fun hret => ?_⟩
    · exact h.types (mem_types.mpr ⟨s, hs, hany⟩)
    · exact h.exprs j (mem_exprs.mpr ⟨s, hs, e, he, hj⟩)
    · exact h.stmts j (hj ▸ hs)
    · exact h.returns (hret ▸ hs)
  · intro h
    refine ⟨fun hany => ?_, fun j hj => ?_, fun j hj => ?_, fun hret => ?_⟩
    · obtain ⟨s, hs, hs'⟩ := mem_types.mp hany
      exact (h s hs).1 hs'
    · obtain ⟨s, hs, e, he, he'⟩ := mem_exprs.mp hj
      exact (h s hs).2.1 e he j he'
    · exact (h _ hj).2.2.1 j rfl
    · exact (h _ hret).2.2.2 rfl

theorem canonical_iff (p : Program) : p.Canonical ↔ ∀ s ∈ p, s.Canonical := by
  rw [canonical_iff_stable, stmts, Stmt.forall_nodesAll]
  rfl

theorem canonical_of_ofJson {j : Json} {p : Program} (h : ofJson j = .ok p) : p.Canonical := by
  cases j with
  | array js =>
    cases h
    refine (canonical_iff _).mpr fun s hs => ?_
    obtain ⟨j, _, rfl⟩ := List.mem_map.mp hs
    exact Stmt.canonical_ofJson j
  | _ => cases h

theorem ofJson_toJson {p : Program} (h : p.Canonical) : ofJson p.toJson = .ok p := by
  rw [toJson, ofJson, Stmt.ofJson_toJsonAll p ((canonical_iff p).mp h)]

/-- **The programs that their JSON form gives back are the canonical ones.** -/
theorem ofJson_toJson_iff (p : Program) : ofJson p.toJson = .ok p ↔ p.Canonical :=
  ⟨canonical_of_ofJson, ofJson_toJson⟩

/-- The JSON form of the program that a tree is loaded as. -/
def normalize (j : Json) : Except Error Json :=
  (ofJson j).map toJson

/-- **Loading settles a tree at once.** The JSON form of a loaded program is loaded as that
program; every array has a normal form, which is its own. -/
theorem normalize_idempotent :
    (∀ (j : Json) (p : Program), ofJson j = .ok p → ofJson p.toJson = .ok p) ∧
      ∀ js : List Json, ∃ form, normalize (.array js) = .ok form ∧ normalize form = .ok form := by
  refine ⟨fun j p h => ofJson_toJson (canonical_of_ofJson h), fun js => ?_⟩
  have hload : ofJson (.array js) = .ok (js.map Stmt.ofJson) := rfl
  have hagain := ofJson_toJson (canonical_of_ofJson hload)
  refine ⟨toJson (js.map Stmt.ofJson), ?_, ?_⟩
  · rw [normalize, hload]
    rfl
  · rw [normalize, hagain]
    rfl

/-- A tree with a second tag, the other word for a declaration, a type that cannot be
written, a truth value in quotes, no arguments and no statement. -/
def loose : Json :=
  .array
    [.object [("let", .object [("name", .string "x"), ("value",
      .object [("id", .string "y"), ("integer", .number (.whole 7))])])],
     .object [("function", .object [("name", .string "f"), ("type", .string "Any")])],
     .object [("return", .object [("boolean", .string "true")])],
     .object [("call", .object [("id", .string "g")])],
     .null]

def looseProgram : Program :=
  [.declare "x" (.symbol "y"), .prototype "f" ⟨[], .unknown⟩, .ret (some (.boolean true)),
   .call "g" [], .unrecognized .null]

theorem ofJson_loose : ofJson loose = .ok looseProgram := by
  have hvalue : Expr.ofJson (.object [("id", .string "y"), ("integer", .number (.whole 7))]) =
      .symbol "y" := Expr.ofJson_of_some (by rw [Expr.read?_eq]; rfl)
  have htruth : Expr.ofJson (.object [("boolean", .string "true")]) = .boolean true :=
    Expr.ofJson_of_some (by rw [Expr.read?_eq]; rfl)
  simp only [loose, ofJson, List.map_cons, List.map_nil, Stmt.ofJson, Stmt.read?_eq]
  show Except.ok [Stmt.declare "x" (Expr.ofJson _), _, Stmt.ret (some (Expr.ofJson _)), _, _] = _
  rw [hvalue, htruth]
  rfl

theorem normalize_idempotent_loose :
    ofJson loose = .ok looseProgram ∧ ofJson looseProgram.toJson = .ok looseProgram :=
  ⟨ofJson_loose, normalize_idempotent.1 loose looseProgram ofJson_loose⟩

end Program
end LittleC
