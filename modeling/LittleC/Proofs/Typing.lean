import LittleC.Lowering.Stmt
import LittleC.Proofs.Environment
import LittleC.Proofs.ExprText

/-! Which programs have a meaning. `HasType E e t` and `Accepts E s E'` are rules over a
flat environment, without text and without frames: an expression has a type where its
names stand for something fitting, and a statement takes the environment before it to the
one after it, a block working on a copy that is dropped at its end.

`lowering_exact`: lowering succeeds on exactly what the rules accept, with the type that
they give, and leaves a chain that stands for the environment they leave. -/
namespace LittleC

/-- Values of the two types may meet: neither is unknown, and they are the same unless
one of them is raw text. -/
def Ty.Fits (a b : Ty) : Prop :=
  a ≠ .unknown ∧ b ≠ .unknown ∧ (a = .any ∨ b = .any ∨ a = b)

theorem Ty.compatible_iff (a b : Ty) : a.compatible b = true ↔ a.Fits b := by
  cases a <;> cases b <;> simp [compatible, Fits]

/-! ### The rules -/

mutual
inductive HasType (E : Env) : Expr → Ty → Prop where
  | binary {op : BinaryOp} {l r : Expr} {a b : Ty} : HasType E l a → HasType E r b → a.Fits b →
      HasType E (.binary op l r) (if op.isComparison then .bool else a.unify b)
  | symbol {x : String} {s : Symbol} : E x = some s → HasType E (.symbol x) s.type
  | float {text : String} : HasType E (.float text) .f32
  | double {text : String} : HasType E (.double text) .f64
  | integer {text : String} : HasType E (.integer text) .i32
  | string {text : String} : HasType E (.string text) .string
  | boolean {b : Bool} : HasType E (.boolean b) .bool
  | call {f : String} {signature : Signature} {args : List Expr} :
      E f = some (.function signature) → args.length = signature.params.length →
      AllTyped E args → HasType E (.call f args) signature.result
  | assign {x : String} {v : Expr} {t a : Ty} : E x = some (.value t) → HasType E v a → a.Fits t →
      HasType E (.assign x v) t
  | raw {text : String} : HasType E (.raw text) .any
  | unrecognized {node : Json} : HasType E (.unrecognized node) .unknown

/-- Every expression has some type. -/
inductive AllTyped (E : Env) : List Expr → Prop where
  | nil : AllTyped E []
  | cons {e : Expr} {rest : List Expr} {t : Ty} : HasType E e t → AllTyped E rest →
      AllTyped E (e :: rest)
end

mutual
/-- The statement has a meaning in the first environment and leaves the second. -/
inductive Accepts : Env → Stmt → Env → Prop where
  | prototype {E : Env} {f : String} {signature : Signature} :
      Accepts E (.prototype f signature) (E.add f (.function signature))
  | function {E E' : Env} {f : String} {signature : Signature} {body : List Stmt} :
      AcceptsAll (E.enter f signature) body E' →
      Accepts E (.function f signature body) (E.add f (.function signature))
  | conditional {E E' : Env} {c : Expr} {t : Ty} {body : List Stmt} : HasType E c t →
      AcceptsAll E body E' → Accepts E (.conditional c body none) E
  | alternative {E E₁ E₂ : Env} {c : Expr} {t : Ty} {body otherwise : List Stmt} : HasType E c t →
      AcceptsAll E body E₁ → AcceptsAll E otherwise E₂ →
      Accepts E (.conditional c body (some otherwise)) E
  | loop {E E₁ E₂ : Env} {initial : Stmt} {c step : Expr} {t u : Ty} {body : List Stmt} :
      Accepts E initial E₁ → HasType E₁ c t → HasType E₁ step u → AcceptsAll E₁ body E₂ →
      Accepts E (.loop initial c step body) E
  | retNone {E : Env} : Accepts E (.ret none) E
  | ret {E : Env} {v : Expr} {t : Ty} : HasType E v t → Accepts E (.ret (some v)) E
  | declare {E : Env} {x : String} {v : Expr} {t : Ty} : HasType E v t →
      Accepts E (.declare x v) (E.add x (.value t))
  | call {E : Env} {f : String} {args : List Expr} {t : Ty} : HasType E (.call f args) t →
      Accepts E (.call f args) E
  | assign {E : Env} {x : String} {v : Expr} {t : Ty} : HasType E (.assign x v) t →
      Accepts E (.assign x v) E
  | raw {E : Env} {text : String} : Accepts E (.raw text) E
  | unrecognized {E : Env} {node : Json} : Accepts E (.unrecognized node) E

/-- Statements one after the other. -/
inductive AcceptsAll : Env → List Stmt → Env → Prop where
  | nil {E : Env} : AcceptsAll E [] E
  | cons {E E₁ E₂ : Env} {s : Stmt} {rest : List Stmt} : Accepts E s E₁ → AcceptsAll E₁ rest E₂ →
      AcceptsAll E (s :: rest) E₂
end

/-- A program that has a meaning, from nothing declared. -/
def Program.WellFormed (p : Program) : Prop :=
  ∃ E, AcceptsAll Names.empty p E

/-! ### Expressions -/

namespace Expr

theorem combine_eq_ok {op : BinaryOp} {left right : Expr} {l r v : Lowered}
    (h : combine op left right l r = .ok v) :
    l.type.Fits r.type ∧ v.type = if op.isComparison then .bool else l.type.unify r.type := by
  unfold combine at h
  split at h
  · rename_i hc
    exact ⟨(Ty.compatible_iff _ _).mp hc, (Except.ok.inj h) ▸ rfl⟩
  · cases h

/-- A call succeeds when there are as many arguments as parameters. -/
theorem apply_eq_ok_iff {callee : String} {signature : Signature} {args : List Lowered}
    {v : Lowered} : apply callee signature args = .ok v ↔
      args.length = signature.params.length ∧
        v = ⟨callee ++ "(" ++ Layout.commaList (args.map Lowered.code) ++ ")", signature.result⟩ := by
  unfold apply
  rcases Nat.lt_trichotomy args.length signature.params.length with h | h | h
  · have h₁ : args[signature.params.length]? = none := by simp; omega
    have h₂ : signature.params[args.length]? = some signature.params[args.length] := by simp [h]
    rw [h₁, h₂]
    simp only [reduceCtorEq, false_iff, not_and]
    omega
  · simp only [h, List.getElem?_eq_none_iff.mpr (Nat.le_refl _)]
    rw [List.getElem?_eq_none_iff.mpr (Nat.le_of_eq h)]
    simp [eq_comm]
  · have h₁ : args[signature.params.length]? = some args[signature.params.length] := by simp [h]
    rw [h₁]
    simp only [reduceCtorEq, false_iff, not_and]
    omega

theorem store_eq_ok {target : String} {type : Ty} {value v : Lowered}
    (h : store target type value = .ok v) : value.type.Fits type ∧ v.type = type := by
  unfold store at h
  split at h
  · rename_i hc
    exact ⟨(Ty.compatible_iff _ _).mp hc, (Except.ok.inj h) ▸ rfl⟩
  · cases h

mutual
/-- What is lowered has the type it is lowered with. -/
theorem lower_hasType {scope : Scope} : (e : Expr) → {v : Lowered} → e.lower scope = .ok v →
    HasType scope.lookup e v.type
  | binary op left right, v, h => by
    simp only [lower, bind_eq_ok] at h
    obtain ⟨l, hl, r, hr, h⟩ := h
    obtain ⟨hfits, htype⟩ := combine_eq_ok h
    rw [htype]
    exact .binary (lower_hasType left hl) (lower_hasType right hr) hfits
  | symbol name, v, h => by
    simp only [lower] at h
    split at h
    · rename_i s hs
      cases h
      exact .symbol hs
    · cases h
  | float _, v, h => (Except.ok.inj h) ▸ .float
  | double _, v, h => (Except.ok.inj h) ▸ .double
  | integer _, v, h => (Except.ok.inj h) ▸ .integer
  | string _, v, h => (Except.ok.inj h) ▸ .string
  | boolean _, v, h => (Except.ok.inj h) ▸ .boolean
  | call callee arguments, v, h => by
    simp only [lower] at h
    split at h
    · rename_i signature hf
      obtain ⟨args, hargs, h⟩ := bind_eq_ok.mp h
      obtain ⟨htyped, hlen⟩ := lowerAll_allTyped arguments hargs
      obtain ⟨harity, rfl⟩ := apply_eq_ok_iff.mp h
      exact .call (Scope.function?_eq_some_iff.mp hf) (hlen ▸ harity) htyped
    · cases h
  | assign target value, v, h => by
    simp only [lower] at h
    split at h
    · rename_i type hx
      obtain ⟨w, hw, h⟩ := bind_eq_ok.mp h
      obtain ⟨hfits, htype⟩ := store_eq_ok h
      rw [htype]
      exact .assign (Scope.assignable?_eq_some_iff.mp hx) (lower_hasType value hw) hfits
    · cases h
  | raw _, v, h => (Except.ok.inj h) ▸ .raw
  | unrecognized _, v, h => (Except.ok.inj h) ▸ .unrecognized

theorem lowerAll_allTyped {scope : Scope} : (es : List Expr) → {vs : List Lowered} →
    lowerAll scope es = .ok vs → AllTyped scope.lookup es ∧ vs.length = es.length
  | [], vs, h => (Except.ok.inj h) ▸ ⟨.nil, rfl⟩
  | e :: rest, vs, h => by
    simp only [lowerAll, bind_eq_ok] at h
    obtain ⟨v, hv, vs', hvs, h⟩ := h
    obtain ⟨htyped, hlen⟩ := lowerAll_allTyped rest hvs
    cases h
    exact ⟨.cons (lower_hasType e hv) htyped, by simp [hlen]⟩
end

mutual
/-- What has a type is lowered, to its text and with that type. -/
theorem lower_of_hasType {scope : Scope} {e : Expr} {t : Ty} :
    HasType scope.lookup e t → e.lower scope = .ok ⟨e.text, t⟩
  | .binary hl hr hfits => by
    rw [lower, lower_of_hasType hl, lower_of_hasType hr]
    show combine _ _ _ _ _ = _
    rw [combine, if_pos ((Ty.compatible_iff _ _).mpr hfits), text]
  | .symbol hs => by
    rw [lower, hs, text]
  | .float => by rw [lower, text]
  | .double => by rw [lower, text]
  | .integer => by rw [lower, text]
  | .string => by rw [lower, text]
  | .boolean => by rw [lower, text]
  | .call hf harity hargs => by
    obtain ⟨vs, hvs, hlen⟩ := lowerAll_of_allTyped hargs
    rw [lower, Scope.function?_eq_some_iff.mpr hf]
    show lowerAll scope _ >>= _ = _
    rw [hvs]
    refine apply_eq_ok_iff.mpr ⟨hlen.trans harity, ?_⟩
    rw [lowerAll_code _ hvs, text]
  | .assign hx hv hfits => by
    rw [lower, Scope.assignable?_eq_some_iff.mpr hx]
    show lower scope _ >>= _ = _
    rw [lower_of_hasType hv]
    show store _ _ _ = _
    rw [store, if_pos ((Ty.compatible_iff _ _).mpr hfits), text]
  | .raw => by rw [lower, text]
  | .unrecognized => by rw [lower, text]

theorem lowerAll_of_allTyped {scope : Scope} {es : List Expr} :
    AllTyped scope.lookup es → ∃ vs, lowerAll scope es = .ok vs ∧ vs.length = es.length
  | .nil => ⟨[], rfl, rfl⟩
  | .cons (e := e) (t := t) he hrest => by
    obtain ⟨vs, hvs, hlen⟩ := lowerAll_of_allTyped hrest
    refine ⟨⟨e.text, t⟩ :: vs, ?_, by rw [List.length_cons, hlen, List.length_cons]⟩
    rw [lowerAll, lower_of_hasType he]
    show lowerAll scope _ >>= _ = _
    rw [hvs]
    rfl
end

end Expr

/-! ### Statements -/

namespace Stmt

mutual
/-- What is lowered is accepted, and the chain after it stands for the environment after
it. -/
theorem lower_accepts {scope : Scope} {indent : String} : (s : Stmt) → {l : LoweredStmt} →
    s.lower scope indent = .ok l → Accepts scope.lookup s l.scope.lookup
  | prototype f signature, l, h => by
    cases h
    rw [Scope.lookup_bind_eq]
    exact .prototype
  | function f signature body, l, h => by
    simp only [lower, bind_eq_ok] at h
    obtain ⟨⟨codes, last⟩, hbody, h⟩ := h
    cases h
    have := lowerAll_accepts body hbody
    rw [Scope.lookup_enter] at this
    rw [Scope.lookup_bind_eq]
    exact .function this
  | conditional c body none, l, h => by
    simp only [lower, bind_eq_ok] at h
    obtain ⟨v, hc, ⟨codes, last⟩, hbody, h⟩ := h
    cases h
    have hthen := lowerAll_accepts body hbody
    rw [Scope.lookup_push_eq] at hthen
    exact .conditional (Expr.lower_hasType c hc) hthen
  | conditional c body (some otherwise), l, h => by
    simp only [lower, bind_eq_ok] at h
    obtain ⟨v, hc, ⟨codes, last⟩, hbody, ⟨codes', last'⟩, hother, h⟩ := h
    cases h
    have hthen := lowerAll_accepts body hbody
    have helse := lowerAll_accepts otherwise hother
    rw [Scope.lookup_push_eq] at hthen helse
    exact .alternative (Expr.lower_hasType c hc) hthen helse
  | loop initial c step body, l, h => by
    simp only [lower, bind_eq_ok] at h
    obtain ⟨i, hi, v, hc, w, hstep, ⟨codes, last⟩, hbody, h⟩ := h
    cases h
    have hinit := lower_accepts initial hi
    have hloop := lowerAll_accepts body hbody
    rw [Scope.lookup_push_eq] at hinit hloop
    exact .loop hinit (Expr.lower_hasType c hc) (Expr.lower_hasType step hstep) hloop
  | ret none, l, h => by
    cases h
    exact .retNone
  | ret (some value), l, h => by
    simp only [lower, bind_eq_ok] at h
    obtain ⟨v, hv, h⟩ := h
    cases h
    exact .ret (Expr.lower_hasType value hv)
  | declare x value, l, h => by
    simp only [lower, bind_eq_ok] at h
    obtain ⟨v, hv, h⟩ := h
    cases h
    rw [Scope.lookup_bind_eq]
    exact .declare (Expr.lower_hasType value hv)
  | call f args, l, h => by
    simp only [lower, bind_eq_ok] at h
    obtain ⟨v, hv, h⟩ := h
    cases h
    exact .call (Expr.lower_hasType _ hv)
  | assign x value, l, h => by
    simp only [lower, bind_eq_ok] at h
    obtain ⟨v, hv, h⟩ := h
    cases h
    exact .assign (Expr.lower_hasType _ hv)
  | raw _, l, h => by
    cases h
    exact .raw
  | unrecognized _, l, h => by
    cases h
    exact .unrecognized

theorem lowerAll_accepts {scope : Scope} {indent : String} : (ss : List Stmt) →
    {codes : List String} → {last : Scope} → lowerAll scope indent ss = .ok (codes, last) →
    AcceptsAll scope.lookup ss last.lookup
  | [], codes, last, h => by
    cases h
    exact .nil
  | s :: rest, codes, last, h => by
    simp only [lowerAll, bind_eq_ok] at h
    obtain ⟨first, hs, ⟨codes', last'⟩, hrest, h⟩ := h
    cases h
    exact .cons (lower_accepts s hs) (lowerAll_accepts rest hrest)
end

mutual
/-- What is accepted is lowered at every indentation. -/
theorem lower_of_accepts {E E' : Env} {s : Stmt} : Accepts E s E' → {scope : Scope} →
    scope.lookup = E → (indent : String) →
    ∃ l, s.lower scope indent = .ok l ∧ l.scope.lookup = E'
  | .prototype, _, hE, _ => ⟨_, rfl, by rw [Scope.lookup_bind_eq, hE]⟩
  | @Accepts.function _ _ f signature _ hbody, scope, hE, indent => by
    subst hE
    obtain ⟨codes, last, hcodes, _⟩ :=
      lowerAll_of_accepts hbody (scope.lookup_enter f signature) (Layout.nested indent)
    rw [lower, hcodes]
    exact ⟨_, rfl, scope.lookup_bind_eq f _⟩
  | .conditional hc hbody, scope, hE, indent => by
    subst hE
    obtain ⟨codes, last, hcodes, _⟩ :=
      lowerAll_of_accepts hbody scope.lookup_push_eq (Layout.nested indent)
    rw [lower, Expr.lower_of_hasType hc, hcodes]
    exact ⟨_, rfl, rfl⟩
  | .alternative hc hbody hother, scope, hE, indent => by
    subst hE
    obtain ⟨codes, last, hcodes, _⟩ :=
      lowerAll_of_accepts hbody scope.lookup_push_eq (Layout.nested indent)
    obtain ⟨codes', last', hcodes', _⟩ :=
      lowerAll_of_accepts hother scope.lookup_push_eq (Layout.nested indent)
    rw [lower, Expr.lower_of_hasType hc, hcodes, hcodes']
    exact ⟨_, rfl, rfl⟩
  | .loop hinit hc hstep hbody, scope, hE, indent => by
    subst hE
    obtain ⟨i, hi, hscope⟩ := lower_of_accepts hinit scope.lookup_push_eq ""
    subst hscope
    obtain ⟨codes, last, hcodes, _⟩ :=
      lowerAll_of_accepts hbody i.scope.lookup_push_eq (Layout.nested indent)
    rw [lower, hi]
    -- The header and the body are read in the chain that the initializer leaves.
    dsimp only [bind, Except.bind]
    rw [Expr.lower_of_hasType hc, Expr.lower_of_hasType hstep, hcodes]
    exact ⟨_, rfl, rfl⟩
  | .retNone, scope, hE, _ => ⟨_, rfl, hE⟩
  | .ret hv, scope, hE, indent => by
    subst hE
    rw [lower, Expr.lower_of_hasType hv]
    exact ⟨_, rfl, rfl⟩
  | @Accepts.declare _ x _ t hv, scope, hE, indent => by
    subst hE
    rw [lower, Expr.lower_of_hasType hv]
    exact ⟨_, rfl, scope.lookup_bind_eq x _⟩
  | .call hv, scope, hE, indent => by
    subst hE
    rw [lower, Expr.lower_of_hasType hv]
    exact ⟨_, rfl, rfl⟩
  | .assign hv, scope, hE, indent => by
    subst hE
    rw [lower, Expr.lower_of_hasType hv]
    exact ⟨_, rfl, rfl⟩
  | .raw, _, hE, _ => ⟨_, rfl, hE⟩
  | .unrecognized, _, hE, _ => ⟨_, rfl, hE⟩

theorem lowerAll_of_accepts {E E' : Env} {ss : List Stmt} : AcceptsAll E ss E' → {scope : Scope} →
    scope.lookup = E → (indent : String) →
    ∃ codes last, lowerAll scope indent ss = .ok (codes, last) ∧ last.lookup = E'
  | .nil, scope, hE, _ => ⟨[], scope, rfl, hE⟩
  | .cons hs hrest, scope, hE, indent => by
    obtain ⟨l, hl, hscope⟩ := lower_of_accepts hs hE indent
    obtain ⟨codes, last, hcodes, hlast⟩ := lowerAll_of_accepts hrest hscope indent
    refine ⟨l.code :: codes, last, ?_, hlast⟩
    rw [lowerAll, hl]
    show lowerAll _ _ _ >>= _ = _
    rw [hcodes]
    rfl
end

/-- A block is lowered exactly when its statements are accepted. -/
theorem lowerBlock_eq_ok_iff {scope : Scope} {indent : String} {body : List Stmt} :
    (∃ code, lowerBlock scope indent body = .ok code) ↔ ∃ E, AcceptsAll scope.lookup body E := by
  constructor
  · rintro ⟨code, h⟩
    simp only [lowerBlock, bind_eq_ok] at h
    obtain ⟨⟨codes, last⟩, hcodes, _⟩ := h
    exact ⟨_, lowerAll_accepts body hcodes⟩
  · rintro ⟨E, h⟩
    obtain ⟨codes, last, hcodes, _⟩ := lowerAll_of_accepts h rfl indent
    refine ⟨Layout.joinLines codes, ?_⟩
    rw [lowerBlock, hcodes]
    rfl

end Stmt

/-- **Lowering accepts exactly what has a meaning.** An expression is lowered with a type
when the rules give it that type, a statement when the rules accept it, with a chain that
stands for the environment after it, and a program when it is well formed. -/
theorem lowering_exact :
    (∀ (scope : Scope) (e : Expr) (t : Ty),
      (∃ code, e.lower scope = .ok ⟨code, t⟩) ↔ HasType scope.lookup e t) ∧
    (∀ (scope : Scope) (indent : String) (s : Stmt) (E : Env),
      (∃ l, s.lower scope indent = .ok l ∧ l.scope.lookup = E) ↔ Accepts scope.lookup s E) ∧
    (∀ p : Program, (∃ code, p.lower = .ok code) ↔ p.WellFormed) := by
  refine ⟨fun scope e t => ?_, fun scope indent s E => ?_, fun p => Stmt.lowerBlock_eq_ok_iff⟩
  · constructor
    · rintro ⟨code, h⟩
      exact Expr.lower_hasType e h
    · intro h
      exact ⟨_, Expr.lower_of_hasType h⟩
  · constructor
    · rintro ⟨l, h, rfl⟩
      exact Stmt.lower_accepts s h
    · intro h
      exact Stmt.lower_of_accepts h rfl indent

end LittleC
