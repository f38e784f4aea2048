import LittleC.Proofs.Provenance

/-! Programs with one body left open. A `BlockHole` leaves open the body of a function, a
branch or a loop, at any depth; `fill` puts a body there, and `site` is the chain and the
indentation that lowering comes to it with.

`BlockHole.surrounds`: what is written around the body is found without looking into it. The
reasons are that the chain behind a statement does not depend on its bodies
(`Stmt.after_fill`), and that a statement with a body is never without text, so that an empty
body does not change how the lines around it are joined. -/
namespace LittleC

/-! ### The chain behind a statement -/

namespace Stmt

/-- The chain that a statement leaves, if it is lowered. -/
def after (scope : Scope) : Stmt → Scope
  | prototype name signature => scope.bind name (.function signature)
  | function name signature _ => scope.bind name (.function signature)
  | declare name value => scope.bind name (.value (value.typeIn scope))
  | _ => scope

theorem lower_after {scope : Scope} {indent : String} {s : Stmt} {l : LoweredStmt}
    (h : s.lower scope indent = .ok l) : l.scope = s.after scope := by
  cases s with
  | prototype name signature =>
    cases h
    rfl
  | function name signature body =>
    simp only [lower, bind_eq_ok] at h
    obtain ⟨_, _, h⟩ := h
    cases h
    rfl
  | conditional condition body otherwise =>
    cases otherwise with
    | none =>
      simp only [lower, bind_eq_ok] at h
      obtain ⟨_, _, _, _, h⟩ := h
      cases h
      rfl
    | some otherwise =>
      simp only [lower, bind_eq_ok] at h
      obtain ⟨_, _, _, _, _, _, h⟩ := h
      cases h
      rfl
  | loop initial condition step body =>
    simp only [lower, bind_eq_ok] at h
    obtain ⟨_, _, _, _, _, _, _, _, h⟩ := h
    cases h
    rfl
  | ret value =>
    cases value with
    | none =>
      cases h
      rfl
    | some value =>
      simp only [lower, bind_eq_ok] at h
      obtain ⟨_, _, h⟩ := h
      cases h
      rfl
  | declare name value =>
    simp only [lower, bind_eq_ok] at h
    obtain ⟨v, hv, h⟩ := h
    cases h
    rw [after, Expr.typeIn_eq hv]
  | call callee arguments =>
    simp only [lower, bind_eq_ok] at h
    obtain ⟨_, _, h⟩ := h
    cases h
    rfl
  | assign target value =>
    simp only [lower, bind_eq_ok] at h
    obtain ⟨_, _, h⟩ := h
    cases h
    rfl
  | raw text =>
    cases h
    rfl
  | unrecognized node =>
    cases h
    rfl

/-- At another indentation a statement leaves the same chain. -/
theorem lower_reindent {scope : Scope} {indent : String} {s : Stmt} {l : LoweredStmt}
    (h : s.lower scope indent = .ok l) (indent' : String) :
    ∃ code, s.lower scope indent' = .ok ⟨code, l.scope⟩ := by
  obtain ⟨l', hl'⟩ := lower_indent h indent'
  refine ⟨l'.code, ?_⟩
  rw [lower_after h, ← lower_after hl', hl']

theorem lowerAll_reindent {scope : Scope} {indent : String} {ss : List Stmt}
    {codes : List String} {last : Scope} (h : lowerAll scope indent ss = .ok (codes, last))
    (indent' : String) : ∃ codes', lowerAll scope indent' ss = .ok (codes', last) := by
  induction ss generalizing scope codes with
  | nil =>
    cases h
    exact ⟨[], rfl⟩
  | cons s rest ih =>
    simp only [lowerAll, bind_eq_ok] at h
    obtain ⟨first, hs, ⟨codes', last'⟩, hrest, h⟩ := h
    cases h
    obtain ⟨code, hs'⟩ := lower_reindent hs indent'
    obtain ⟨codes'', hrest'⟩ := ih hrest
    refine ⟨code :: codes'', ?_⟩
    rw [lowerAll, hs']
    show lowerAll first.scope indent' rest >>= _ = _
    rw [hrest']
    rfl

/-- Statements are lowered behind others in the chain that those leave. -/
theorem lowerAll_append (scope : Scope) (indent : String) (a b : List Stmt) :
    lowerAll scope indent (a ++ b) = do
      let (codes, mid) ← lowerAll scope indent a
      let (codes', last) ← lowerAll mid indent b
      return (codes ++ codes', last) := by
  induction a generalizing scope with
  | nil => exact (bind_pure _).symm
  | cons s rest ih => simp only [List.cons_append, lowerAll, ih, bind_assoc, pure_bind]

/-- The text of a statement by itself. -/
def lowerCode (scope : Scope) (indent : String) (s : Stmt) : Except Error String := do
  let l ← s.lower scope indent
  return l.code

theorem lower_eq (scope : Scope) (indent : String) (s : Stmt) :
    s.lower scope indent = do
      let code ← s.lowerCode scope indent
      return ⟨code, s.after scope⟩ := by
  rw [lowerCode]
  cases h : s.lower scope indent with
  | error e => rfl
  | ok l =>
    show Except.ok l = .ok ⟨l.code, s.after scope⟩
    rw [← lower_after h]

/-- Whether the statement has a block of its own. -/
def hasBody : Stmt → Bool
  | function .. | conditional .. | loop .. => true
  | _ => false

/-- The text of a statement with a block is never empty, so it has lines of its own. -/
theorem lowerCode_ne_empty {scope : Scope} {indent code : String} {s : Stmt}
    (hs : s.hasBody = true) (h : s.lowerCode scope indent = .ok code) : code ≠ "" := by
  simp only [lowerCode, bind_eq_ok] at h
  obtain ⟨l, hl, h⟩ := h
  cases h
  cases s with
  | function name signature body =>
    simp only [lower, bind_eq_ok] at hl
    obtain ⟨_, _, hl⟩ := hl
    cases hl
    simp [functionCode]
  | conditional condition body otherwise =>
    cases otherwise with
    | none =>
      simp only [lower, bind_eq_ok] at hl
      obtain ⟨_, _, _, _, hl⟩ := hl
      cases hl
      simp
    | some otherwise =>
      simp only [lower, bind_eq_ok] at hl
      obtain ⟨_, _, _, _, _, _, hl⟩ := hl
      cases hl
      simp
  | loop initial condition step body =>
    simp only [lower, bind_eq_ok] at hl
    obtain ⟨_, _, _, _, _, _, _, _, hl⟩ := hl
    cases hl
    simp
  | _ => cases hs

end Stmt

/-! ### Fragments on lines -/

namespace Layout

/-- Lines in front of another one. -/
def leading (fragments : List String) : String :=
  String.join ((fragments.filter (· != "")).map (· ++ "\n"))

/-- Lines behind another one. -/
def trailing (fragments : List String) : String :=
  String.join ((fragments.filter (· != "")).map ("\n" ++ ·))

theorem intercalate_middle (sep x : String) (front back : List String) :
    sep.intercalate (front ++ x :: back) =
      String.join (front.map (· ++ sep)) ++ x ++ String.join (back.map (sep ++ ·)) := by
  induction front with
  | nil =>
    rw [List.nil_append]
    induction back generalizing x with
    | nil => simp
    | cons y back ih =>
      rw [String.intercalate_cons_cons, ih]
      simp [String.append_assoc]
  | cons y front ih =>
    rw [List.cons_append, String.intercalate_cons_of_ne_nil (by simp), ih]
    simp [String.append_assoc]

theorem infix_intercalate {sep item : String} {items : List String} (h : item ∈ items) :
    item.toList <:+: (sep.intercalate items).toList := by
  obtain ⟨front, back, rfl⟩ := List.append_of_mem h
  rw [intercalate_middle, String.toList_append, String.toList_append]
  exact List.infix_append _ _ _

/-- A fragment that is not empty stands between the lines before and behind it. -/
theorem joinLines_middle (front back : List String) {x : String} (hx : x ≠ "") :
    joinLines (front ++ x :: back) = leading front ++ x ++ trailing back := by
  rw [joinLines, List.filter_append, List.filter_cons_of_pos (by simpa using hx),
    intercalate_middle]
  rfl

end Layout

/-! ### Programs with a body left open -/

mutual
/-- A statement with one of the bodies in it left open. -/
inductive StmtHole where
  | function (name : String) (signature : Signature) (hole : BlockHole)
  | conditional (condition : Expr) (hole : BlockHole) (otherwise : Option (List Stmt))
  /-- In the second branch. -/
  | alternative (condition : Expr) (body : List Stmt) (hole : BlockHole)
  | loop (initial : Stmt) (condition step : Expr) (hole : BlockHole)
  /-- In the statement that a loop begins with. -/
  | initial (hole : StmtHole) (condition step : Expr) (body : List Stmt)

/-- A body that is left open itself, or in one of its statements. -/
inductive BlockHole where
  | here
  | within (before : List Stmt) (hole : StmtHole) (after : List Stmt)
end

mutual
def StmtHole.fill (body : List Stmt) : StmtHole → Stmt
  | .function name signature hole => .function name signature (hole.fill body)
  | .conditional condition hole otherwise => .conditional condition (hole.fill body) otherwise
  | .alternative condition first hole => .conditional condition first (some (hole.fill body))
  | .loop initial condition step hole => .loop initial condition step (hole.fill body)
  | .initial hole condition step rest => .loop (hole.fill body) condition step rest

def BlockHole.fill (body : List Stmt) : BlockHole → List Stmt
  | .here => body
  | .within before hole after => before ++ hole.fill body :: after
end

mutual
/-- The chain and the indentation that the body is lowered with, or the error that lowering
ends with before it comes to the body. -/
def StmtHole.site (scope : Scope) (indent : String) : StmtHole → Except Error (Scope × String)
  | .function name signature hole => hole.site (scope.enter name signature) (Layout.nested indent)
  | .conditional condition hole _ => do
    let _ ← condition.lower scope
    hole.site scope.push (Layout.nested indent)
  | .alternative condition first hole => do
    let _ ← condition.lower scope
    let _ ← Stmt.lowerBlock scope.push (Layout.nested indent) first
    hole.site scope.push (Layout.nested indent)
  | .loop initial condition step hole => do
    let i ← initial.lower scope.push ""
    let _ ← condition.lower i.scope
    let _ ← step.lower i.scope
    hole.site i.scope.push (Layout.nested indent)
  | .initial hole _ _ _ => hole.site scope.push ""

def BlockHole.site (scope : Scope) (indent : String) : BlockHole → Except Error (Scope × String)
  | .here => .ok (scope, indent)
  | .within before hole _ => do
    let (_, mid) ← Stmt.lowerAll scope indent before
    hole.site mid indent
end

/-- The chain behind a statement does not depend on a body in it. -/
theorem Stmt.after_fill (hole : StmtHole) (scope : Scope) (body : List Stmt) :
    (hole.fill body).after scope = (hole.fill []).after scope := by
  cases hole <;> rfl

theorem StmtHole.hasBody_fill (hole : StmtHole) (body : List Stmt) :
    (hole.fill body).hasBody = true := by
  cases hole <;> rfl

/-! ### The text around a body -/

/-- The text of what is around a site: what is lowered behind the body cannot see it, and is
put around its text. -/
def Surrounds (site : Except Error (Scope × String)) (f : List Stmt → Except Error String) : Prop :=
  ∃ rest : Except Error (String × String), ∀ body, f body = do
    let (scope, indent) ← site
    let text ← Stmt.lowerBlock scope indent body
    let (opening, closing) ← rest
    return opening ++ text ++ closing

namespace Surrounds

variable {α : Type} {site : Except Error (Scope × String)} {f f' : List Stmt → Except Error String}

theorem congr (h : Surrounds site f) (heq : ∀ body, f' body = f body) : Surrounds site f' :=
  funext heq ▸ h

theorem here (scope : Scope) (indent : String) :
    Surrounds (.ok (scope, indent)) (Stmt.lowerBlock scope indent) := by
  refine ⟨.ok ("", ""), fun body => ?_⟩
  show _ = Stmt.lowerBlock scope indent body >>= _
  cases Stmt.lowerBlock scope indent body with
  | error e => rfl
  | ok text =>
    show Except.ok text = .ok ("" ++ text ++ "")
    simp

/-- Something else is lowered first. -/
theorem first (x : Except Error α) {site : α → Except Error (Scope × String)}
    {f : α → List Stmt → Except Error String} (h : ∀ a, Surrounds (site a) (f a)) :
    Surrounds (x >>= site) (fun body => x >>= fun a => f a body) := by
  cases x with
  | error e => exact ⟨.error e, fun _ => rfl⟩
  | ok a => exact h a

/-- Something else is lowered behind it, and both texts are put together. -/
theorem wrap (h : Surrounds site f) (x : Except Error α) (opening closing : α → String) :
    Surrounds site fun body => do
      let text ← f body
      let a ← x
      return opening a ++ text ++ closing a := by
  obtain ⟨rest, hrest⟩ := h
  refine ⟨do
    let (inner, outer) ← rest
    let a ← x
    return (opening a ++ inner, outer ++ closing a), fun body => ?_⟩
  simp only [hrest, bind_assoc, pure_bind, String.append_assoc]

/-- Only text is put around it. -/
theorem enclose (h : Surrounds site f) (opening closing : String) :
    Surrounds site fun body => do
      let text ← f body
      return opening ++ text ++ closing :=
  h.wrap (.ok ()) (fun _ => opening) fun _ => closing

/-- All bodies that are lowered at a site are lowered in the frame, with the same text around
them, or all of them fail with the same error. -/
theorem uniform {scope : Scope} {indent : String} (h : Surrounds (.ok (scope, indent)) f) :
    (∃ e, ∀ body text, Stmt.lowerBlock scope indent body = .ok text → f body = .error e) ∨
      ∃ opening closing, ∀ body text, Stmt.lowerBlock scope indent body = .ok text →
        f body = .ok (opening ++ text ++ closing) := by
  obtain ⟨rest, hrest⟩ := h
  cases rest with
  | error e =>
    refine .inl ⟨e, fun body text htext => ?_⟩
    rw [hrest]
    show Stmt.lowerBlock scope indent body >>= _ = _
    rw [htext]
    rfl
  | ok r =>
    refine .inr ⟨r.1, r.2, fun body text htext => ?_⟩
    rw [hrest]
    show Stmt.lowerBlock scope indent body >>= _ = _
    rw [htext]
    rfl

end Surrounds

namespace Stmt

/-! The text of each statement with a block, in terms of the text of the block. -/

theorem lowerCode_function (scope : Scope) (indent name : String) (signature : Signature)
    (body : List Stmt) :
    (function name signature body).lowerCode scope indent = do
      let text ← lowerBlock (scope.enter name signature) (Layout.nested indent) body
      return functionCode indent name signature text := by
  simp only [lowerCode, lower, lowerBlock, bind_assoc, pure_bind]

theorem lowerCode_conditional (scope : Scope) (indent : String) (condition : Expr)
    (body : List Stmt) :
    (conditional condition body none).lowerCode scope indent = do
      let c ← condition.lower scope
      let text ← lowerBlock scope.push (Layout.nested indent) body
      return indent ++ "if(" ++ c.code ++ ")" ++ Layout.braced indent text := by
  simp only [lowerCode, lower, lowerBlock, bind_assoc, pure_bind]

theorem lowerCode_alternative (scope : Scope) (indent : String) (condition : Expr)
    (body otherwise : List Stmt) :
    (conditional condition body (some otherwise)).lowerCode scope indent = do
      let c ← condition.lower scope
      let text ← lowerBlock scope.push (Layout.nested indent) body
      let text' ← lowerBlock scope.push (Layout.nested indent) otherwise
      return indent ++ "if(" ++ c.code ++ ")" ++ Layout.braced indent text ++ " else" ++
        Layout.braced indent text' := by
  simp only [lowerCode, lower, lowerBlock, bind_assoc, pure_bind]

theorem lowerCode_loop (scope : Scope) (indent : String) (initial : Stmt) (condition step : Expr)
    (body : List Stmt) :
    (loop initial condition step body).lowerCode scope indent = do
      let i ← initial.lower scope.push ""
      let c ← condition.lower i.scope
      let s ← step.lower i.scope
      let text ← lowerBlock i.scope.push (Layout.nested indent) body
      return indent ++ "for(" ++ i.code ++ " " ++ c.code ++ "; " ++ s.code ++ ")" ++
        Layout.braced indent text := by
  simp only [lowerCode, lower, lowerBlock, bind_assoc, pure_bind]

/-! The text of each statement with one expression. -/

theorem lowerCode_ret (scope : Scope) (indent : String) (value : Expr) :
    (ret (some value)).lowerCode scope indent = do
      let v ← value.lower scope
      return indent ++ "return " ++ v.code ++ ";" := by
  simp only [lowerCode, lower, bind_assoc, pure_bind]

theorem lowerCode_declare (scope : Scope) (indent name : String) (value : Expr) :
    (declare name value).lowerCode scope indent = do
      let v ← value.lower scope
      return indent ++ v.type.spelling ++ " " ++ name ++ " = " ++ v.code ++ ";" := by
  simp only [lowerCode, lower, bind_assoc, pure_bind]

theorem lowerCode_call (scope : Scope) (indent callee : String) (arguments : List Expr) :
    (call callee arguments).lowerCode scope indent = do
      let v ← (Expr.call callee arguments).lower scope
      return indent ++ v.code ++ ";" := by
  simp only [lowerCode, lower, bind_assoc, pure_bind]

theorem lowerCode_assign (scope : Scope) (indent target : String) (value : Expr) :
    (assign target value).lowerCode scope indent = do
      let v ← (Expr.assign target value).lower scope
      return indent ++ v.code ++ ";" := by
  simp only [lowerCode, lower, bind_assoc, pure_bind]

/-- A statement with a block among others stands on lines of its own between theirs. -/
theorem lowerBlock_middle (scope : Scope) (indent : String) (before : List Stmt) (s : Stmt)
    (behind : List Stmt) (hs : s.hasBody = true) :
    lowerBlock scope indent (before ++ s :: behind) = do
      let (codes, mid) ← lowerAll scope indent before
      let code ← s.lowerCode mid indent
      let (codes', _) ← lowerAll (s.after mid) indent behind
      return Layout.leading codes ++ code ++ Layout.trailing codes' := by
  rw [lowerBlock, lowerAll_append]
  dsimp only [bind, Except.bind]
  cases lowerAll scope indent before with
  | error e => rfl
  | ok r =>
    dsimp only
    rw [lowerAll, lower_eq]
    dsimp only [bind, Except.bind]
    cases hcode : s.lowerCode r.2 indent with
    | error e => rfl
    | ok code =>
      dsimp only [pure, Except.pure]
      cases lowerAll (s.after r.2) indent behind with
      | error e => rfl
      | ok r' =>
        dsimp only
        rw [Layout.joinLines_middle r.1 r'.1 (lowerCode_ne_empty hs hcode)]

end Stmt

mutual
theorem StmtHole.surrounds (scope : Scope) (indent : String) : (hole : StmtHole) →
    Surrounds (hole.site scope indent) fun body => (hole.fill body).lowerCode scope indent
  | .function name signature hole => by
    refine ((hole.surrounds (scope.enter name signature) (Layout.nested indent)).enclose
      (indent ++ signature.result.spelling ++ " " ++ name ++ "(" ++
        Stmt.paramList signature.params ++ ") \x7b\n") ("\n" ++ indent ++ "\x7d\n")).congr fun body => ?_
    rw [StmtHole.fill, Stmt.lowerCode_function]
    simp only [Stmt.functionCode, Layout.braced, String.append_assoc]
    rfl
  | .conditional condition hole none => by
    refine (Surrounds.first (condition.lower scope) fun c =>
      (hole.surrounds scope.push (Layout.nested indent)).enclose
        (indent ++ "if(" ++ c.code ++ ") \x7b\n") ("\n" ++ indent ++ "\x7d")).congr fun body => ?_
    rw [StmtHole.fill, Stmt.lowerCode_conditional]
    simp only [Layout.braced, String.append_assoc]
    rfl
  | .conditional condition hole (some otherwise) => by
    refine (Surrounds.first (condition.lower scope) fun c =>
      (hole.surrounds scope.push (Layout.nested indent)).wrap
        (Stmt.lowerBlock scope.push (Layout.nested indent) otherwise)
        (fun _ => indent ++ "if(" ++ c.code ++ ") \x7b\n")
        (fun text => "\n" ++ indent ++ "\x7d else" ++ Layout.braced indent text)).congr fun body => ?_
    rw [StmtHole.fill, Stmt.lowerCode_alternative]
    simp only [Layout.braced, String.append_assoc]
    rfl
  | .alternative condition first hole => by
    refine (Surrounds.first (condition.lower scope) fun c =>
      .first (Stmt.lowerBlock scope.push (Layout.nested indent) first) fun text =>
        (hole.surrounds scope.push (Layout.nested indent)).enclose
          (indent ++ "if(" ++ c.code ++ ")" ++ Layout.braced indent text ++ " else \x7b\n")
          ("\n" ++ indent ++ "\x7d")).congr fun body => ?_
    rw [StmtHole.fill, Stmt.lowerCode_alternative]
    simp only [Layout.braced, String.append_assoc]
    rfl
  | .loop initial condition step hole => by
    refine (Surrounds.first (initial.lower scope.push "") fun i =>
      .first (condition.lower i.scope) fun c => .first (step.lower i.scope) fun s =>
        (hole.surrounds i.scope.push (Layout.nested indent)).enclose
          (indent ++ "for(" ++ i.code ++ " " ++ c.code ++ "; " ++ s.code ++ ") \x7b\n")
          ("\n" ++ indent ++ "\x7d")).congr fun body => ?_
    rw [StmtHole.fill, Stmt.lowerCode_loop]
    simp only [Layout.braced, String.append_assoc]
    rfl
  | .initial hole condition step rest => by
    -- The rest of the loop is lowered in the chain that any body leaves.
    obtain ⟨inner, hinner⟩ : ∃ inner, ∀ body, (hole.fill body).after scope.push = inner :=
      ⟨_, Stmt.after_fill hole scope.push⟩
    refine ((hole.surrounds scope.push "").wrap (do
      let c ← condition.lower inner
      let s ← step.lower inner
      let text ← Stmt.lowerBlock inner.push (Layout.nested indent) rest
      return " " ++ c.code ++ "; " ++ s.code ++ ")" ++ Layout.braced indent text)
      (fun _ => indent ++ "for(") id).congr fun body => ?_
    rw [StmtHole.fill, Stmt.lowerCode_loop, Stmt.lower_eq, hinner]
    simp only [bind_assoc, pure_bind, String.append_assoc, id]

theorem BlockHole.surrounds (scope : Scope) (indent : String) : (hole : BlockHole) →
    Surrounds (hole.site scope indent) fun body => Stmt.lowerBlock scope indent (hole.fill body)
  | .here => .here scope indent
  | .within before hole behind => by
    refine (Surrounds.first (Stmt.lowerAll scope indent before) fun r =>
      (hole.surrounds r.2 indent).wrap
        (Stmt.lowerAll ((hole.fill []).after r.2) indent behind)
        (fun _ => Layout.leading r.1) (fun r' => Layout.trailing r'.1)).congr fun body => ?_
    rw [BlockHole.fill, Stmt.lowerBlock_middle _ _ _ _ _ (hole.hasBody_fill body)]
    simp only [fun mid => Stmt.after_fill hole mid body]
end

end LittleC
