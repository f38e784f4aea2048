import LittleC.Lowering.Trace
import LittleC.Proofs.CBlock
import LittleC.Proofs.Typing

/-! Which declaration a name is resolved to. A scope keeps of a declaration only what the
name stands for. A `Chain` is a scope that also keeps which declaration that was, and
`Stmt.account` follows lowering with a chain in the place of the scope: it gives the
statement of C that is written, and every name that is looked up with the chain it is
looked up in.

`Stmt.lower_account`: the text that lowering gives is the text of that statement, and the
scope it leaves is the chain without its sites. `Stmt.trace_account`: the names are those
that lowering reaches, each in the scope it is reached with. -/
namespace LittleC
open C (Site Item)

/-- A declaration: what the name stands for, the number of the declaration, and whether C
has one for it too. -/
structure Declaration where
  symbol : Symbol
  site : Site
  written : Bool
  deriving DecidableEq

/-- A chain of frames, the innermost first, with the declarations of its names. -/
structure Chain where
  head : List (String × Declaration)
  outer : List (List (String × Declaration))

namespace Chain

def root : Chain := ⟨[], []⟩

def frames (σ : Chain) : List (List (String × Declaration)) :=
  σ.head :: σ.outer

/-- What the nearest frame with the name says. -/
def lookup (σ : Chain) (name : String) : Option Declaration :=
  σ.frames.findSome? (List.lookup name)

def bind (σ : Chain) (name : String) (d : Declaration) : Chain :=
  ⟨Assoc.insert name d σ.head, σ.outer⟩

def pushFrame (σ : Chain) (declarations : List (String × Declaration)) : Chain :=
  ⟨Assoc.ofPairs declarations, σ.frames⟩

def push (σ : Chain) : Chain :=
  σ.pushFrame []

/-- The chain of a function's body, whose parameters are numbered after it. -/
def enter (σ : Chain) (site : Site) (name : String) (signature : Signature) : Chain :=
  σ.pushFrame ((name, ⟨.function signature, site, true⟩) ::
    (signature.params.zipIdx (site + 1)).map fun p => (p.1.name, ⟨.value p.1.type, p.2, true⟩))

/-! ### Without the sites -/

/-- What the names of a frame stand for. -/
def symbols (frame : List (String × Declaration)) : Frame :=
  frame.map fun entry => (entry.1, entry.2.symbol)

/-- The scope of a chain. -/
def scope (σ : Chain) : Scope :=
  ⟨symbols σ.head, σ.outer.map symbols⟩

theorem symbols_insert (name : String) (d : Declaration) (frame : List (String × Declaration)) :
    symbols (Assoc.insert name d frame) = Assoc.insert name d.symbol (symbols frame) := by
  unfold symbols
  induction frame with
  | nil => rfl
  | cons entry rest ih =>
    simp only [Assoc.insert, List.map_cons]
    split
    · rfl
    · split
      · rfl
      · rw [List.map_cons, ih]

theorem symbols_insertAll (pairs frame : List (String × Declaration)) :
    symbols (Assoc.insertAll frame pairs) = Assoc.insertAll (symbols frame) (symbols pairs) := by
  induction pairs generalizing frame with
  | nil => rfl
  | cons pair rest ih =>
    show symbols (Assoc.insertAll (Assoc.insert pair.1 pair.2 frame) rest) = _
    rw [ih, symbols_insert]
    rfl

theorem lookup_symbols (frame : List (String × Declaration)) (name : String) :
    (symbols frame).lookup name = (frame.lookup name).map Declaration.symbol := by
  unfold symbols
  induction frame with
  | nil => rfl
  | cons entry rest ih =>
    obtain ⟨key, d⟩ := entry
    rw [List.map_cons, List.lookup_cons, List.lookup_cons]
    cases name == key
    · exact ih
    · rfl

@[simp] theorem scope_root : root.scope = .root := rfl

@[simp] theorem scope_bind (σ : Chain) (name : String) (d : Declaration) :
    (σ.bind name d).scope = σ.scope.bind name d.symbol := by
  simp only [scope, bind, Scope.bind, symbols_insert]

@[simp] theorem scope_push (σ : Chain) : σ.push.scope = σ.scope.push := rfl

@[simp] theorem scope_enter (σ : Chain) (site : Site) (name : String) (signature : Signature) :
    (σ.enter site name signature).scope = σ.scope.enter name signature := by
  have hparams : symbols ((signature.params.zipIdx (site + 1)).map fun p =>
      (p.1.name, ⟨.value p.1.type, p.2, true⟩)) =
      signature.params.map fun p => (p.name, .value p.type) := by
    calc _ = ((signature.params.zipIdx (site + 1)).map Prod.fst).map fun p =>
          (p.name, Symbol.value p.type) := by rw [symbols, List.map_map, List.map_map]; rfl
      _ = _ := by rw [List.zipIdx_map_fst]
  show (⟨symbols (Assoc.insertAll [] (_ :: _)), _⟩ : Scope) = _
  rw [symbols_insertAll]
  show (⟨Assoc.insertAll [] ((name, .function signature) :: symbols _), _⟩ : Scope) = _
  rw [hparams]
  rfl

/-- A scope says of a name what its declaration says. -/
theorem lookup_scope (σ : Chain) (name : String) :
    σ.scope.lookup name = (σ.lookup name).map Declaration.symbol := by
  show (σ.frames.map symbols).findSome? (List.lookup name) = _
  unfold lookup
  induction σ.frames with
  | nil => rfl
  | cons frame rest ih =>
    rw [List.map_cons, List.findSome?_cons, List.findSome?_cons, lookup_symbols, ih]
    cases frame.lookup name <;> rfl

/-! ### The flat view -/

theorem lookup_bind (σ : Chain) (name : String) (d : Declaration) :
    (σ.bind name d).lookup = Names.add σ.lookup name d := by
  funext other
  show (((Assoc.insert name d σ.head) :: σ.outer).findSome? (List.lookup other)) = _
  rw [List.findSome?_cons, Assoc.lookup_insert, Names.add, lookup, frames, List.findSome?_cons]
  by_cases h : other = name
  · rw [if_pos h, if_pos h]
  · rw [if_neg h, if_neg h]

theorem lookup_enter (σ : Chain) (site : Site) (name : String) (signature : Signature) :
    (σ.enter site name signature).lookup =
      (Names.add σ.lookup name ⟨.function signature, site, true⟩).addAll
        ((signature.params.zipIdx (site + 1)).map fun p =>
          (p.1.name, ⟨.value p.1.type, p.2, true⟩)) := by
  rw [← Names.addAll, ← Names.lookup_ofPairs]
  funext other
  show ((Assoc.ofPairs _ :: σ.frames).findSome? (List.lookup other)) = _
  rw [List.findSome?_cons]
  cases (Assoc.ofPairs _).lookup other <;> rfl

end Chain

/-- The type that an expression is lowered with. -/
def Expr.typeIn (scope : Scope) (e : Expr) : Ty :=
  match e.lower scope with
  | .ok v => v.type
  | .error _ => .unknown

/-- A name that lowering looks up, and the chain it is looked up in. Inside the
initializer of a declaration that C has too, the name that is being declared. -/
structure Use where
  name : String
  chain : Chain
  declares : Option String

/-- The declaration that a name is resolved to. -/
def Use.declaration (u : Use) : Option Declaration :=
  u.chain.lookup u.name

/-- The names of an expression that is lowered with a chain. -/
def Chain.uses (σ : Chain) (declares : Option String) (e : Expr) : List Use :=
  e.names.map fun name => ⟨name, σ, declares⟩

/-- What lowering does: what is written, the chain that is left, the next free site, and
the names that were looked up, in order. -/
structure Account (α : Type) where
  written : α
  chain : Chain
  next : Site
  uses : List Use

namespace Stmt

mutual
/-- What lowering a statement does, from a chain and the next free site. -/
def account (σ : Chain) (n : Site) : Stmt → Account Item
  | prototype name signature =>
    ⟨.absent, σ.bind name ⟨.function signature, n, false⟩, n + 1, []⟩
  | function name signature body =>
    let inner := accountAll (σ.enter n name signature) (n + 1 + signature.params.length) body
    ⟨.function n name signature.result (signature.params.zipIdx (n + 1)) inner.written,
      σ.bind name ⟨.function signature, n, true⟩, inner.next, inner.uses⟩
  | conditional condition body none =>
    let inner := accountAll σ.push n body
    ⟨.conditional condition inner.written none, σ, inner.next, σ.uses none condition ++ inner.uses⟩
  | conditional condition body (some otherwise) =>
    let inner := accountAll σ.push n body
    let other := accountAll σ.push inner.next otherwise
    ⟨.conditional condition inner.written (some other.written), σ, other.next,
      σ.uses none condition ++ (inner.uses ++ other.uses)⟩
  | loop initial condition step body =>
    let first := account σ.push n initial
    let inner := accountAll first.chain.push first.next body
    ⟨.loop first.written condition step inner.written, σ, inner.next,
      first.uses ++ (first.chain.uses none condition ++
        (first.chain.uses none step ++ inner.uses))⟩
  | ret none => ⟨.ret none, σ, n, []⟩
  | ret (some value) => ⟨.ret (some value), σ, n, σ.uses none value⟩
  | declare name value =>
    let type := value.typeIn σ.scope
    ⟨.declare n type name value, σ.bind name ⟨.value type, n, type.isSpelled⟩, n + 1,
      σ.uses (if type.isSpelled then some name else none) value⟩
  | call callee arguments =>
    ⟨.effect (.call callee arguments), σ, n, σ.uses none (.call callee arguments)⟩
  | assign target value => ⟨.effect (.assign target value), σ, n, σ.uses none (.assign target value)⟩
  | raw text => ⟨.verbatim (text ++ "\n"), σ, n, []⟩
  | unrecognized node => ⟨.verbatim ("// UNK: " ++ node.compact), σ, n, []⟩

def accountAll (σ : Chain) (n : Site) : List Stmt → Account (List Item)
  | [] => ⟨[], σ, n, []⟩
  | s :: rest =>
    let first := account σ n s
    let others := accountAll first.chain first.next rest
    ⟨first.written :: others.written, others.chain, others.next, first.uses ++ others.uses⟩
end

end Stmt

/-- What lowering a program does. -/
def Program.account (p : Program) : Account (List Item) :=
  Stmt.accountAll .root 0 p

theorem Expr.typeIn_eq {scope : Scope} {e : Expr} {v : Lowered} (h : e.lower scope = .ok v) :
    e.typeIn scope = v.type := by
  rw [typeIn, h]

namespace Stmt

mutual
/-- The text of a statement is that of its account, and so is the scope after it. -/
theorem lower_account {σ : Chain} {indent : String} : (s : Stmt) → {l : LoweredStmt} →
    s.lower σ.scope indent = .ok l → (n : Site) →
    l.code = (s.account σ n).written.text indent ∧ l.scope = (s.account σ n).chain.scope
  | prototype name signature, l, h, n => by
    cases h
    rw [account]
    exact ⟨rfl, (σ.scope_bind name ⟨.function signature, n, false⟩).symm⟩
  | function name signature body, l, h, n => by
    simp only [lower, bind_eq_ok, ← σ.scope_enter n] at h
    obtain ⟨⟨codes, last⟩, hbody, h⟩ := h
    cases h
    obtain ⟨rfl, _⟩ := lowerAll_account body hbody (n + 1 + signature.params.length)
    rw [account]
    refine ⟨?_, (σ.scope_bind name ⟨.function signature, n, true⟩).symm⟩
    rw [Item.text, List.zipIdx_map_fst]
  | conditional condition body none, l, h, n => by
    simp only [lower, bind_eq_ok, ← σ.scope_push] at h
    obtain ⟨c, hc, ⟨codes, last⟩, hbody, h⟩ := h
    cases h
    obtain ⟨rfl, _⟩ := lowerAll_account body hbody n
    rw [account, Item.text, Expr.lower_code condition hc]
    exact ⟨rfl, rfl⟩
  | conditional condition body (some otherwise), l, h, n => by
    simp only [lower, bind_eq_ok, ← σ.scope_push] at h
    obtain ⟨c, hc, ⟨codes, last⟩, hbody, ⟨codes', last'⟩, hother, h⟩ := h
    cases h
    obtain ⟨rfl, _⟩ := lowerAll_account body hbody n
    obtain ⟨rfl, _⟩ := lowerAll_account otherwise hother (accountAll σ.push n body).next
    rw [account, Item.text, Expr.lower_code condition hc]
    exact ⟨rfl, rfl⟩
  | loop initial condition step body, l, h, n => by
    simp only [lower, bind_eq_ok, ← σ.scope_push] at h
    obtain ⟨⟨code, after⟩, hi, c, hc, v, hv, ⟨codes, last⟩, hbody, h⟩ := h
    cases h
    obtain ⟨rfl, rfl⟩ := lower_account initial hi n
    rw [← Chain.scope_push] at hbody
    obtain ⟨rfl, _⟩ := lowerAll_account body hbody (account σ.push n initial).next
    rw [account, Item.text, Expr.lower_code condition hc, Expr.lower_code step hv]
    exact ⟨rfl, rfl⟩
  | ret none, l, h, n => by
    cases h
    rw [account]
    exact ⟨rfl, rfl⟩
  | ret (some value), l, h, n => by
    simp only [lower, bind_eq_ok] at h
    obtain ⟨v, hv, h⟩ := h
    cases h
    rw [account, Item.text, Expr.lower_code value hv]
    exact ⟨rfl, rfl⟩
  | declare name value, l, h, n => by
    simp only [lower, bind_eq_ok] at h
    obtain ⟨v, hv, h⟩ := h
    cases h
    rw [account, Item.text, Expr.lower_code value hv, Expr.typeIn_eq hv]
    exact ⟨rfl, (σ.scope_bind name ⟨.value v.type, n, v.type.isSpelled⟩).symm⟩
  | call callee arguments, l, h, n => by
    simp only [lower, bind_eq_ok] at h
    obtain ⟨v, hv, h⟩ := h
    cases h
    rw [account, Item.text, Expr.lower_code _ hv]
    exact ⟨rfl, rfl⟩
  | assign target value, l, h, n => by
    simp only [lower, bind_eq_ok] at h
    obtain ⟨v, hv, h⟩ := h
    cases h
    rw [account, Item.text, Expr.lower_code _ hv]
    exact ⟨rfl, rfl⟩
  | raw text, l, h, n => by
    cases h
    rw [account, Item.text]
    exact ⟨String.append_assoc, rfl⟩
  | unrecognized node, l, h, n => by
    cases h
    rw [account, Item.text]
    exact ⟨String.append_assoc, rfl⟩

theorem lowerAll_account {σ : Chain} {indent : String} : (ss : List Stmt) → {codes : List String} →
    {last : Scope} → lowerAll σ.scope indent ss = .ok (codes, last) → (n : Site) →
    codes = Item.textAll indent (accountAll σ n ss).written ∧
      last = (accountAll σ n ss).chain.scope
  | [], codes, last, h, n => by
    cases h
    rw [accountAll]
    exact ⟨rfl, rfl⟩
  | s :: rest, codes, last, h, n => by
    simp only [lowerAll, bind_eq_ok] at h
    obtain ⟨⟨code, after⟩, hs, ⟨codes', last'⟩, hrest, h⟩ := h
    cases h
    obtain ⟨rfl, rfl⟩ := lower_account s hs n
    obtain ⟨rfl, rfl⟩ := lowerAll_account rest hrest (account σ n s).next
    rw [accountAll, Item.textAll]
    exact ⟨rfl, rfl⟩
end

end Stmt

/-! ### The names that lowering reaches -/

/-- The name that a visit looks up, and the scope it is looked up in. -/
def Visit.lookedUp : Visit → List (Scope × String)
  | .expr scope (.symbol name) => [(scope, name)]
  | .expr scope (.call callee _) => [(scope, callee)]
  | .expr scope (.assign target _) => [(scope, target)]
  | _ => []

/-- The name of a use, and the scope it is looked up in. -/
def Use.lookedUp (u : Use) : Scope × String :=
  (u.chain.scope, u.name)

theorem Chain.map_uses (σ : Chain) (declares : Option String) (e : Expr) :
    (σ.uses declares e).map Use.lookedUp = e.names.map fun name => (σ.scope, name) := by
  rw [uses, List.map_map]
  rfl

namespace Expr

mutual
theorem trace_names {scope : Scope} : (e : Expr) → {v : Lowered} → e.lower scope = .ok v →
    (e.trace scope).flatMap Visit.lookedUp = e.names.map fun name => (scope, name)
  | binary op left right, v, h => by
    simp only [lower, bind_eq_ok] at h
    obtain ⟨l, hl, r, hr, _⟩ := h
    rw [trace, names, hl]
    simp only [Visit.thenIf, List.flatMap_cons, List.flatMap_append, List.map_append,
      trace_names left hl, trace_names right hr]
    rfl
  | symbol name, v, h => rfl
  | float _, v, h => rfl
  | double _, v, h => rfl
  | integer _, v, h => rfl
  | string _, v, h => rfl
  | boolean _, v, h => rfl
  | call callee arguments, v, h => by
    simp only [lower] at h
    split at h
    · rename_i signature hf
      obtain ⟨args, hargs, _⟩ := bind_eq_ok.mp h
      rw [trace, names, hf, Option.isSome_some, if_pos rfl, List.flatMap_cons,
        traceAll_names arguments hargs]
      rfl
    · cases h
  | assign target value, v, h => by
    simp only [lower] at h
    split at h
    · rename_i type ht
      obtain ⟨w, hw, _⟩ := bind_eq_ok.mp h
      rw [trace, names, ht, Option.isSome_some, if_pos rfl, List.flatMap_cons, trace_names value hw]
      rfl
    · cases h
  | raw _, v, h => rfl
  | unrecognized _, v, h => rfl

theorem traceAll_names {scope : Scope} : (es : List Expr) → {vs : List Lowered} →
    lowerAll scope es = .ok vs →
    (traceAll scope es).flatMap Visit.lookedUp = (namesAll es).map fun name => (scope, name)
  | [], vs, h => rfl
  | e :: rest, vs, h => by
    simp only [lowerAll, bind_eq_ok] at h
    obtain ⟨v, hv, vs', hvs, _⟩ := h
    rw [traceAll, namesAll, hv]
    simp only [Visit.thenIf, List.flatMap_append, List.map_append, trace_names e hv,
      traceAll_names rest hvs]
end

end Expr

namespace Stmt

/-- The indentation has no part in whether a statement is lowered. -/
theorem lower_indent {scope : Scope} {indent : String} {s : Stmt} {l : LoweredStmt}
    (h : s.lower scope indent = .ok l) (indent' : String) : ∃ l', s.lower scope indent' = .ok l' := by
  obtain ⟨l', hl', _⟩ := lower_of_accepts (lower_accepts s h) rfl indent'
  exact ⟨l', hl'⟩

theorem lowerAll_indent {scope : Scope} {indent : String} {ss : List Stmt}
    {r : List String × Scope} (h : lowerAll scope indent ss = .ok r) (indent' : String) :
    ∃ r', lowerAll scope indent' ss = .ok r' := by
  obtain ⟨codes, last, hr, _⟩ := lowerAll_of_accepts (lowerAll_accepts ss h) rfl indent'
  exact ⟨_, hr⟩

mutual
theorem trace_account {σ : Chain} {indent : String} : (s : Stmt) → {l : LoweredStmt} →
    s.lower σ.scope indent = .ok l → (n : Site) →
    (s.trace σ.scope).flatMap Visit.lookedUp = (s.account σ n).uses.map Use.lookedUp
  | prototype name signature, l, h, n => rfl
  | function name signature body, l, h, n => by
    simp only [lower, bind_eq_ok, ← σ.scope_enter n] at h
    obtain ⟨⟨codes, last⟩, hbody, _⟩ := h
    rw [trace, account, List.flatMap_cons, ← σ.scope_enter n, traceAll_account body hbody]
    rfl
  | conditional condition body none, l, h, n => by
    simp only [lower, bind_eq_ok, ← σ.scope_push] at h
    obtain ⟨c, hc, ⟨codes, last⟩, hbody, _⟩ := h
    rw [trace, account, List.flatMap_cons, List.flatMap_append, Expr.trace_names condition hc, hc,
      List.map_append, σ.map_uses]
    simp only [Visit.thenIf, List.flatMap_cons]
    rw [← σ.scope_push, traceAll_account body hbody n]
    rfl
  | conditional condition body (some otherwise), l, h, n => by
    simp only [lower, bind_eq_ok, ← σ.scope_push] at h
    obtain ⟨c, hc, ⟨codes, last⟩, hbody, ⟨codes', last'⟩, hother, _⟩ := h
    obtain ⟨_, hbody'⟩ := lowerAll_indent hbody ""
    rw [trace, account, List.flatMap_cons, List.flatMap_append, Expr.trace_names condition hc, hc,
      List.map_append, σ.map_uses, List.map_append]
    simp only [Visit.thenIf, List.flatMap_cons, List.flatMap_append]
    rw [← σ.scope_push, hbody', traceAll_account body hbody n,
      traceAll_account otherwise hother (accountAll σ.push n body).next]
    rfl
  | loop initial condition step body, l, h, n => by
    simp only [lower, bind_eq_ok, ← σ.scope_push] at h
    obtain ⟨⟨code, after⟩, hi, c, hc, v, hv, ⟨codes, last⟩, hbody, _⟩ := h
    obtain ⟨_, rfl⟩ := lower_account initial hi n
    rw [← Chain.scope_push] at hbody
    rw [trace, account, List.flatMap_cons, List.flatMap_append, ← σ.scope_push,
      trace_account initial hi n, hi]
    simp only [Visit.thenIf, List.flatMap_append]
    rw [hc, hv]
    simp only [List.flatMap_append, List.map_append, Chain.map_uses]
    rw [Expr.trace_names condition hc, Expr.trace_names step hv, ← Chain.scope_push,
      traceAll_account body hbody (account σ.push n initial).next]
    rfl
  | ret none, l, h, n => rfl
  | ret (some value), l, h, n => by
    simp only [lower, bind_eq_ok] at h
    obtain ⟨v, hv, _⟩ := h
    rw [trace, account, σ.map_uses, List.flatMap_cons, Expr.trace_names value hv]
    rfl
  | declare name value, l, h, n => by
    simp only [lower, bind_eq_ok] at h
    obtain ⟨v, hv, _⟩ := h
    rw [trace, account, σ.map_uses, List.flatMap_cons, Expr.trace_names value hv]
    rfl
  | call callee arguments, l, h, n => by
    simp only [lower, bind_eq_ok] at h
    obtain ⟨v, hv, _⟩ := h
    rw [trace, account, σ.map_uses, List.flatMap_cons, Expr.trace_names _ hv]
    rfl
  | assign target value, l, h, n => by
    simp only [lower, bind_eq_ok] at h
    obtain ⟨v, hv, _⟩ := h
    rw [trace, account, σ.map_uses, List.flatMap_cons, Expr.trace_names _ hv]
    rfl
  | raw text, l, h, n => rfl
  | unrecognized node, l, h, n => rfl

theorem traceAll_account {σ : Chain} {indent : String} : (ss : List Stmt) →
    {r : List String × Scope} → lowerAll σ.scope indent ss = .ok r → (n : Site) →
    (traceAll σ.scope ss).flatMap Visit.lookedUp = (accountAll σ n ss).uses.map Use.lookedUp
  | [], r, h, n => rfl
  | s :: rest, r, h, n => by
    simp only [lowerAll, bind_eq_ok] at h
    obtain ⟨⟨code, after⟩, hs, ⟨codes', last'⟩, hrest, _⟩ := h
    obtain ⟨_, rfl⟩ := lower_account s hs n
    obtain ⟨⟨code', after'⟩, hs'⟩ := lower_indent hs ""
    obtain ⟨_, rfl⟩ := lower_account s hs' n
    rw [traceAll, accountAll, hs', List.flatMap_append, trace_account s hs n, List.map_append]
    simp only [Visit.thenIf]
    rw [traceAll_account rest hrest]
end

end Stmt
end LittleC
