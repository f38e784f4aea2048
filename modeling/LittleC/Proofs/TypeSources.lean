import LittleC.Proofs.Holes
import LittleC.Proofs.Nodes

/-! Where types come from. Lowering infers types and never makes one up. A literal, a
comparison, raw text and a node that was not recognized have a type of their own, and a
signature names its types; every other type is one of these, found in a part of an expression
or in the chain.

So what holds of the types that a program brings with it holds of every type that lowering
meets, also when it fails later on (`Stmt.traceAll_meets`), and of every type that the C text
is written with (`Stmt.accountAll_backed`). -/
namespace LittleC
open C (Site Item)

/-! ### Entries of a frame -/

namespace Assoc

variable {α : Type}

theorem mem_insert {key : String} {value : α} {entry : String × α} {entries : List (String × α)}
    (h : entry ∈ insert key value entries) : entry = (key, value) ∨ entry ∈ entries := by
  induction entries with
  | nil => exact .inl (List.mem_singleton.mp h)
  | cons first rest ih =>
    rw [insert] at h
    split at h
    · exact (List.mem_cons.mp h).imp_right (List.mem_cons_of_mem _)
    · split at h
      · exact List.mem_cons.mp h
      · rcases List.mem_cons.mp h with h | h
        · exact .inr (List.mem_cons.mpr (.inl h))
        · exact (ih h).imp_right (List.mem_cons_of_mem _)

theorem mem_insertAll {entry : String × α} {entries pairs : List (String × α)}
    (h : entry ∈ insertAll entries pairs) : entry ∈ pairs ∨ entry ∈ entries := by
  induction pairs generalizing entries with
  | nil => exact .inr h
  | cons pair rest ih =>
    rcases ih h with h | h
    · exact .inl (List.mem_cons_of_mem _ h)
    · exact (mem_insert h).imp_left fun h => List.mem_cons.mpr (.inl h)

theorem mem_ofPairs {entry : String × α} {pairs : List (String × α)}
    (h : entry ∈ ofPairs pairs) : entry ∈ pairs :=
  (mem_insertAll h).resolve_right (List.not_mem_nil)

end Assoc

/-! ### Types in a chain -/

/-- The types that a symbol carries. -/
def Symbol.types : Symbol → List Ty
  | value t => [t]
  | function signature => signature.types

theorem Symbol.type_mem_types (symbol : Symbol) : symbol.type ∈ symbol.types := by
  cases symbol with
  | value t => exact List.mem_singleton_self t
  | function signature => exact List.mem_cons_self ..

namespace Scope

/-- The types of all symbols in a chain, also of those that are hidden. -/
def types (s : Scope) : List Ty :=
  s.frames.flatMap fun frame => frame.flatMap fun entry => entry.2.types

/-- All types in the chain have the property. -/
def Holds (P : Ty → Prop) (s : Scope) : Prop :=
  ∀ t ∈ s.types, P t

variable {P : Ty → Prop} {s : Scope}

theorem holds_iff :
    s.Holds P ↔ ∀ frame ∈ s.frames, ∀ entry ∈ frame, ∀ t ∈ entry.2.types, P t := by
  simp only [Holds, types, List.mem_flatMap]
  constructor
  · intro h frame hframe entry hentry t ht
    exact h t ⟨frame, hframe, entry, hentry, ht⟩
  · rintro h t ⟨frame, hframe, entry, hentry, ht⟩
    exact h frame hframe entry hentry t ht

theorem Holds.root : Holds P .root := by
  intro t ht
  cases ht

theorem Holds.lookup (h : s.Holds P) {name : String} {symbol : Symbol}
    (hname : s.lookup name = some symbol) : ∀ t ∈ symbol.types, P t := by
  obtain ⟨frame, hframe, hentry⟩ := List.exists_of_findSome?_eq_some hname
  obtain ⟨front, back, rfl, _⟩ := List.lookup_eq_some_iff.mp hentry
  exact holds_iff.mp h _ hframe (name, symbol) (by simp)

theorem Holds.bind (h : s.Holds P) (name : String) {symbol : Symbol}
    (hsymbol : ∀ t ∈ symbol.types, P t) : (s.bind name symbol).Holds P := by
  rw [holds_iff] at h ⊢
  obtain ⟨hhead, houter⟩ := List.forall_mem_cons.mp h
  refine List.forall_mem_cons.mpr ⟨fun entry hentry => ?_, houter⟩
  rcases Assoc.mem_insert hentry with rfl | hentry
  · exact hsymbol
  · exact hhead entry hentry

theorem Holds.pushFrame (h : s.Holds P) {declarations : List (String × Symbol)}
    (hnew : ∀ entry ∈ declarations, ∀ t ∈ entry.2.types, P t) :
    (s.pushFrame declarations).Holds P := by
  rw [holds_iff] at h ⊢
  refine List.forall_mem_cons.mpr ⟨fun entry hentry => ?_, h⟩
  exact hnew entry (Assoc.mem_ofPairs hentry)

theorem Holds.push (h : s.Holds P) : s.push.Holds P :=
  h.pushFrame (List.forall_mem_nil _)

theorem Holds.enter (h : s.Holds P) (name : String) {signature : Signature}
    (hsignature : ∀ t ∈ signature.types, P t) : (s.enter name signature).Holds P := by
  refine h.pushFrame (List.forall_mem_cons.mpr ⟨hsignature, fun entry hentry => ?_⟩)
  obtain ⟨p, hp, rfl⟩ := List.mem_map.mp hentry
  refine List.forall_mem_singleton.mpr (hsignature _ ?_)
  exact List.mem_cons_of_mem _ (List.mem_map_of_mem hp)

end Scope

/-! ### Types of expressions -/

theorem Ty.unify_eq_or (a b : Ty) : a.unify b = a ∨ a.unify b = b := by
  unfold unify
  split
  · exact .inr rfl
  · exact .inl rfl

namespace Expr

/-- The type that a node has whatever its parts and the chain. -/
def ownType? : Expr → Option Ty
  | float _ => some .f32
  | double _ => some .f64
  | integer _ => some .i32
  | string _ => some .string
  | boolean _ => some .bool
  | raw _ => some .any
  | unrecognized _ => some .unknown
  | binary op _ _ => if op.isComparison then some .bool else none
  | symbol _ | call .. | assign .. => none

/-- The types that nodes of the expression have of their own have the property. -/
def Brings (P : Ty → Prop) (e : Expr) : Prop :=
  ∀ n ∈ e.nodes, ∀ t ∈ n.ownType?, P t

variable {P : Ty → Prop}

theorem brings_binary {op : BinaryOp} {l r : Expr} :
    (binary op l r).Brings P ↔
      (op.isComparison = true → P .bool) ∧ l.Brings P ∧ r.Brings P := by
  unfold Brings
  rw [nodes, List.forall_mem_cons, List.forall_mem_append]
  simp [ownType?]

theorem brings_call {f : String} {args : List Expr} :
    (call f args).Brings P ↔ ∀ a ∈ args, a.Brings P := by
  unfold Brings
  rw [nodes, List.forall_mem_cons, nodesAll_eq_flatMap]
  simp only [ownType?, List.mem_flatMap]
  constructor
  · intro h a ha n hn
    exact h.2 n ⟨a, ha, hn⟩
  · intro h
    refine ⟨by simp, ?_⟩
    rintro n ⟨a, ha, hn⟩
    exact h a ha n hn

theorem brings_assign {x : String} {v : Expr} : (assign x v).Brings P ↔ v.Brings P := by
  unfold Brings
  rw [nodes, List.forall_mem_cons]
  simp [ownType?]

/-- An expression without parts that has a type of its own. -/
theorem brings_own {e : Expr} {t : Ty} (hnodes : e.nodes = [e]) (hown : e.ownType? = some t) :
    e.Brings P ↔ P t := by
  rw [Brings, hnodes, List.forall_mem_singleton, hown]
  simp

end Expr

/-- The type of an expression is a type of its own, of a part of it, or of a name. -/
theorem HasType.meets {P : Ty → Prop} {scope : Scope} (hscope : scope.Holds P) {e : Expr} {t : Ty} :
    HasType scope.lookup e t → e.Brings P → P t
  | @HasType.binary _ op l r a b hl hr _, h => by
    obtain ⟨hown, hleft, hright⟩ := Expr.brings_binary.mp h
    split
    · next hop => exact hown hop
    · rcases a.unify_eq_or b with hab | hab
      · rw [hab]
        exact hl.meets hscope hleft
      · rw [hab]
        exact hr.meets hscope hright
  | .symbol hs, _ => hscope.lookup hs _ (Symbol.type_mem_types _)
  | .call hf _ _, _ => hscope.lookup hf _ (List.mem_cons_self ..)
  | .assign hx _ _, _ => hscope.lookup hx _ (List.mem_singleton_self _)
  | .float, h | .double, h | .integer, h | .string, h | .boolean, h | .raw, h
  | .unrecognized, h => (Expr.brings_own rfl rfl).mp h

theorem Expr.lower_meets {P : Ty → Prop} {scope : Scope} (hscope : scope.Holds P) {e : Expr}
    (he : e.Brings P) {v : Lowered} (h : e.lower scope = .ok v) : P v.type :=
  (lower_hasType e h).meets hscope he

/-! ### Types of statements -/

namespace Stmt

/-- The types that a statement brings with it, besides the statements inside it, have the
property: those it names, and those of its expressions and of unread text. -/
structure Supplies (P : Ty → Prop) (s : Stmt) : Prop where
  types : ∀ t ∈ s.types, P t
  exprs : ∀ e ∈ s.exprs, e.Brings P
  raw : ∀ text, s = raw text → P .any
  unrecognized : ∀ j, s = unrecognized j → P .unknown

/-- So do those of the statements inside it. -/
def Brings (P : Ty → Prop) (s : Stmt) : Prop :=
  ∀ t ∈ s.nodes, t.Supplies P

variable {P : Ty → Prop}

theorem brings_function {name : String} {signature : Signature} {body : List Stmt} :
    (function name signature body).Brings P ↔
      (∀ t ∈ signature.types, P t) ∧ ∀ s ∈ body, s.Brings P := by
  have hown : (function name signature body).Supplies P ↔ ∀ t ∈ signature.types, P t :=
    ⟨fun h => h.types, fun h => ⟨h, List.forall_mem_nil _, by simp, by simp⟩⟩
  rw [← hown]
  exact forall_nodes_function

theorem brings_conditional {c : Expr} {body : List Stmt} {otherwise : Option (List Stmt)} :
    (conditional c body otherwise).Brings P ↔ c.Brings P ∧ (∀ s ∈ body, s.Brings P) ∧
      ∀ ss, otherwise = some ss → ∀ s ∈ ss, s.Brings P := by
  have hown : (conditional c body otherwise).Supplies P ↔ c.Brings P :=
    ⟨fun h => h.exprs c (List.mem_singleton_self c),
      fun h => ⟨List.forall_mem_nil _, List.forall_mem_singleton.mpr h, by simp, by simp⟩⟩
  rw [← hown]
  exact forall_nodes_conditional

theorem brings_loop {initial : Stmt} {c step : Expr} {body : List Stmt} :
    (loop initial c step body).Brings P ↔
      (c.Brings P ∧ step.Brings P) ∧ initial.Brings P ∧ ∀ s ∈ body, s.Brings P := by
  have hown : (loop initial c step body).Supplies P ↔ c.Brings P ∧ step.Brings P := by
    constructor
    · intro h
      simpa [Stmt.exprs] using h.exprs
    · intro h
      exact ⟨List.forall_mem_nil _, by simpa [Stmt.exprs] using h, by simp, by simp⟩
  rw [← hown]
  exact forall_nodes_loop

/-- A statement without statements inside. -/
theorem brings_leaf {s : Stmt} (hnodes : s.nodes = [s]) : s.Brings P ↔ s.Supplies P :=
  forall_nodes_leaf hnodes

theorem brings_prototype {name : String} {signature : Signature} :
    (prototype name signature).Brings P ↔ ∀ t ∈ signature.types, P t := by
  rw [brings_leaf rfl]
  exact ⟨fun h => h.types, fun h => ⟨h, List.forall_mem_nil _, by simp, by simp⟩⟩

theorem brings_raw {text : String} : (raw text).Brings P ↔ P .any := by
  rw [brings_leaf rfl]
  exact ⟨fun h => h.raw text rfl,
    fun h => ⟨List.forall_mem_nil _, List.forall_mem_nil _, fun _ _ => h, by simp⟩⟩

theorem brings_unrecognized {node : Json} : (unrecognized node).Brings P ↔ P .unknown := by
  rw [brings_leaf rfl]
  exact ⟨fun h => h.unrecognized node rfl,
    fun h => ⟨List.forall_mem_nil _, List.forall_mem_nil _, by simp, fun _ _ => h⟩⟩

/-- A statement made of expressions only. -/
theorem brings_exprs {s : Stmt} (hnodes : s.nodes = [s]) (htypes : s.types = [])
    (hraw : ∀ text, s ≠ raw text) (hunrecognized : ∀ j, s ≠ unrecognized j) :
    s.Brings P ↔ ∀ e ∈ s.exprs, e.Brings P := by
  rw [brings_leaf hnodes]
  refine ⟨fun h => h.exprs, fun h => ⟨by simp [htypes], h, ?_, ?_⟩⟩
  · exact fun text hs => absurd hs (hraw text)
  · exact fun j hs => absurd hs (hunrecognized j)

theorem brings_ret {value : Option Expr} :
    (ret value).Brings P ↔ ∀ v, value = some v → v.Brings P := by
  rw [brings_exprs rfl rfl (by simp) (by simp)]
  simp [Stmt.exprs]

theorem brings_declare {name : String} {value : Expr} :
    (declare name value).Brings P ↔ value.Brings P := by
  rw [brings_exprs rfl rfl (by simp) (by simp)]
  exact List.forall_mem_singleton

theorem brings_call {f : String} {args : List Expr} :
    (call f args).Brings P ↔ (Expr.call f args).Brings P := by
  rw [brings_exprs rfl rfl (by simp) (by simp), Expr.brings_call]
  rfl

theorem brings_assign {x : String} {v : Expr} :
    (assign x v).Brings P ↔ (Expr.assign x v).Brings P := by
  rw [brings_exprs rfl rfl (by simp) (by simp), Expr.brings_assign]
  exact List.forall_mem_singleton

/-- A statement leaves no types in the chain but those that it found and brings. -/
theorem lower_holds {scope : Scope} {indent : String} {s : Stmt} {l : LoweredStmt}
    (hscope : scope.Holds P) (hs : s.Brings P) (h : s.lower scope indent = .ok l) :
    l.scope.Holds P := by
  rw [lower_after h]
  cases s with
  | prototype name signature => exact hscope.bind name (brings_prototype.mp hs)
  | function name signature body => exact hscope.bind name (brings_function.mp hs).1
  | declare name value =>
    simp only [lower, bind_eq_ok] at h
    obtain ⟨v, hv, _⟩ := h
    have htype := Expr.lower_meets hscope (brings_declare.mp hs) hv
    rw [after, Expr.typeIn_eq hv]
    exact hscope.bind name (List.forall_mem_singleton.mpr htype)
  | _ => exact hscope

end Stmt

/-! ### Along the trace -/

namespace Visit

/-- All types that are at hand where lowering comes to something have the property: those in
the chain, those in the chain that is opened or left, those that a statement names, and the
type of an expression. -/
def Meets (P : Ty → Prop) : Visit → Prop
  | expr scope e => scope.Holds P ∧ ∀ v, e.lower scope = .ok v → P v.type
  | stmt scope s => scope.Holds P ∧ (∀ t ∈ s.types, P t) ∧
      (∀ name signature body, s = .function name signature body →
        (scope.enter name signature).Holds P) ∧
      ∀ l, s.lower scope "" = .ok l → l.scope.Holds P
  | condition lowered => P lowered.type

variable {P : Ty → Prop} {scope : Scope}

theorem meets_expr (hscope : scope.Holds P) {e : Expr} (he : e.Brings P) :
    (expr scope e).Meets P :=
  ⟨hscope, fun _ hv => Expr.lower_meets hscope he hv⟩

theorem meets_stmt (hscope : scope.Holds P) {s : Stmt} (hs : s.Brings P) :
    (stmt scope s).Meets P := by
  refine ⟨hscope, (hs s ?_).types, ?_, fun l hl => Stmt.lower_holds hscope hs hl⟩
  · cases s with
    | conditional _ _ otherwise => cases otherwise <;> exact List.mem_cons_self ..
    | _ => exact List.mem_cons_self ..
  · rintro name signature body rfl
    exact hscope.enter name (Stmt.brings_function.mp hs).1

theorem forall_thenIf {α : Type} {result : Except Error α} {next : α → List Visit}
    {Q : Visit → Prop} (h : ∀ a, result = .ok a → ∀ v ∈ next a, Q v) :
    ∀ v ∈ thenIf result next, Q v := by
  cases result with
  | ok a => exact h a rfl
  | error e => exact List.forall_mem_nil _

end Visit

namespace Expr

variable {P : Ty → Prop} {scope : Scope}

mutual
theorem trace_meets (hscope : scope.Holds P) :
    (e : Expr) → e.Brings P → ∀ v ∈ e.trace scope, v.Meets P
  | binary op left right, he => by
    obtain ⟨_, hleft, hright⟩ := brings_binary.mp he
    rw [trace, List.forall_mem_cons, List.forall_mem_append]
    exact ⟨Visit.meets_expr hscope he, trace_meets hscope left hleft,
      Visit.forall_thenIf fun _ _ => trace_meets hscope right hright⟩
  | call callee arguments, he => by
    rw [trace, List.forall_mem_cons]
    refine ⟨Visit.meets_expr hscope he, ?_⟩
    split
    · exact traceAll_meets hscope arguments (brings_call.mp he)
    · exact List.forall_mem_nil _
  | assign target value, he => by
    rw [trace, List.forall_mem_cons]
    refine ⟨Visit.meets_expr hscope he, ?_⟩
    split
    · exact trace_meets hscope value (brings_assign.mp he)
    · exact List.forall_mem_nil _
  | symbol _, he | float _, he | double _, he | integer _, he | string _, he | boolean _, he
  | raw _, he | unrecognized _, he => List.forall_mem_singleton.mpr (Visit.meets_expr hscope he)

theorem traceAll_meets (hscope : scope.Holds P) :
    (es : List Expr) → (∀ e ∈ es, e.Brings P) → ∀ v ∈ traceAll scope es, v.Meets P
  | [], _ => List.forall_mem_nil _
  | e :: rest, hes => by
    obtain ⟨he, hrest⟩ := List.forall_mem_cons.mp hes
    rw [traceAll, List.forall_mem_append]
    exact ⟨trace_meets hscope e he,
      Visit.forall_thenIf fun _ _ => traceAll_meets hscope rest hrest⟩
end

end Expr

namespace Stmt

variable {P : Ty → Prop}

mutual
/-- What a statement brings and the chain has is all that lowering meets. -/
theorem trace_meets {scope : Scope} (hscope : scope.Holds P) :
    (s : Stmt) → s.Brings P → ∀ v ∈ s.trace scope, v.Meets P
  | function name signature body, hs => by
    obtain ⟨htypes, hbody⟩ := brings_function.mp hs
    rw [trace, List.forall_mem_cons]
    exact ⟨Visit.meets_stmt hscope hs, traceAll_meets (hscope.enter name htypes) body hbody⟩
  | conditional condition body none, hs => by
    obtain ⟨hc, hbody, _⟩ := brings_conditional.mp hs
    rw [trace, List.forall_mem_cons, List.forall_mem_append]
    refine ⟨Visit.meets_stmt hscope hs, condition.trace_meets hscope hc, ?_⟩
    refine Visit.forall_thenIf fun c hlower => List.forall_mem_cons.mpr ⟨?_, ?_⟩
    · exact Expr.lower_meets hscope hc hlower
    · exact traceAll_meets hscope.push body hbody
  | conditional condition body (some otherwise), hs => by
    obtain ⟨hc, hbody, hother⟩ := brings_conditional.mp hs
    rw [trace, List.forall_mem_cons, List.forall_mem_append]
    refine ⟨Visit.meets_stmt hscope hs, condition.trace_meets hscope hc, ?_⟩
    refine Visit.forall_thenIf fun c hlower => List.forall_mem_cons.mpr ⟨?_, ?_⟩
    · exact Expr.lower_meets hscope hc hlower
    · refine List.forall_mem_append.mpr ⟨traceAll_meets hscope.push body hbody, ?_⟩
      exact Visit.forall_thenIf fun _ _ => traceAll_meets hscope.push otherwise (hother _ rfl)
  | loop initial condition step body, hs => by
    obtain ⟨⟨hc, hstep⟩, hi, hbody⟩ := brings_loop.mp hs
    rw [trace, List.forall_mem_cons, List.forall_mem_append]
    refine ⟨Visit.meets_stmt hscope hs, trace_meets hscope.push initial hi, ?_⟩
    refine Visit.forall_thenIf fun i hlower => ?_
    have hinner := lower_holds hscope.push hi hlower
    refine List.forall_mem_append.mpr ⟨condition.trace_meets hinner hc, ?_⟩
    refine Visit.forall_thenIf fun _ _ => ?_
    refine List.forall_mem_append.mpr ⟨step.trace_meets hinner hstep, ?_⟩
    exact Visit.forall_thenIf fun _ _ => traceAll_meets hinner.push body hbody
  | ret (some value), hs => List.forall_mem_cons.mpr
    ⟨Visit.meets_stmt hscope hs, value.trace_meets hscope (brings_ret.mp hs value rfl)⟩
  | declare name value, hs => List.forall_mem_cons.mpr
    ⟨Visit.meets_stmt hscope hs, value.trace_meets hscope (brings_declare.mp hs)⟩
  | call callee arguments, hs => List.forall_mem_cons.mpr
    ⟨Visit.meets_stmt hscope hs, Expr.trace_meets hscope _ (brings_call.mp hs)⟩
  | assign target value, hs => List.forall_mem_cons.mpr
    ⟨Visit.meets_stmt hscope hs, Expr.trace_meets hscope _ (brings_assign.mp hs)⟩
  | prototype _ _, hs | ret none, hs | raw _, hs | unrecognized _, hs =>
    List.forall_mem_singleton.mpr (Visit.meets_stmt hscope hs)

theorem traceAll_meets {scope : Scope} (hscope : scope.Holds P) :
    (ss : List Stmt) → (∀ s ∈ ss, s.Brings P) → ∀ v ∈ traceAll scope ss, v.Meets P
  | [], _ => List.forall_mem_nil _
  | s :: rest, hss => by
    obtain ⟨hs, hrest⟩ := List.forall_mem_cons.mp hss
    rw [traceAll, List.forall_mem_append]
    refine ⟨trace_meets hscope s hs, Visit.forall_thenIf fun l hl => ?_⟩
    exact traceAll_meets (lower_holds hscope hs hl) rest hrest
end

end Stmt

/-! ### In the text -/

namespace C.Item

mutual
/-- All types that a statement of C is written with have the property. Text that is not
looked into stands for the types without a name. -/
def Backed (P : Ty → Prop) : Item → Prop
  | absent | ret _ | effect _ => True
  | function _ _ result params body =>
    (∀ t ∈ Signature.types ⟨params.map Prod.fst, result⟩, P t) ∧ BackedAll P body
  | conditional _ body none => BackedAll P body
  | conditional _ body (some otherwise) => BackedAll P body ∧ BackedAll P otherwise
  | loop initial _ _ body => Backed P initial ∧ BackedAll P body
  | declare _ type _ _ => P type
  | verbatim _ => P .any ∨ P .unknown

def BackedAll (P : Ty → Prop) : List Item → Prop
  | [] => True
  | i :: rest => Backed P i ∧ BackedAll P rest
end

end C.Item

namespace Stmt

variable {P : Ty → Prop}

mutual
/-- Only types that a statement brings or the chain has are written. -/
theorem account_backed {σ : Chain} {indent : String} (hscope : σ.scope.Holds P) :
    (s : Stmt) → s.Brings P → {l : LoweredStmt} → s.lower σ.scope indent = .ok l → (n : Site) →
    (s.account σ n).written.Backed P
  | function name signature body, hs, l, h, n => by
    obtain ⟨htypes, hbody⟩ := brings_function.mp hs
    simp only [lower, bind_eq_ok, ← σ.scope_enter n] at h
    obtain ⟨⟨codes, last⟩, hlower, _⟩ := h
    have hinner : (σ.enter n name signature).scope.Holds P := by
      rw [σ.scope_enter]
      exact hscope.enter name htypes
    rw [account, Item.Backed, List.zipIdx_map_fst]
    exact ⟨htypes, accountAll_backed hinner body hbody hlower _⟩
  | conditional condition body none, hs, l, h, n => by
    obtain ⟨_, hbody, _⟩ := brings_conditional.mp hs
    simp only [lower, bind_eq_ok, ← σ.scope_push] at h
    obtain ⟨_, _, ⟨codes, last⟩, hlower, _⟩ := h
    have hinner : σ.push.scope.Holds P := hscope.push
    rw [account, Item.Backed]
    exact accountAll_backed hinner body hbody hlower n
  | conditional condition body (some otherwise), hs, l, h, n => by
    obtain ⟨_, hbody, hother⟩ := brings_conditional.mp hs
    simp only [lower, bind_eq_ok, ← σ.scope_push] at h
    obtain ⟨_, _, ⟨codes, last⟩, hlower, ⟨codes', last'⟩, hlower', _⟩ := h
    have hinner : σ.push.scope.Holds P := hscope.push
    rw [account, Item.Backed]
    exact ⟨accountAll_backed hinner body hbody hlower n,
      accountAll_backed hinner otherwise (hother _ rfl) hlower' _⟩
  | loop initial condition step body, hs, l, h, n => by
    obtain ⟨_, hi, hbody⟩ := brings_loop.mp hs
    simp only [lower, bind_eq_ok, ← σ.scope_push] at h
    obtain ⟨⟨code, after⟩, hlower, _, _, _, _, ⟨codes, last⟩, hlower', _⟩ := h
    have hpush : σ.push.scope.Holds P := hscope.push
    have hafter : after.Holds P := lower_holds hpush hi hlower
    obtain ⟨_, rfl⟩ := lower_account initial hlower n
    have hinner : (account σ.push n initial).chain.push.scope.Holds P := hafter.push
    rw [← Chain.scope_push] at hlower'
    rw [account, Item.Backed]
    exact ⟨account_backed hpush initial hi hlower n, accountAll_backed hinner body hbody hlower' _⟩
  | declare name value, hs, l, h, n => by
    simp only [lower, bind_eq_ok] at h
    obtain ⟨v, hv, _⟩ := h
    rw [account, Item.Backed, Expr.typeIn_eq hv]
    exact Expr.lower_meets hscope (brings_declare.mp hs) hv
  | raw text, hs, l, h, n => .inl (brings_raw.mp hs)
  | unrecognized node, hs, l, h, n => .inr (brings_unrecognized.mp hs)
  | prototype _ _, _, _, _, _ | ret none, _, _, _, _ | ret (some _), _, _, _, _
  | call _ _, _, _, _, _ | assign _ _, _, _, _, _ => trivial

theorem accountAll_backed {σ : Chain} {indent : String} (hscope : σ.scope.Holds P) :
    (ss : List Stmt) → (∀ s ∈ ss, s.Brings P) → {r : List String × Scope} →
    lowerAll σ.scope indent ss = .ok r → (n : Site) → Item.BackedAll P (accountAll σ n ss).written
  | [], _, _, _, _ => trivial
  | s :: rest, hss, r, h, n => by
    obtain ⟨hs, hrest⟩ := List.forall_mem_cons.mp hss
    simp only [lowerAll, bind_eq_ok] at h
    obtain ⟨⟨code, after⟩, hlower, ⟨codes, last⟩, hlower', _⟩ := h
    have hafter : after.Holds P := lower_holds hscope hs hlower
    obtain ⟨_, rfl⟩ := lower_account s hlower n
    rw [accountAll, Item.BackedAll]
    exact ⟨account_backed hscope s hs hlower n, accountAll_backed hafter rest hrest hlower' _⟩
end

end Stmt

end LittleC
