import LittleC.Proofs.Canonical
import LittleC.Proofs.Parsing

/-! What source texts can spell. Every type that a parsed program names has a name, and
every node of it was recognized, as no rule of the grammar spells anything else. Such a
program is canonical. -/
namespace LittleC

/-- A type that a program can write. -/
def Ty.Named (t : Ty) : Prop :=
  ∃ name, ofName? name = some t

namespace Ty.Named

variable {t : Ty}

theorem mem (h : t.Named) : t ∈ [f32, f64, i32, string, bool, void] := by
  obtain ⟨name, hname⟩ := h
  unfold ofName? at hname
  grind

theorem ne_any (h : t.Named) : t ≠ any := by
  rintro rfl
  exact absurd h.mem (by decide)

theorem ne_unknown (h : t.Named) : t ≠ unknown := by
  rintro rfl
  exact absurd h.mem (by decide)

theorem spelling_mem (h : t.Named) :
    t.spelling ∈ ["float", "double", "int", "char*", "void"] := by
  have hspelled : ∀ t ∈ [f32, f64, i32, string, bool, void],
      t.spelling ∈ ["float", "double", "int", "char*", "void"] := by decide
  exact hspelled t h.mem

end Ty.Named

namespace Expr

/-- No node of the expression is unrecognized. -/
def Recognized (e : Expr) : Prop :=
  ∀ j, unrecognized j ∉ e.nodes

theorem recognized_binary {op : BinaryOp} {l r : Expr} :
    (binary op l r).Recognized ↔ l.Recognized ∧ r.Recognized :=
  unrecognized_binary

theorem recognized_call {f : String} {args : List Expr} :
    (call f args).Recognized ↔ ∀ a ∈ args, a.Recognized :=
  unrecognized_call

theorem recognized_assign {x : String} {v : Expr} : (assign x v).Recognized ↔ v.Recognized :=
  unrecognized_assign

theorem not_recognized_unrecognized {j : Json} : ¬ (unrecognized j).Recognized :=
  fun h => h j (List.mem_singleton_self _)

theorem Recognized.canonical {e : Expr} (h : e.Recognized) : e.Canonical :=
  fun j hj => absurd hj (h j)

end Expr

namespace Stmt

/-- What source texts grant of a statement besides the statements inside it. -/
structure Spelled (s : Stmt) : Prop where
  types : ∀ t ∈ s.types, t.Named
  exprs : ∀ e ∈ s.exprs, e.Recognized
  recognized : ∀ j, s ≠ unrecognized j

/-- The statement and all statements inside it are of the kind that source texts spell. -/
def Surface (s : Stmt) : Prop :=
  ∀ t ∈ s.nodes, t.Spelled

theorem surface_function {name : String} {s : Signature} {body : List Stmt} :
    (function name s body).Surface ↔ (∀ t ∈ s.types, t.Named) ∧ ∀ t ∈ body, t.Surface := by
  have hown : (function name s body).Spelled ↔ ∀ t ∈ s.types, t.Named :=
    ⟨fun h => h.types, fun h => ⟨h, List.forall_mem_nil _, nofun⟩⟩
  rw [← hown]
  exact forall_nodes_function

theorem surface_conditional {c : Expr} {body : List Stmt} {otherwise : Option (List Stmt)} :
    (conditional c body otherwise).Surface ↔ c.Recognized ∧ (∀ t ∈ body, t.Surface) ∧
      ∀ ss, otherwise = some ss → ∀ t ∈ ss, t.Surface := by
  have hown : (conditional c body otherwise).Spelled ↔ c.Recognized :=
    ⟨fun h => h.exprs c (List.mem_singleton_self c),
      fun h => ⟨List.forall_mem_nil _, List.forall_mem_singleton.mpr h, nofun⟩⟩
  rw [← hown]
  exact forall_nodes_conditional

theorem surface_loop {initial : Stmt} {c step : Expr} {body : List Stmt} :
    (loop initial c step body).Surface ↔
      (c.Recognized ∧ step.Recognized) ∧ initial.Surface ∧ ∀ t ∈ body, t.Surface := by
  have hown : (loop initial c step body).Spelled ↔ c.Recognized ∧ step.Recognized := by
    constructor
    · intro h
      simpa [Stmt.exprs] using h.exprs
    · intro h
      exact ⟨List.forall_mem_nil _, by simpa [Stmt.exprs] using h, by simp⟩
  rw [← hown]
  exact forall_nodes_loop

/-- A statement without statements inside. -/
theorem surface_leaf {s : Stmt} (hnodes : s.nodes = [s]) : s.Surface ↔ s.Spelled :=
  forall_nodes_leaf hnodes

theorem Spelled.stable {s : Stmt} (h : s.Spelled) : s.Stable := by
  refine (stable_iff s).mpr ⟨fun hany => ?_, fun e he => ?_, fun j hj => ?_, fun hret => ?_⟩
  · exact (h.types _ hany).ne_any rfl
  · exact (h.exprs e he).canonical
  · exact absurd hj (h.recognized j)
  · subst hret
    exact Expr.not_recognized_unrecognized (h.exprs _ (List.mem_singleton_self _))

/-- What source texts spell is read back from its JSON form. -/
theorem Surface.canonical {s : Stmt} (h : s.Surface) : s.Canonical :=
  fun t ht => (h t ht).stable

end Stmt

/-- No node of the program is unrecognized. -/
def Program.Recognized (p : Program) : Prop :=
  (∀ j, Stmt.unrecognized j ∉ p.stmts) ∧ ∀ j, Expr.unrecognized j ∉ p.exprs

theorem Program.recognized_of_surface {p : Program} (h : ∀ s ∈ p, s.Surface) : p.Recognized := by
  have hstmts : ∀ s ∈ p.stmts, s.Spelled := Stmt.forall_nodesAll.mpr h
  refine ⟨fun j hj => (hstmts _ hj).recognized j rfl, fun j hj => ?_⟩
  obtain ⟨s, hs, e, he, hj⟩ := mem_exprs.mp hj
  exact (hstmts s hs).exprs e he j hj

/-! ### The rules of the grammar -/

namespace Grammar
open LittleC.Expr LittleC.Stmt

mutual
theorem Expression.recognized {n : Nat} {ts : List Token} {e : Expr} :
    Expression n ts e → e.Recognized
  | .assign _ _ hv => recognized_assign.mpr hv.recognized
  | .binary _ hl hr => recognized_binary.mpr ⟨hl.recognized, hr.recognized⟩
  | .tighter _ h => h.recognized
  | .call _ _ ha _ => recognized_call.mpr ha.recognized
  | .primary h => h.recognized

theorem Primary.recognized {ts : List Token} {e : Expr} : Primary ts e → e.Recognized
  | .number _ htext | .negative _ _ htext => by
    rcases ofText?_eq_some htext with h | h | h
    all_goals
      subst h
      exact unrecognized_leaf rfl nofun
  | .name _ => unrecognized_leaf rfl nofun
  | .string _ => unrecognized_leaf rfl nofun
  | .isTrue _ => unrecognized_leaf rfl nofun
  | .isFalse _ => unrecognized_leaf rfl nofun
  | .raw _ => unrecognized_leaf rfl nofun
  | .group _ h _ => h.recognized

theorem Arguments.recognized {ts : List Token} {args : List Expr} :
    Arguments ts args → ∀ a ∈ args, a.Recognized
  | .nil => List.forall_mem_nil _
  | .last h => List.forall_mem_singleton.mpr h.recognized
  | .cons h _ ha => List.forall_mem_cons.mpr ⟨h.recognized, ha.recognized⟩
end

theorem TypeName.named {ts : List Token} {type : Ty} : TypeName ts type → type.Named
  | .intro _ h => ⟨_, h⟩

theorem Parameter.named {ts : List Token} {p : Param} : Parameter ts p → p.type.Named
  | .intro _ _ h => h.named

theorem Parameters.named {ts : List Token} {ps : List Param} :
    Parameters ts ps → ∀ t ∈ ps.map Param.type, t.Named
  | .nil => List.forall_mem_nil _
  | .last h => List.forall_mem_singleton.mpr h.named
  | .cons h _ hs => List.forall_mem_cons.mpr ⟨h.named, hs.named⟩

theorem Result.named {ts : List Token} {type : Ty} : Result ts type → type.Named
  | .none => ⟨"Void", rfl⟩
  | .arrow _ h => h.named

theorem Header.named {ts : List Token} {f : String} {signature : Signature} :
    Header ts f signature → ∀ t ∈ signature.types, t.Named
  | .intro _ _ hp _ hr => List.forall_mem_cons.mpr ⟨hr.named, hp.named⟩

mutual
theorem Statement.surface {ts : List Token} {s : Stmt} : Statement ts s → s.Surface
  | .declare _ _ _ hv _ => (surface_leaf rfl).mpr
    ⟨List.forall_mem_nil _, List.forall_mem_singleton.mpr hv.recognized, nofun⟩
  | .conditional _ hc hb => surface_conditional.mpr ⟨hc.recognized, hb.surface, nofun⟩
  | .alternative _ hc hb _ ho => by
    have hother := ho.surface
    refine surface_conditional.mpr ⟨hc.recognized, hb.surface, fun ss hss => ?_⟩
    exact Option.some.inj hss ▸ hother
  | .loop _ _ hi hc _ hstep _ hb =>
    surface_loop.mpr ⟨⟨hc.recognized, hstep.recognized⟩, hi.surface, hb.surface⟩
  | .prototype _ hh _ => (surface_leaf rfl).mpr ⟨hh.named, List.forall_mem_nil _, nofun⟩
  | .function _ hh hb => surface_function.mpr ⟨hh.named, hb.surface⟩
  | .retNone _ _ => (surface_leaf rfl).mpr ⟨List.forall_mem_nil _, List.forall_mem_nil _, nofun⟩
  | .ret _ hv _ => (surface_leaf rfl).mpr
    ⟨List.forall_mem_nil _, List.forall_mem_singleton.mpr hv.recognized, nofun⟩
  | .raw _ => (surface_leaf rfl).mpr ⟨List.forall_mem_nil _, List.forall_mem_nil _, nofun⟩
  | .rawEnded _ _ => (surface_leaf rfl).mpr ⟨List.forall_mem_nil _, List.forall_mem_nil _, nofun⟩
  | .call h _ => (surface_leaf rfl).mpr
    ⟨List.forall_mem_nil _, recognized_call.mp h.recognized, nofun⟩
  | .assign h _ => (surface_leaf rfl).mpr
    ⟨List.forall_mem_nil _, List.forall_mem_singleton.mpr (recognized_assign.mp h.recognized), nofun⟩

theorem Block.surface {ts : List Token} {body : List Stmt} :
    Block ts body → ∀ s ∈ body, s.Surface
  | .braces _ h _ => h.surface

theorem Otherwise.surface {ts : List Token} {body : List Stmt} :
    Otherwise ts body → ∀ s ∈ body, s.Surface
  | .block h => h.surface
  | .chained h => List.forall_mem_singleton.mpr h.surface

theorem Statements.surface {ts : List Token} {ss : List Stmt} :
    Statements ts ss → ∀ s ∈ ss, s.Surface
  | .nil => List.forall_mem_nil _
  | .cons h hs => List.forall_mem_cons.mpr ⟨h.surface, hs.surface⟩
end

end Grammar

/-- **Parsed programs are of the kind that source texts spell.** -/
theorem parse_surface {tokens : List Token} {file : String} {p : Program}
    (h : parse tokens file = .ok p) : ∀ s ∈ p, s.Surface := by
  obtain ⟨_, _, hts, _⟩ := Parse.program_sound _ ⟨h, rfl⟩
  exact hts.surface

theorem parseSource_surface {source file : String} {p : Program}
    (h : parseSource source file = .ok p) : ∀ s ∈ p, s.Surface := by
  unfold parseSource at h
  split at h
  · cases h
  · exact parse_surface h

end LittleC
