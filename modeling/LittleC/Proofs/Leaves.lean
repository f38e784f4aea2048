import LittleC.Lowering.Stmt
import LittleC.Proofs.ExprText
import LittleC.Proofs.Surface

/-! The characters of a text. What is written for an expression consists of its leaves, that
is its names, literals and raw texts, and of a few characters between them. So what holds of
those characters and of the leaves holds of the whole text (`Expr.text_made`). The same goes
for a list of parameters, which has the words of C for their types in it. -/
namespace LittleC

/-- Every character of the text has the property. -/
def Made (Q : Char → Prop) (s : String) : Prop :=
  ∀ c ∈ s.toList, Q c

namespace Made

variable {Q : Char → Prop}

@[simp] theorem append_iff {a b : String} : Made Q (a ++ b) ↔ Made Q a ∧ Made Q b := by
  rw [Made, String.toList_append, List.forall_mem_append]
  rfl

theorem append {a b : String} (ha : Made Q a) (hb : Made Q b) : Made Q (a ++ b) :=
  append_iff.mpr ⟨ha, hb⟩

/-- A text that is known can be looked through. -/
theorem of_all [DecidablePred Q] {s : String} (h : s.toList.all (Q ·) = true) : Made Q s := by
  intro c hc
  simpa using List.all_eq_true.mp h c hc

theorem intercalate {sep : String} {parts : List String} (hsep : Made Q sep)
    (hparts : ∀ part ∈ parts, Made Q part) : Made Q (sep.intercalate parts) := by
  induction parts with
  | nil => exact List.forall_mem_nil _
  | cons first rest ih =>
    obtain ⟨hfirst, hrest⟩ := List.forall_mem_cons.mp hparts
    cases rest with
    | nil => simpa using hfirst
    | cons second others =>
      rw [String.intercalate_cons_cons]
      exact (hfirst.append hsep).append (ih hrest)

end Made

/-- The characters that are written between the leaves of an expression, and for types. -/
def glyphs : List Char :=
  " (),=\"+-*/<>abcdefhilnoprstuvyUNK".toList

section
variable {Q : Char → Prop}

theorem made_glyphs (hglyphs : ∀ c ∈ glyphs, Q c) {s : String}
    (h : s.toList.all glyphs.contains = true) : Made Q s := by
  intro c hc
  exact hglyphs c (List.contains_iff_mem.mp (List.all_eq_true.mp h c hc))

theorem BinaryOp.symbol_made (hglyphs : ∀ c ∈ glyphs, Q c) (op : BinaryOp) : Made Q op.symbol := by
  cases op <;> exact made_glyphs hglyphs (by decide)

theorem Ty.spelling_made (hglyphs : ∀ c ∈ glyphs, Q c) (t : Ty) : Made Q t.spelling := by
  cases t <;> exact made_glyphs hglyphs (by decide)

theorem Stmt.paramList_made (hglyphs : ∀ c ∈ glyphs, Q c) {params : List Param}
    (hnames : ∀ name ∈ params.map Param.name, Made Q name) : Made Q (paramList params) := by
  unfold paramList
  split
  · exact made_glyphs hglyphs (by decide)
  · refine .intercalate (made_glyphs hglyphs (by decide)) fun part hpart => ?_
    obtain ⟨p, hp, rfl⟩ := List.mem_map.mp hpart
    have hname : Made Q p.name := hnames _ (List.mem_map_of_mem hp)
    exact ((p.type.spelling_made hglyphs).append (made_glyphs hglyphs (by decide))).append hname

/-! The indentation of a block, and what stands in front of its brace. -/

theorem Made.nested (hglyphs : ∀ c ∈ glyphs, Q c) {indent : String} (hindent : Made Q indent) :
    Made Q (Layout.nested indent) :=
  hindent.append (made_glyphs hglyphs (by decide))

theorem Stmt.ifHeader_made (hglyphs : ∀ c ∈ glyphs, Q c) {indent code : String}
    (hindent : Made Q indent) (hcode : Made Q code) : Made Q (indent ++ "if(" ++ code ++ ")") :=
  ((hindent.append (made_glyphs hglyphs (by decide))).append hcode).append
    (made_glyphs hglyphs (by decide))

theorem Stmt.functionHeader_made (hglyphs : ∀ c ∈ glyphs, Q c) (signature : Signature)
    {indent name : String} (hindent : Made Q indent) (hname : Made Q name)
    (hparams : ∀ x ∈ signature.params.map Param.name, Made Q x) :
    Made Q (indent ++ signature.result.spelling ++ " " ++ name ++ "(" ++
      paramList signature.params ++ ")") := by
  have htype := signature.result.spelling_made hglyphs
  have hlist := paramList_made hglyphs hparams
  exact (((((hindent.append htype).append (made_glyphs hglyphs (by decide))).append hname).append
    (made_glyphs hglyphs (by decide))).append hlist).append (made_glyphs hglyphs (by decide))

end

/-! ### Expressions -/

namespace Expr

mutual
/-- The texts that an expression is put together from, in order. -/
def leaves : Expr → List String
  | binary _ left right => leaves left ++ leaves right
  | symbol name => [name]
  | float t | double t | integer t | string t | raw t => [t]
  | call callee arguments => callee :: leavesAll arguments
  | assign target value => target :: leaves value
  | boolean _ | unrecognized _ => []

def leavesAll : List Expr → List String
  | [] => []
  | e :: rest => leaves e ++ leavesAll rest
end

variable {Q : Char → Prop}

theorem operandCode_made (hglyphs : ∀ c ∈ glyphs, Q c) (loose : Nat → Bool) (operand : Expr)
    {code : String} (hcode : Made Q code) : Made Q (operandCode loose operand code) := by
  have hparens : Made Q ("(" ++ code ++ ")") :=
    ((made_glyphs hglyphs rfl).append hcode).append (made_glyphs hglyphs rfl)
  unfold operandCode
  split
  · split
    · exact hparens
    · exact hcode
  · exact hparens
  · exact hcode

mutual
/-- The text of an expression has the characters of its leaves, those between them, and those
of the markers for what is unrecognized. -/
theorem text_made (hglyphs : ∀ c ∈ glyphs, Q c) : (e : Expr) →
    (∀ j, unrecognized j ∈ e.nodes → Made Q (marker j)) →
    (∀ leaf ∈ e.leaves, Made Q leaf) → Made Q e.text
  | binary op left right, hmarkers, hleaves => by
    obtain ⟨hl, hr⟩ := unrecognized_binary.mp hmarkers
    obtain ⟨hleft, hright⟩ := List.forall_mem_append.mp hleaves
    have hspace : Made Q " " := made_glyphs hglyphs (by decide)
    rw [text]
    exact ((((operandCode_made hglyphs _ left (text_made hglyphs left hl hleft)).append
      hspace).append (op.symbol_made hglyphs)).append hspace).append
      (operandCode_made hglyphs _ right (text_made hglyphs right hr hright))
  | call callee arguments, hmarkers, hleaves => by
    obtain ⟨hcallee, harguments⟩ := List.forall_mem_cons.mp hleaves
    have htexts := textAll_made hglyphs arguments (unrecognized_call.mp hmarkers) harguments
    have hlist : Made Q (Layout.commaList (textAll arguments)) :=
      .intercalate (made_glyphs hglyphs (by decide)) htexts
    rw [text]
    exact ((hcallee.append (made_glyphs hglyphs (by decide))).append hlist).append
      (made_glyphs hglyphs (by decide))
  | assign target value, hmarkers, hleaves => by
    obtain ⟨htarget, hvalue⟩ := List.forall_mem_cons.mp hleaves
    rw [text]
    exact (htarget.append (made_glyphs hglyphs (by decide))).append
      (text_made hglyphs value (unrecognized_assign.mp hmarkers) hvalue)
  | string t, _, hleaves => by
    have hquote : Made Q "\"" := made_glyphs hglyphs (by decide)
    rw [text]
    exact (hquote.append (List.forall_mem_singleton.mp hleaves)).append hquote
  | boolean true, _, _ => made_glyphs hglyphs (by decide)
  | boolean false, _, _ => made_glyphs hglyphs (by decide)
  | unrecognized node, hmarkers, _ => hmarkers node (List.mem_singleton_self _)
  | symbol _, _, hleaves | float _, _, hleaves | double _, _, hleaves | integer _, _, hleaves
  | raw _, _, hleaves => List.forall_mem_singleton.mp hleaves

theorem textAll_made (hglyphs : ∀ c ∈ glyphs, Q c) : (es : List Expr) →
    (∀ e ∈ es, ∀ j, unrecognized j ∈ e.nodes → Made Q (marker j)) →
    (∀ leaf ∈ leavesAll es, Made Q leaf) → ∀ part ∈ textAll es, Made Q part
  | [], _, _ => List.forall_mem_nil _
  | e :: rest, hmarkers, hleaves => by
    obtain ⟨he, hrest⟩ := List.forall_mem_cons.mp hmarkers
    obtain ⟨hfirst, hothers⟩ := List.forall_mem_append.mp hleaves
    exact List.forall_mem_cons.mpr
      ⟨text_made hglyphs e he hfirst, textAll_made hglyphs rest hrest hothers⟩
end

end Expr

/-! ### Statements -/

namespace Stmt

/-- The texts that the statement itself is put together from. A prototype is not written. -/
def leaves : Stmt → List String
  | function name signature _ => name :: signature.params.map Param.name
  | conditional condition _ _ => condition.leaves
  | loop _ condition step _ => condition.leaves ++ step.leaves
  | ret value => Expr.leavesAll value.toList
  | declare name value => name :: value.leaves
  | call callee arguments => (Expr.call callee arguments).leaves
  | assign target value => (Expr.assign target value).leaves
  | raw t => [t]
  | prototype .. | unrecognized _ => []

/-- A statement that is written in full: nothing of it is unrecognized, and its leaves have
the property. -/
structure Legible (Q : Char → Prop) (s : Stmt) : Prop where
  leaves : ∀ leaf ∈ s.leaves, Made Q leaf
  exprs : ∀ e ∈ s.exprs, e.Recognized
  recognized : ∀ j, s ≠ unrecognized j

end Stmt

/-- The names, literals and raw texts in a program. -/
def Program.leaves (p : Program) : List String :=
  p.stmts.flatMap Stmt.leaves

theorem Program.Recognized.legible {p : Program} (h : p.Recognized) {Q : Char → Prop}
    (hleaves : ∀ leaf ∈ p.leaves, Made Q leaf) : ∀ s ∈ p, ∀ t ∈ s.nodes, t.Legible Q := by
  refine Stmt.forall_nodesAll.mp fun t ht => ⟨fun leaf hleaf => ?_, fun e he j hj => ?_, ?_⟩
  · exact hleaves leaf (List.mem_flatMap.mpr ⟨t, ht, hleaf⟩)
  · exact h.2 j (mem_exprs.mpr ⟨t, ht, e, he, hj⟩)
  · intro j hj
    exact h.1 j (hj ▸ ht)

end LittleC
