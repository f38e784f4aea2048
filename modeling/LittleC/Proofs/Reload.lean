import Mathlib
import LittleC.Lowering.Stmt
import LittleC.Proofs.JsonText
import LittleC.Proofs.Surface

/-! Programs saved and loaded again. The JSON form of what source texts spell has no
numbers and its objects are in key order, so both of its texts are read back, and what is
read is loaded as the program. Loading a saved program is therefore as good as parsing its
source (`load_parsed`). -/
namespace LittleC

namespace Json

theorem plainAll_map {α : Type} {f : α → Json} {xs : List α} (h : ∀ x ∈ xs, (f x).Plain) :
    PlainAll (xs.map f) := by
  induction xs with
  | nil => trivial
  | cons x rest ih =>
    obtain ⟨hx, hrest⟩ := List.forall_mem_cons.mp h
    exact ⟨hx, ih hrest⟩

theorem plainMembers_of_forall {members : List (String × Json)} (h : ∀ m ∈ members, m.2.Plain) :
    PlainMembers members := by
  induction members with
  | nil => trivial
  | cons m rest ih =>
    obtain ⟨hm, hrest⟩ := List.forall_mem_cons.mp h
    exact ⟨hm, ih hrest⟩

/-- An object by its keys, in their order, and its values. -/
theorem plain_object {members : List (String × Json)} (keys : List String)
    (hkeys : members.map Prod.fst = keys) (hsorted : keys.Pairwise (· < ·))
    (h : ∀ m ∈ members, m.2.Plain) : (object members).Plain := by
  subst hkeys
  exact ⟨List.pairwise_map.mp hsorted, plainMembers_of_forall h⟩

theorem plain_call (f : String) {args : List Json} (h : PlainAll args) :
    (object [("args", .array args), ("id", .string f)]).Plain :=
  plain_object ["args", "id"] rfl (by decide) (by simp [Plain, h])

theorem plain_binding (x : String) {v : Json} (h : v.Plain) :
    (object [("name", .string x), ("value", v)]).Plain :=
  plain_object ["name", "value"] rfl (by decide) (by simp [Plain, h])

end Json

namespace Expr

theorem plain_node {t : Tag} {content : Json} (h : content.Plain) : (node t content).Plain :=
  Json.plain_object [t.key] rfl (List.pairwise_singleton _ _) (List.forall_mem_singleton.mpr h)

mutual
theorem plain_toJson : (e : Expr) → e.Recognized → e.toJson.Plain
  | binary op l r, h => by
    obtain ⟨hl, hr⟩ := recognized_binary.mp h
    exact plain_node ⟨plain_toJson l hl, plain_toJson r hr, trivial⟩
  | symbol _, _ => plain_node trivial
  | float _, _ => plain_node trivial
  | double _, _ => plain_node trivial
  | integer _, _ => plain_node trivial
  | string _, _ => plain_node trivial
  | boolean _, _ => plain_node trivial
  | call f args, h => plain_node (Json.plain_call f (plain_toJsonAll args (recognized_call.mp h)))
  | assign x v, h => plain_node (Json.plain_binding x (plain_toJson v (recognized_assign.mp h)))
  | raw _, _ => plain_node trivial
  | unrecognized _, h => absurd h not_recognized_unrecognized

theorem plain_toJsonAll : (es : List Expr) → (∀ e ∈ es, e.Recognized) →
    Json.PlainAll (toJsonAll es)
  | [], _ => trivial
  | e :: rest, h => by
    obtain ⟨he, hrest⟩ := List.forall_mem_cons.mp h
    exact ⟨plain_toJson e he, plain_toJsonAll rest hrest⟩
end

end Expr

namespace Stmt

theorem plain_node {t : Tag} {content : Json} (h : content.Plain) : (node t content).Plain :=
  Json.plain_object [t.key] rfl (List.pairwise_singleton _ _) (List.forall_mem_singleton.mpr h)

theorem plain_signature (name : String) (s : Signature) :
    ∀ m ∈ signatureMembers name s, m.2.Plain := by
  have hparams : Json.PlainAll (s.params.map paramToJson) :=
    Json.plainAll_map fun p _ =>
      Json.plain_object ["name", "type"] rfl (by decide) (by simp [Json.Plain])
  simp [signatureMembers, Json.Plain, hparams]

mutual
/-- **The JSON form of what source texts spell is plain.** -/
theorem plain_toJson : (s : Stmt) → s.Surface → s.toJson.Plain
  | prototype name signature, _ =>
    plain_node (Json.plain_object ["name", "parameters", "type"] rfl (by decide)
      (plain_signature name signature))
  | function name signature body, h => by
    have hbody : (Json.array (toJsonAll body)).Plain :=
      plain_toJsonAll body (surface_function.mp h).2
    exact plain_node (Json.plain_object ["body", "name", "parameters", "type"] rfl (by decide)
      (List.forall_mem_cons.mpr ⟨hbody, plain_signature name signature⟩))
  | conditional c body none, h => by
    obtain ⟨hc, hbody, _⟩ := surface_conditional.mp h
    apply plain_node
    apply Json.plain_object ["body", "condition"] rfl (by decide)
    simp [Json.Plain, c.plain_toJson hc, plain_toJsonAll body hbody]
  | conditional c body (some otherwise), h => by
    obtain ⟨hc, hbody, hother⟩ := surface_conditional.mp h
    apply plain_node
    apply Json.plain_object ["body", "condition", "elseBody"] rfl (by decide)
    simp [Json.Plain, c.plain_toJson hc, plain_toJsonAll body hbody,
      plain_toJsonAll otherwise (hother otherwise rfl)]
  | loop initial c step body, h => by
    obtain ⟨⟨hc, hstep⟩, hinitial, hbody⟩ := surface_loop.mp h
    apply plain_node
    apply Json.plain_object ["body", "condition", "initialStatement", "recurringExpression"] rfl
      (by decide)
    simp [Json.Plain, c.plain_toJson hc, step.plain_toJson hstep, plain_toJson initial hinitial,
      plain_toJsonAll body hbody]
  | ret none, _ => plain_node trivial
  | ret (some v), h => by
    have hv := ((surface_leaf rfl).mp h).exprs v (List.mem_singleton_self v)
    exact plain_node (v.plain_toJson hv)
  | declare x v, h => by
    have hv := ((surface_leaf rfl).mp h).exprs v (List.mem_singleton_self v)
    exact plain_node (Json.plain_binding x (v.plain_toJson hv))
  | call f args, h => by
    have hargs : ∀ a ∈ args, a.Recognized := ((surface_leaf rfl).mp h).exprs
    exact plain_node (Json.plain_call f (Json.plainAll_map fun a ha => a.plain_toJson (hargs a ha)))
  | assign x v, h => by
    have hv := ((surface_leaf rfl).mp h).exprs v (List.mem_singleton_self v)
    exact plain_node (Json.plain_binding x (v.plain_toJson hv))
  | raw _, _ => plain_node trivial
  | unrecognized j, h => absurd rfl (((surface_leaf rfl).mp h).recognized j)

theorem plain_toJsonAll : (ss : List Stmt) → (∀ s ∈ ss, s.Surface) →
    Json.PlainAll (toJsonAll ss)
  | [], _ => trivial
  | s :: rest, h => by
    obtain ⟨hs, hrest⟩ := List.forall_mem_cons.mp h
    exact ⟨plain_toJson s hs, plain_toJsonAll rest hrest⟩
end

end Stmt

/-! ### Programs -/

namespace Program

theorem plain_toJson {p : Program} (h : ∀ s ∈ p, s.Surface) : p.toJson.Plain :=
  Json.plainAll_map fun s hs => s.plain_toJson (h s hs)

/-- What source texts spell is loaded from any text that is read as its JSON form. -/
theorem load_of_read {p : Program} {text : String} (h : ∀ s ∈ p, s.Surface)
    (hread : Json.read text = .ok p.toJson) : load text = .ok p := by
  have hcanonical : p.Canonical := (canonical_iff p).mpr fun s hs => (h s hs).canonical
  rw [load, hread]
  exact ofJson_toJson hcanonical

end Program

/-- **A saved program is loaded as it was parsed.** Both texts of its JSON form, unless they
nest deeper than reading goes, give exactly the program, so that the C of the loaded program
is that of the source, or its error. -/
theorem load_parsed (source file : String) (p : Program) (hp : parseSource source file = .ok p)
    (hdepth : p.toJson.nesting ≤ Json.depthLimit) :
    ∀ text ∈ [p.toJson.compact, p.toJson.pretty], Program.load text = .ok p ∧
      (do let q ← Program.load text; q.lower) = compileSource source file := by
  have hsurface := parseSource_surface hp
  have hplain := Program.plain_toJson hsurface
  intro text htext
  have hread : Json.read text = .ok p.toJson := by
    simp only [List.mem_cons, List.not_mem_nil, or_false] at htext
    rcases htext with rfl | rfl
    · exact Json.read_compact hplain hdepth
    · exact Json.read_pretty hplain hdepth
  have hload := Program.load_of_read hsurface hread
  exact ⟨hload, by rw [hload, compileSource, hp]⟩

/-- An empty body, a return without a value, and a string with an escaped quote and a control
character. -/
def terse : String :=
  "if a \x7b\x7d else \x7b f(\"\\\"\x01é\"); return; \x7d"

def terseProgram : Program :=
  [.conditional (.symbol "a") []
    (some [.call "f" [.string "\\\"\x01é"], .ret none])]

theorem load_parsed_terse :
    parseSource terse "main.lc" = .ok terseProgram ∧
      terseProgram.toJson.nesting ≤ Json.depthLimit ∧
      Program.load terseProgram.toJson.pretty = .ok terseProgram ∧
      (do let q ← Program.load terseProgram.toJson.pretty; q.lower) =
        compileSource terse "main.lc" := by
  have hp : parseSource terse "main.lc" = .ok terseProgram := by cbv
  have hdepth : terseProgram.toJson.nesting ≤ Json.depthLimit := by decide
  have hload := load_parsed terse "main.lc" terseProgram hp hdepth _
    (List.mem_cons_of_mem _ (List.mem_singleton_self _))
  exact ⟨hp, hdepth, hload⟩

end LittleC
