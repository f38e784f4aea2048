import LittleC.Proofs.JsonChars
import LittleC.Proofs.Sequence

/-! Statements on one line. Declarations, assignments, calls and returns are written as a line
that ends with a semicolon, the only one that is not in a leaf (`Stmt.lowerCode_ended`). The
marker of an unrecognized statement is a line too, and a prototype is not written. Where no leaf
has a line break in it, these statements fit on the line they begin (`Stmt.lowerCode_line`). -/
namespace LittleC

/-- Any character that does not end a line. -/
def NotBreak (c : Char) : Prop :=
  c ≠ '\n'

instance : DecidablePred NotBreak :=
  fun _ => inferInstanceAs (Decidable (_ ≠ _))

theorem made_ne_iff {c : Char} {s : String} : Made (· ≠ c) s ↔ c ∉ s.toList :=
  ⟨fun h hc => h c hc rfl, fun h _ hd heq => h (heq ▸ hd)⟩

theorem made_notBreak_iff {s : String} : Made NotBreak s ↔ '\n' ∉ s.toList :=
  made_ne_iff

theorem notBreak_glyphs : ∀ c ∈ glyphs, NotBreak c := by
  have hall : glyphs.all (NotBreak ·) = true := by decide
  intro c hc
  simpa using List.all_eq_true.mp hall c hc

theorem Json.compact_notBreak (node : Json) : Made NotBreak node.compact := by
  refine node.compact_printable.mono fun c hc hbreak => ?_
  subst hbreak
  exact absurd hc (by decide)

theorem Expr.marker_notBreak (node : Json) : Made NotBreak (marker node) :=
  (Made.append (.of_all (by decide)) node.compact_notBreak).append (.of_all (by decide))

namespace Stmt

/-- Whether the text of the statement is a line that ends with a semicolon. -/
def isEnded : Stmt → Bool
  | ret _ | declare .. | call .. | assign .. => true
  | prototype .. | function .. | conditional .. | loop .. | raw _ | unrecognized _ => false

/-- Whether the text of the statement is at most a line. -/
def isLine : Stmt → Bool
  | prototype .. | unrecognized _ => true
  | s => s.isEnded

/-- What holds of the leaves of the statement, of the markers in it and of the characters
between them holds of the text. -/
def MadeFrom (s : Stmt) (text : String) : Prop :=
  ∀ Q : Char → Prop, (∀ c ∈ glyphs, Q c) →
    (∀ e ∈ s.exprs, ∀ j, .unrecognized j ∈ e.nodes → Made Q (Expr.marker j)) →
    (∀ leaf ∈ s.leaves, Made Q leaf) → Made Q text

/-- A line around the text of an expression. -/
theorem line_of_expr {scope : Scope} {s : Stmt} (e : Expr) (line : Lowered → String)
    (hlower : ∀ i, s.lowerCode scope i = do
      let v ← e.lower scope
      return i ++ (line v ++ ";"))
    (hline : ∀ v, v.code = e.text → s.MadeFrom (line v))
    {indent code : String} (h : s.lowerCode scope indent = .ok code) :
    ∃ text, (∀ i, s.lowerCode scope i = .ok (i ++ (text ++ ";"))) ∧ s.MadeFrom text := by
  rw [hlower, bind_eq_ok] at h
  obtain ⟨v, hv, _⟩ := h
  refine ⟨line v, fun i => ?_, hline v (Expr.lower_code e hv)⟩
  rw [hlower, hv]
  rfl

/-- **A statement that ends with a semicolon** has the same line at every indentation. -/
theorem lowerCode_ended {scope : Scope} {indent code : String} {s : Stmt}
    (hended : s.isEnded = true) (h : s.lowerCode scope indent = .ok code) :
    ∃ line, (∀ i, s.lowerCode scope i = .ok (i ++ (line ++ ";"))) ∧ s.MadeFrom line := by
  cases s with
  | ret value =>
    cases value with
    | none => exact ⟨"return", fun _ => rfl, fun Q hglyphs _ _ => made_glyphs hglyphs (by decide)⟩
    | some value =>
      refine line_of_expr value (fun v => "return " ++ v.code) (fun i => ?_)
        (fun v hv Q hglyphs hmarkers hleaves => ?_) h
      · simp only [lowerCode_ret, String.append_assoc]
      · have hvalue : ∀ leaf ∈ value.leaves, Made Q leaf := by
          simpa [Stmt.leaves, Expr.leavesAll] using hleaves
        rw [hv]
        exact (made_glyphs hglyphs (by decide)).append
          (value.text_made hglyphs (hmarkers value (List.mem_singleton_self value)) hvalue)
  | declare name value =>
    refine line_of_expr value
      (fun v => v.type.spelling ++ " " ++ name ++ " = " ++ v.code) (fun i => ?_)
      (fun v hv Q hglyphs hmarkers hleaves => ?_) h
    · simp only [lowerCode_declare, String.append_assoc]
    · obtain ⟨hname, hvalue⟩ := List.forall_mem_cons.mp hleaves
      have htext := value.text_made hglyphs (hmarkers value (List.mem_singleton_self value)) hvalue
      rw [hv]
      exact ((((v.type.spelling_made hglyphs).append (made_glyphs hglyphs (by decide))).append
        hname).append (made_glyphs hglyphs (by decide))).append htext
  | call callee arguments =>
    refine line_of_expr (.call callee arguments) Lowered.code (fun i => ?_)
      (fun v hv Q hglyphs hmarkers hleaves => ?_) h
    · simp only [lowerCode_call, String.append_assoc]
    · rw [hv]
      exact Expr.text_made hglyphs _ (Expr.unrecognized_call.mpr hmarkers) hleaves
  | assign target value =>
    refine line_of_expr (.assign target value) Lowered.code (fun i => ?_)
      (fun v hv Q hglyphs hmarkers hleaves => ?_) h
    · simp only [lowerCode_assign, String.append_assoc]
    · rw [hv]
      have hvalue := hmarkers value (List.mem_singleton_self value)
      exact Expr.text_made hglyphs _ (Expr.unrecognized_assign.mpr hvalue) hleaves
  | prototype | function | conditional | loop | raw | unrecognized => cases hended

/-- A statement that fits on a line has no text at all, or the same line at every indentation. -/
theorem lowerCode_line {scope : Scope} {indent code : String} {s : Stmt} (hline : s.isLine = true)
    (hleaves : ∀ leaf ∈ s.leaves, Made NotBreak leaf) (h : s.lowerCode scope indent = .ok code) :
    (∀ i, s.lowerCode scope i = .ok "") ∨
      ∃ line, line ≠ "" ∧ Made NotBreak line ∧ ∀ i, s.lowerCode scope i = .ok (i ++ line) := by
  by_cases hended : s.isEnded = true
  · obtain ⟨line, hlower, hmade⟩ := lowerCode_ended hended h
    refine .inr ⟨line ++ ";", by simp, ?_, hlower⟩
    exact (hmade NotBreak notBreak_glyphs (fun _ _ j _ => Expr.marker_notBreak j) hleaves).append
      (.of_all (by decide))
  · cases s with
    | prototype name signature => exact .inl fun _ => rfl
    | unrecognized node =>
      refine .inr ⟨"// UNK: " ++ node.compact, by simp, ?_, fun i => ?_⟩
      · exact Made.append (.of_all (by decide)) node.compact_notBreak
      · show Except.ok _ = _
        rw [String.append_assoc]
    | ret | declare | call | assign => exact absurd rfl hended
    | function | conditional | loop | raw => cases hline

end Stmt
end LittleC
