import LittleC.Proofs.Canonical
import LittleC.Proofs.LineStmts
import LittleC.Proofs.Places

/-! The markers of unrecognized nodes, as C reads them. `C.afterComment?` is what is left of a
text behind the comment that it begins with.

A marker for a statement is a comment up to the end of its line, and one for an expression a
comment up to its first closing sequence. `markers_cover` says which of them are comments that
end where the marker does: the first unless a loop begins with the statement, the second unless
a string of the node has a closing sequence in it. -/
namespace LittleC

/-! ### Comments -/

namespace C

/-- What is behind the first closing sequence. -/
def afterClose? : List Char → Option (List Char)
  | [] => none
  | c :: rest => if c = '*' ∧ rest.head? = some '/' then some rest.tail else afterClose? rest

/-- What is behind the comment that a text begins with. -/
def afterComment? : List Char → Option (List Char)
  | '/' :: '/' :: rest => some (rest.dropWhile (· ≠ '\n'))
  | '/' :: '*' :: rest => afterClose? rest
  | _ => none

/-- In front of what stands behind it, the text is a comment that covers exactly the text. -/
def Covers (text back : String) : Prop :=
  afterComment? (text ++ back).toList = some back.toList

instance (text back : String) : Decidable (Covers text back) :=
  inferInstanceAs (Decidable (_ = _))

theorem afterClose?_of_not_closes {inner : List Char} (back : List Char) (h : ¬ Closes inner) :
    afterClose? (inner ++ '*' :: '/' :: back) = some back := by
  induction inner with
  | nil => rfl
  | cons c rest ih =>
    rw [closes_cons_iff, not_or] at h
    -- a star at the end of `rest` meets the star of the closing sequence, not a slash
    have hhead : ¬(c = '*' ∧ (rest ++ '*' :: '/' :: back).head? = some '/') := by
      cases rest with
      | nil => simp
      | cons d others => exact h.1
    rw [List.cons_append, afterClose?, if_neg hhead, ih h.2]

theorem afterClose?_of_closes {inner : List Char} (back : List Char) (h : Closes inner) :
    ∃ rest, afterClose? (inner ++ back) = some (rest ++ back) := by
  induction inner with
  | nil => exact absurd (List.infix_nil.mp h) (by simp)
  | cons c rest ih =>
    rw [List.cons_append, afterClose?]
    split
    · next hhead =>
      cases rest with
      | nil =>
        rcases closes_cons_iff.mp h with ⟨_, h⟩ | h
        · cases h
        · exact absurd (List.infix_nil.mp h) (by simp)
      | cons d others => exact ⟨others, rfl⟩
    · next hhead =>
      rcases closes_cons_iff.mp h with ⟨hstar, hslash⟩ | h
      · refine absurd ⟨hstar, ?_⟩ hhead
        rw [List.head?_append, hslash]
        rfl
      · exact ih h

/-- A comment in brackets ends with its text if no closing sequence stands inside. -/
theorem covers_block_iff (inner back : String) :
    Covers ("/*" ++ inner ++ "*/") back ↔ ¬ Closes inner.toList := by
  have hread : afterComment? ("/*" ++ inner ++ "*/" ++ back).toList =
      afterClose? (inner.toList ++ '*' :: '/' :: back.toList) := by
    simp [afterComment?]
  rw [Covers, hread]
  constructor
  · intro h hcloses
    obtain ⟨rest, hrest⟩ := afterClose?_of_closes ('*' :: '/' :: back.toList) hcloses
    have hlength := congrArg List.length (Option.some.inj (hrest.symm.trans h))
    simp at hlength
    omega
  · exact afterClose?_of_not_closes back.toList

/-- A comment on a line ends with its text if the line does. -/
theorem covers_line_iff {inner : String} (hinner : Made NotBreak inner) (back : String) :
    Covers ("//" ++ inner) back ↔ Layout.EndsLine back := by
  have hread : afterComment? ("//" ++ inner ++ back).toList =
      some (back.toList.dropWhile (· ≠ '\n')) := by
    have hdrop : (inner.toList ++ back.toList).dropWhile (· ≠ '\n') =
        back.toList.dropWhile (· ≠ '\n') :=
      List.dropWhile_append_of_pos fun c hc => decide_eq_true (hinner c hc)
    rw [← hdrop]
    simp [afterComment?]
  rw [Covers, hread, Option.some_inj, Layout.endsLine_iff]
  cases back.toList with
  | nil => simp
  | cons c rest =>
    by_cases hc : c = '\n'
    · simp [hc]
    · -- the comment goes on, so less than all is left behind it
      have hlength := (List.dropWhile_suffix (l := rest) (· ≠ '\n')).length_le
      rw [List.dropWhile_cons_of_pos (by simpa using hc)]
      refine iff_of_false (fun h => ?_) (by simpa using hc)
      rw [h, List.length_cons] at hlength
      omega

end C

/-! ### Markers -/

/-- The line that stands for a statement that could not be read. -/
def Stmt.marker (node : Json) : String :=
  "// UNK: " ++ node.compact

theorem Stmt.covers_marker_iff (node : Json) (back : String) :
    C.Covers (marker node) back ↔ Layout.EndsLine back := by
  have hline : Made NotBreak (" UNK: " ++ node.compact) :=
    Made.append (.of_all (by decide)) node.compact_notBreak
  rw [← C.covers_line_iff hline]
  rfl

theorem Stmt.lowerCode_unrecognized (scope : Scope) (indent : String) (node : Json) :
    (unrecognized node).lowerCode scope indent = .ok (indent ++ marker node) := by
  show Except.ok _ = _
  rw [marker, String.append_assoc]

/-- The line of a marker is over, unless a loop goes on there. -/
theorem Stmt.endsLine_marker_iff {p : Program} {node : Json} {x : Place}
    (hx : (.unrecognized node, x) ∈ p.placed) : Layout.EndsLine x.back ↔ x.opensLoop = false := by
  have hends := Program.placed_ends hx
  unfold Ends at hends
  split at hends
  · next hopens =>
    obtain ⟨rest, hrest⟩ := hends
    rw [hrest]
    exact iff_of_false (Layout.not_endsLine_space rest) (by simpa using hopens)
  · next hopens =>
    refine iff_of_true (hends ?_) (by simpa using hopens)
    rw [codeIn_eq (lowerCode_unrecognized ..), marker]
    simp

/-- A text between others has the only closing sequences, if a space keeps it apart from them. -/
theorem closes_spaced_iff {front inner back : List Char} (hfront : Inside front)
    (hback : ¬ Closes back) : Closes (front ++ (inner ++ [' '] ++ back)) ↔ Closes inner := by
  constructor
  · intro h
    refine Decidable.byContradiction fun hinner => ?_
    have hspace : Inside (inner ++ [' ']) := .concat hinner (by decide) (by decide)
    exact hfront.not_closes_append (hspace.not_closes_append hback) h
  · intro h
    rw [List.append_assoc inner, ← List.append_assoc]
    exact h.trans (List.infix_append ..)

namespace Expr

/-- Up to its last character, the marker of an expression has a closing sequence exactly where
a string of the node has one. -/
theorem closes_marker_iff (node : Json) :
    Closes (marker node).toList.dropLast ↔ ∃ s ∈ node.strings, Closes s.toList := by
  have hchars : (marker node).toList =
      "/* UNK: ".toList ++ (node.compact.toList ++ [' '] ++ ['*']) ++ ['/'] := by
    simp [marker]
  have hopening : Inside "/* UNK: ".toList := by
    have hsplit : "/* UNK: ".toList = ['/', '*'] ++ [' '] ++ "UNK: ".toList := by simp
    have hspace : Inside (['/', '*'] ++ [' ']) := .concat (by decide) (by decide) (by decide)
    rw [hsplit]
    exact hspace.append (.of_not_mem (by decide))
  have hstar : ¬ Closes ['*'] := by decide
  rw [hchars, List.dropLast_concat, closes_spaced_iff hopening hstar, Json.closes_compact_iff]

theorem covers_marker_iff (node : Json) (back : String) :
    C.Covers (marker node) back ↔ ∀ s ∈ node.strings, ¬ Closes s.toList := by
  have hblock : marker node = "/*" ++ (" UNK: " ++ node.compact ++ " ") ++ "*/" := by
    simp only [marker, String.append_assoc]
    rfl
  have hchars : (" UNK: " ++ node.compact ++ " ").toList =
      " UNK: ".toList ++ (node.compact.toList ++ [' '] ++ []) := by
    simp
  have hopening : Inside " UNK: ".toList := .of_not_mem (by decide)
  have hnone : ¬ Closes [] := by decide
  rw [hblock, C.covers_block_iff, hchars, closes_spaced_iff hopening hnone,
    Json.closes_compact_iff]
  simp

end Expr

/-- **Markers are comments.** Every unrecognized statement has a line of its own for its marker,
and there the marker is a comment that covers exactly the marker, unless a loop begins with the
statement: then it also covers what the loop goes on with. The marker of an unrecognized
expression is a comment that covers exactly the marker, unless one of the strings in the node
closes it before. -/
theorem markers_cover (p : Program) (code : String) (h : p.lower = .ok code) :
    p.placed.map Prod.fst = p.stmts ∧
    (∀ node x, (.unrecognized node, x) ∈ p.placed →
      code = x.front ++ (x.indent ++ Stmt.marker node) ++ x.back ∧
      (Layout.EndsLine x.back ↔ x.opensLoop = false) ∧
      (C.Covers (Stmt.marker node) x.back ↔ x.opensLoop = false)) ∧
    ∀ node, .unrecognized node ∈ p.exprs →
      (Expr.marker node).toList <:+: code.toList ∧
      (¬ Closes (Expr.marker node).toList.dropLast ↔ ∀ s ∈ node.strings, ¬ Closes s.toList) ∧
      ∀ back, C.Covers (Expr.marker node) back ↔ ∀ s ∈ node.strings, ¬ Closes s.toList := by
  refine ⟨p.map_fst_placed, fun node x hx => ?_, fun node hnode => ⟨?_, ?_, ?_⟩⟩
  · have hends := Stmt.endsLine_marker_iff hx
    refine ⟨?_, hends, (Stmt.covers_marker_iff node x.back).trans hends⟩
    obtain ⟨text, htext, hcode⟩ := Program.placed_stands h hx
    rw [Stmt.lowerCode_unrecognized] at htext
    rw [hcode, ← Except.ok.inj htext]
  · have hstands := Program.lower_holds h hnode
    rwa [Expr.text] at hstands
  · rw [Expr.closes_marker_iff]
    simp
  · exact Expr.covers_marker_iff node

/-- A loop that begins with a statement of another kind and has one in its body, and a value
with a closing sequence in a string. -/
def strayTree : Json :=
  .array
    [.object [("for", .object
      [("body", .array [.object [("goto", .string "end")]]),
       ("condition", .object [("boolean", .bool true)]),
       ("initialStatement", .object [("while", .null)]),
       ("recurringExpression", .object [("boolean", .bool true)])])],
     .object [("return", .object [("note", .string "*/ x")])]]

def strayProgram : Program :=
  [.loop (.unrecognized (.object [("while", .null)])) (.boolean true) (.boolean true)
    [.unrecognized (.object [("goto", .string "end")])],
   .ret (some (.unrecognized (.object [("note", .string "*/ x")])))]

/-- What stands in `strayProgram` behind the marker in the body. -/
def strayEnd : String :=
  "\n\x7d\nreturn /* UNK: \x7b\"note\":\"*/ x\"\x7d */;"

/-- What stands there behind the marker that the loop begins with. -/
def strayRest : String :=
  " true; true) \x7b\n  // UNK: \x7b\"goto\":\"end\"\x7d" ++ strayEnd

theorem markers_cover_stray :
    strayProgram.lower = .ok ("for(// UNK: \x7b\"while\":null\x7d" ++ strayRest) ∧
      ¬ C.Covers "// UNK: \x7b\"while\":null\x7d" strayRest ∧
      C.Covers "// UNK: \x7b\"goto\":\"end\"\x7d" strayEnd ∧
      ¬ C.Covers "/* UNK: \x7b\"note\":\"*/ x\"\x7d */" ";" := by
  have hlower : strayProgram.lower = .ok ("for(// UNK: \x7b\"while\":null\x7d" ++ strayRest) := by
    rfl
  obtain ⟨_, hstmts, hexprs⟩ := markers_cover strayProgram _ hlower
  have hinitial := (hstmts (.object [("while", .null)])
    ⟨Scope.root.push, "", true, "for(", strayRest⟩ (List.mem_of_getElem? (i := 1) rfl)).2.2
  have hbody := (hstmts (.object [("goto", .string "end")])
    ⟨Scope.root.push.push, "  ", false, "for(// UNK: \x7b\"while\":null\x7d true; true) \x7b\n",
      strayEnd⟩ (List.mem_of_getElem? (i := 2) rfl)).2.2
  have hvalue := (hexprs (.object [("note", .string "*/ x")])
    (List.mem_of_getElem? (i := 2) rfl)).2.2 ";"
  refine ⟨hlower, fun h => ?_, hbody.mpr rfl, fun h => ?_⟩
  · exact absurd (hinitial.mp h) (by simp)
  · exact hvalue.mp h "*/ x" (by simp [Json.strings, Json.stringsMembers]) (by decide)

/-- The tree is read and lowered, the loop goes on behind its marker, where the comment that the
marker opens covers it, and the comment in front of the value ends inside the marker. -/
theorem markers_run_over :
    Program.ofJson strayTree = .ok strayProgram ∧
      strayProgram.lower = .ok ("for(// UNK: \x7b\"while\":null\x7d" ++ strayRest) ∧
      ¬ Layout.EndsLine strayRest ∧
      C.afterComment? ("// UNK: \x7b\"while\":null\x7d" ++ strayRest).toList =
        some ("\n  // UNK: \x7b\"goto\":\"end\"\x7d" ++ strayEnd).toList ∧
      C.afterComment? "/* UNK: \x7b\"note\":\"*/ x\"\x7d */;".toList =
        some " x\"\x7d */;".toList := by
  refine ⟨?_, by rfl, fun h => ?_, by decide, by decide⟩
  · have htruth : Expr.ofJson (.object [("boolean", .bool true)]) = .boolean true :=
      Expr.ofJson_of_some (by rw [Expr.read?_eq]; rfl)
    have hvalue : Expr.ofJson (.object [("note", .string "*/ x")]) =
        .unrecognized (.object [("note", .string "*/ x")]) :=
      Expr.ofJson_of_none (by rw [Expr.read?_eq]; rfl)
    have hinitial : Stmt.ofJson (.object [("while", .null)]) =
        .unrecognized (.object [("while", .null)]) :=
      Stmt.ofJson_of_none (by rw [Stmt.read?_eq]; rfl)
    have hbody : Stmt.ofJson (.object [("goto", .string "end")]) =
        .unrecognized (.object [("goto", .string "end")]) :=
      Stmt.ofJson_of_none (by rw [Stmt.read?_eq]; rfl)
    simp only [strayTree, Program.ofJson, List.map_cons, List.map_nil]
    rw [Stmt.ofJson, Stmt.ofJson, Stmt.read?_eq, Stmt.read?_eq]
    show Except.ok [Stmt.loop (Stmt.ofJson _) (Expr.ofJson _) (Expr.ofJson _) [Stmt.ofJson _],
      Stmt.ret (some (Expr.ofJson _))] = _
    rw [htruth, hvalue, hinitial, hbody]
    rfl
  · exact absurd (Layout.endsLine_iff.mp h ' ' rfl) (by decide)

end LittleC
