import Mathlib
import LittleC.Proofs.Places
import LittleC.Proofs.TokenTexts

/-! The headers of loops. A loop can begin with any statement, whose text is put in front of the
condition and the step. What C expects there ends with the first semicolon of the header, so the
statement has to bring exactly that one.

`loop_headers`: the headers that are such are those of loops that begin with a declaration, an
assignment, a call or a return, without a line break in one of its texts. Every other statement
ends with a line break or a brace, or has no text at all (`Stmt.lowerCode_unended`). -/
namespace LittleC

/-! ### Leaves in a text -/

namespace Expr

mutual
/-- The text of an expression has its leaves. -/
theorem text_holds_leaves : (e : Expr) → ∀ leaf ∈ e.leaves, leaf.toList <:+: e.text.toList
  | binary op left right => by
    refine List.forall_mem_append.mpr ⟨fun leaf hleaf => ?_, fun leaf hleaf => ?_⟩
    · exact (text_holds_leaves left leaf hleaf).trans
        (text_holds (binary op left right) left (by simp [nodes, self_mem_nodes]))
    · exact (text_holds_leaves right leaf hleaf).trans
        (text_holds (binary op left right) right (by simp [nodes, self_mem_nodes]))
  | call callee arguments => by
    refine List.forall_mem_cons.mpr ⟨?_, fun leaf hleaf => ?_⟩
    · simp only [text, String.toList_append, List.append_assoc]
      exact (List.prefix_append _ _).isInfix
    · obtain ⟨argument, hmem, h⟩ := text_holds_leavesAll arguments leaf hleaf
      refine h.trans (text_holds (call callee arguments) argument ?_)
      rw [nodes, nodesAll_eq_flatMap]
      exact List.mem_cons_of_mem _ (List.mem_flatMap.mpr ⟨argument, hmem, argument.self_mem_nodes⟩)
  | assign target value => by
    refine List.forall_mem_cons.mpr ⟨?_, fun leaf hleaf => ?_⟩
    · simp only [text, String.toList_append, List.append_assoc]
      exact (List.prefix_append _ _).isInfix
    · exact (text_holds_leaves value leaf hleaf).trans
        (text_holds (assign target value) value (by simp [nodes, self_mem_nodes]))
  | string t => by
    refine List.forall_mem_singleton.mpr ?_
    rw [text, String.toList_append, String.toList_append]
    exact List.infix_append ..
  | symbol _ | float _ | double _ | integer _ | raw _ =>
    List.forall_mem_singleton.mpr (List.infix_refl _)
  | boolean _ | unrecognized _ => List.forall_mem_nil _

theorem text_holds_leavesAll : (es : List Expr) → ∀ leaf ∈ leavesAll es,
    ∃ e ∈ es, leaf.toList <:+: e.text.toList
  | [] => List.forall_mem_nil _
  | e :: rest => by
    refine List.forall_mem_append.mpr ⟨fun leaf hleaf => ?_, fun leaf hleaf => ?_⟩
    · exact ⟨e, List.mem_cons_self .., text_holds_leaves e leaf hleaf⟩
    · obtain ⟨d, hd, h⟩ := text_holds_leavesAll rest leaf hleaf
      exact ⟨d, List.mem_cons_of_mem _ hd, h⟩
end

end Expr

namespace Stmt

/-- The text of a statement that ends with a semicolon has its leaves. -/
theorem ended_holds_leaves {scope : Scope} {indent code : String} {s : Stmt}
    (hended : s.isEnded = true) (h : s.lowerCode scope indent = .ok code) :
    ∀ leaf ∈ s.leaves, leaf.toList <:+: code.toList := by
  have hexprs := lowerCode_holds h
  cases s with
  | ret value =>
    intro leaf hleaf
    obtain ⟨v, hv, hstands⟩ := Expr.text_holds_leavesAll value.toList leaf hleaf
    exact hstands.trans (hexprs v hv)
  | declare name value =>
    refine List.forall_mem_cons.mpr ⟨?_, fun leaf hleaf => ?_⟩
    · simp only [lowerCode_declare, bind_eq_ok] at h
      obtain ⟨v, _, h⟩ := h
      cases h
      refine ⟨(indent ++ v.type.spelling ++ " ").toList, (" = " ++ v.code ++ ";").toList, ?_⟩
      simp only [String.toList_append, List.append_assoc]
    · exact (value.text_holds_leaves leaf hleaf).trans
        (hexprs value (List.mem_singleton_self value))
  | call callee arguments =>
    simp only [lowerCode_call, bind_eq_ok] at h
    obtain ⟨v, hv, h⟩ := h
    cases h
    intro leaf hleaf
    refine (Expr.text_holds_leaves _ leaf hleaf).trans ?_
    rw [← Expr.lower_code _ hv, String.toList_append, String.toList_append]
    exact List.infix_append ..
  | assign target value =>
    simp only [lowerCode_assign, bind_eq_ok] at h
    obtain ⟨v, hv, h⟩ := h
    cases h
    intro leaf hleaf
    refine (Expr.text_holds_leaves _ leaf hleaf).trans ?_
    rw [← Expr.lower_code _ hv, String.toList_append, String.toList_append]
    exact List.infix_append ..
  | prototype | function | conditional | loop | raw | unrecognized => cases hended

/-! ### What a loop begins with -/

/-- Any other statement that is recognized does not end with a semicolon. -/
theorem lowerCode_unended {scope : Scope} {indent code : String} {s : Stmt}
    (hended : s.isEnded = false) (hrec : ∀ node, s ≠ unrecognized node)
    (h : s.lowerCode scope indent = .ok code) (line : String) : code ≠ line ++ ";" := by
  have hlast : ∀ {front last : String}, last.toList.length = 1 → last ≠ ";" →
      front ++ last ≠ line ++ ";" := by
    intro front last hlength hne heq
    have hlist := congrArg String.toList heq
    rw [String.toList_append, String.toList_append] at hlist
    exact hne (String.toList_inj.mp (List.append_inj_right' hlist hlength))
  have hbraced : ∀ header text, header ++ Layout.braced indent text ≠ line ++ ";" := by
    intro header text
    rw [Layout.braced, ← String.append_assoc]
    exact hlast rfl (by decide)
  cases s with
  | prototype name signature =>
    cases h
    exact fun heq => absurd (congrArg String.toList heq) (by simp)
  | function name signature body =>
    simp only [lowerCode_function, bind_eq_ok] at h
    obtain ⟨text, _, h⟩ := h
    cases h
    exact hlast rfl (by decide)
  | conditional condition body otherwise =>
    cases otherwise with
    | none =>
      simp only [lowerCode_conditional, bind_eq_ok] at h
      obtain ⟨c, _, text, _, h⟩ := h
      cases h
      exact hbraced _ _
    | some otherwise =>
      simp only [lowerCode_alternative, bind_eq_ok] at h
      obtain ⟨c, _, text, _, text', _, h⟩ := h
      cases h
      exact hbraced _ _
  | loop initial condition step body =>
    simp only [lowerCode_loop, bind_eq_ok] at h
    obtain ⟨i, _, c, _, e, _, text, _, h⟩ := h
    cases h
    exact hbraced _ _
  | raw text =>
    cases h
    exact hlast rfl (by decide)
  | unrecognized node => exact absurd rfl (hrec node)
  | ret | declare | call | assign => cases hended

theorem notSemicolon_glyphs : ∀ c ∈ glyphs, c ≠ ';' := by
  have hall : glyphs.all (· ≠ ';') = true := by decide
  intro c hc
  simpa using List.all_eq_true.mp hall c hc

/-- The text of a statement is what C expects at the beginning of a header, up to the first
semicolon, exactly if it is one that ends with a semicolon and no leaf breaks the line. -/
theorem opens_header_iff {scope : Scope} {first : String} {s : Stmt}
    (hrec : s.Legible (· ≠ ';')) (h : s.lowerCode scope "" = .ok first) :
    (∃ line, first = line ++ ";" ∧ ';' ∉ line.toList ∧ '\n' ∉ line.toList) ↔
      s.isEnded = true ∧ ∀ leaf ∈ s.leaves, '\n' ∉ leaf.toList := by
  constructor
  · rintro ⟨line, rfl, _, hbreak⟩
    have hended : s.isEnded = true := by
      refine Bool.not_eq_false _ ▸ fun hunended => ?_
      exact lowerCode_unended hunended hrec.recognized h line rfl
    refine ⟨hended, fun leaf hleaf hmem => hbreak ?_⟩
    have hmem := (ended_holds_leaves hended h leaf hleaf).mem hmem
    simpa using hmem
  · rintro ⟨hended, hleaves⟩
    obtain ⟨line, hlower, hmade⟩ := lowerCode_ended hended h
    refine ⟨line, ?_, ?_, ?_⟩
    · simpa using Except.ok.inj (h.symm.trans (hlower ""))
    · exact made_ne_iff.mp (hmade _ notSemicolon_glyphs
        (fun e he j hj => absurd hj (hrec.exprs e he j)) hrec.leaves)
    · refine made_notBreak_iff.mp (hmade _ notBreak_glyphs
        (fun _ _ j _ => Expr.marker_notBreak j) fun leaf hleaf => ?_)
      exact made_notBreak_iff.mpr (hleaves leaf hleaf)

end Stmt

/-- **Headers of loops are headers in C** where the loop begins with a statement that ends with
a semicolon. Of a source text without semicolons in its strings and raw texts, the header of
every loop has the text of its first statement, that of the condition and that of the step in
it. The first of them is a text without semicolons and line breaks, and a semicolon, exactly if
that statement is a declaration, an assignment, a call or a return, and no leaf of it has a line
break in it. -/
theorem loop_headers (source file : String) (tokens : List Token) (p : Program) (code : String)
    (hscan : scan source file = .ok tokens) (hparse : parseSource source file = .ok p)
    (hlower : p.lower = .ok code)
    (htexts : ∀ t ∈ tokens, t.kind = .string ∨ t.kind = .rawCode → ';' ∉ t.value.toList) :
    p.placed.map Prod.fst = p.stmts ∧
    ∀ initial condition step body x, (.loop initial condition step body, x) ∈ p.placed →
      ∃ first c s block, initial.lowerCode x.scope.push "" = .ok first ∧
        condition.lower (initial.after x.scope.push) = .ok c ∧
        step.lower (initial.after x.scope.push) = .ok s ∧
        code = x.front ++ (x.indent ++ "for(" ++ first ++ " " ++ c.code ++ "; " ++ s.code ++ ")" ++
          Layout.braced x.indent block) ++ x.back ∧
        ((∃ line, first = line ++ ";" ∧ ';' ∉ line.toList ∧ '\n' ∉ line.toList) ↔
          initial.isEnded = true ∧ ∀ leaf ∈ initial.leaves, '\n' ∉ leaf.toList) := by
  refine ⟨p.map_fst_placed, fun initial condition step body x hx => ?_⟩
  obtain ⟨text, htext, hcode⟩ := Program.placed_stands hlower hx
  simp only [Stmt.lowerCode_loop, Stmt.lower_eq, bind_eq_ok] at htext
  obtain ⟨i, ⟨first, hfirst, hi⟩, c, hc, s, hs, block, _, htext⟩ := htext
  cases hi
  cases htext
  refine ⟨first, c, s, block, hfirst, hc, hs, hcode, ?_⟩
  have hrec := Program.recognized_of_surface (parseSource_surface hparse)
  have hfree := parsed_leaves_free hscan hparse (by decide) (by decide) htexts
  have hlegible := hrec.legible (Q := (· ≠ ';')) fun leaf hleaf => made_ne_iff.mpr (hfree leaf hleaf)
  have hmem : .loop initial condition step body ∈ p.stmts := by
    rw [← p.map_fst_placed]
    exact List.mem_map_of_mem hx
  have hinitial := Stmt.forall_nodesAll.mpr hlegible initial (Program.initial_mem_stmts hmem)
  exact Stmt.opens_header_iff hinitial hfirst

/-- A loop that begins with a declaration. -/
def counting : String :=
  "for(let j = 0; j < 3; true) \x7b\x7d"

def countingTokens : List Token :=
  [(.kwFor, "for", 0, 3), (.openParen, "(", 3, 4), (.kwLet, "let", 4, 7),
   (.identifier, "j", 8, 9), (.assignment, "=", 10, 11), (.number, "0", 12, 13),
   (.semicolon, ";", 13, 14), (.identifier, "j", 15, 16), (.less, "<", 17, 18),
   (.number, "3", 19, 20), (.semicolon, ";", 20, 21), (.kwTrue, "true", 22, 26),
   (.closeParen, ")", 26, 27), (.openCurly, "\x7b", 28, 29), (.closeCurly, "\x7d", 29, 30),
   (.eof, "EOF", 30, 30)].map
    fun (kind, value, start, stop) => ⟨kind, value, ⟨start, stop, "main.lc"⟩⟩

def countingProgram : Program :=
  [.loop (.declare "j" (.integer "0")) (.binary .lessThan (.symbol "j") (.integer "3"))
    (.boolean true) []]

theorem loop_headers_counting :
    scan counting "main.lc" = .ok countingTokens ∧
      parseSource counting "main.lc" = .ok countingProgram ∧
      countingProgram.lower = .ok "for(int j = 0; j < 3; true) \x7b\n\n\x7d" ∧
      (∀ t ∈ countingTokens, t.kind = .string ∨ t.kind = .rawCode → ';' ∉ t.value.toList) ∧
      ∃ first, (Stmt.declare "j" (.integer "0")).lowerCode Scope.root.push "" = .ok first ∧
        ∃ line, first = line ++ ";" ∧ ';' ∉ line.toList ∧ '\n' ∉ line.toList := by
  have hscan : scan counting "main.lc" = .ok countingTokens := by cbv
  have hparse : parseSource counting "main.lc" = .ok countingProgram := by
    rw [parseSource, hscan]
    cbv
  have hlower : countingProgram.lower = .ok "for(int j = 0; j < 3; true) \x7b\n\n\x7d" := by rfl
  have htexts : ∀ t ∈ countingTokens, t.kind = .string ∨ t.kind = .rawCode →
      ';' ∉ t.value.toList := by
    simp [countingTokens]
  obtain ⟨_, hheaders⟩ := loop_headers counting "main.lc" countingTokens countingProgram _
    hscan hparse hlower htexts
  obtain ⟨first, _, _, _, hfirst, _, _, _, hopens⟩ :=
    hheaders _ _ _ _ .whole (List.mem_of_getElem? (i := 0) rfl)
  refine ⟨hscan, hparse, hlower, htexts, first, hfirst, hopens.mpr ⟨rfl, ?_⟩⟩
  simp [Stmt.leaves, Expr.leaves]

/-- A loop that begins with raw text. -/
def rawLoop : String :=
  "for(\x60i = 0\x60; true; true) \x7b\x7d"

def rawLoopTokens : List Token :=
  [(.kwFor, "for", 0, 3), (.openParen, "(", 3, 4), (.rawCode, "i = 0", 4, 11),
   (.semicolon, ";", 11, 12), (.kwTrue, "true", 13, 17), (.semicolon, ";", 17, 18),
   (.kwTrue, "true", 19, 23), (.closeParen, ")", 23, 24), (.openCurly, "\x7b", 25, 26),
   (.closeCurly, "\x7d", 26, 27), (.eof, "EOF", 27, 27)].map
    fun (kind, value, start, stop) => ⟨kind, value, ⟨start, stop, "main.lc"⟩⟩

def rawLoopProgram : Program :=
  [.loop (.raw "i = 0") (.boolean true) (.boolean true) []]

/-- The raw text brings no semicolon, and the line ends in the middle of the header. -/
theorem raw_header_unended :
    scan rawLoop "main.lc" = .ok rawLoopTokens ∧
      (∀ t ∈ rawLoopTokens, t.kind = .string ∨ t.kind = .rawCode → ';' ∉ t.value.toList) ∧
      parseSource rawLoop "main.lc" = .ok rawLoopProgram ∧
      rawLoopProgram.lower = .ok ("for(" ++ "i = 0\n" ++ " true; true) \x7b\n\n\x7d") ∧
      (Stmt.raw "i = 0").lowerCode Scope.root.push "" = .ok "i = 0\n" ∧
      ¬ ∃ line, "i = 0\n" = line ++ ";" ∧ ';' ∉ line.toList ∧ '\n' ∉ line.toList := by
  have hscan : scan rawLoop "main.lc" = .ok rawLoopTokens := by cbv
  have hparse : parseSource rawLoop "main.lc" = .ok rawLoopProgram := by
    rw [parseSource, hscan]
    cbv
  have hraw : (Stmt.raw "i = 0").lowerCode Scope.root.push "" = .ok "i = 0\n" := by rfl
  refine ⟨hscan, by simp [rawLoopTokens], hparse, by rfl, hraw, ?_⟩
  rintro ⟨line, hline, _⟩
  exact Stmt.lowerCode_unended rfl (by simp) hraw line hline

end LittleC
