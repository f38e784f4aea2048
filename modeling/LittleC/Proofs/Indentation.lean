import LittleC.Proofs.LineStmts

/-! Indentation. Lowering puts the indentation it is given in front of every line that it
writes, and nowhere else, so that a block that is indented further has the same text with more
in front of its lines (`indentation_uniform`). Lines without text stay empty: those between the
braces of a block that has no statements, and those behind functions and raw texts.

The text of a loop begins with that of a statement which is not indented. The law is about
programs where that statement fits on the line (`Stmt.isLine`). -/
namespace LittleC

/-! ### Lines of a text -/

namespace Layout

/-- A text with an indentation in front of each of its lines that is not empty. -/
def indentLines (indent text : String) : String :=
  "\n".intercalate ((text.toList.splitOn '\n').map fun line =>
    if line = [] then "" else indent ++ String.ofList line)

@[simp] theorem indentLines_empty (i : String) : indentLines i "" = "" := by
  simp [indentLines]

theorem indentLines_line (i : String) {line : String} (hline : Made NotBreak line)
    (hne : line ≠ "") : indentLines i line = i ++ line := by
  have hlist : line.toList ≠ [] := by simpa using hne
  rw [indentLines, List.splitOn_eq_singleton (made_notBreak_iff.mp hline)]
  simp [hlist]

/-- The lines above a line break and those below it are indented on their own. -/
theorem indentLines_break (i above below : String) :
    indentLines i (above ++ "\n" ++ below) =
      indentLines i above ++ "\n" ++ indentLines i below := by
  have hlist : (above ++ "\n" ++ below).toList = above.toList ++ '\n' :: below.toList := by simp
  rw [indentLines, hlist, List.splitOn_append_cons_self, List.map_append,
    String.intercalate_append_of_ne_nil (by simp [List.splitOn_ne_nil])
      (by simp [List.splitOn_ne_nil])]
  rfl

theorem indentLines_ne_empty (i : String) {text : String} (h : text ≠ "") :
    indentLines i text ≠ "" := by
  by_cases hbreak : '\n' ∈ text.toList
  · obtain ⟨above, below, hsplit⟩ := List.append_of_mem hbreak
    have htext : text = String.ofList above ++ "\n" ++ String.ofList below := by
      rw [← String.toList_inj, hsplit]
      simp
    rw [htext, indentLines_break]
    simp
  · rw [indentLines_line i (made_notBreak_iff.mpr hbreak) h]
    simpa using fun _ => h

theorem indentLines_stack (i above below : String) :
    indentLines i (stack above below) = stack (indentLines i above) (indentLines i below) := by
  by_cases ha : above = ""
  · rw [ha, stack_empty, indentLines_empty, stack_empty]
  by_cases hb : below = ""
  · rw [hb, empty_stack, indentLines_empty, empty_stack]
  rw [stack_of_ne ha hb, stack_of_ne (indentLines_ne_empty i ha) (indentLines_ne_empty i hb),
    indentLines_break]

/-! Blocks behind a header that is on one line. -/

section
variable {header j : String} (i body : String)

theorem braced_lines (indent : String) :
    braced indent body = " \x7b" ++ "\n" ++ body ++ "\n" ++ (indent ++ "\x7d") := by
  simp only [braced, String.append_assoc]
  rfl

theorem indentLines_braced (hheader : Made NotBreak header) (hj : Made NotBreak j) :
    indentLines i (header ++ braced j body) =
      i ++ header ++ braced (i ++ j) (indentLines i body) := by
  have hopening : Made NotBreak (header ++ " \x7b") := hheader.append (.of_all (by decide))
  have hclosing : Made NotBreak (j ++ "\x7d") := hj.append (.of_all (by decide))
  have hlines : header ++ braced j body =
      (header ++ " \x7b") ++ "\n" ++ body ++ "\n" ++ (j ++ "\x7d") := by
    simp only [braced_lines, String.append_assoc]
  rw [hlines, indentLines_break, indentLines_break, indentLines_line i hopening (by simp),
    indentLines_line i hclosing (by simp), braced_lines]
  simp only [String.append_assoc]

theorem indentLines_alternative (hheader : Made NotBreak header) (hj : Made NotBreak j)
    (other : String) :
    indentLines i (header ++ braced j body ++ " else" ++ braced j other) =
      i ++ header ++ braced (i ++ j) (indentLines i body) ++ " else" ++
        braced (i ++ j) (indentLines i other) := by
  have hopening : Made NotBreak (header ++ " \x7b") := hheader.append (.of_all (by decide))
  have hmiddle : Made NotBreak (j ++ "\x7d else") := hj.append (.of_all (by decide))
  have hlines : ∀ header j body other : String,
      header ++ braced j body ++ " else" ++ braced j other =
        (header ++ " \x7b") ++ "\n" ++ body ++ "\n" ++ (j ++ "\x7d else" ++ braced j other) := by
    intro header j body other
    simp only [braced_lines, String.append_assoc]
    rfl
  rw [hlines, indentLines_break, indentLines_break, indentLines_line i hopening (by simp),
    indentLines_braced i other hmiddle hj, hlines]
  simp only [String.append_assoc]

end

end Layout

/-! ### Failures -/

/-- What lowering comes to without the text. -/
def verdict {α : Type} (x : Except Error α) : Except Error Unit := do
  let _ ← x
  return ()

theorem verdict_bind {α β : Type} (x : Except Error α) (f : α → Except Error β) :
    verdict (x >>= f) = x >>= fun a => verdict (f a) :=
  bind_assoc x f _

theorem verdict_pure {α : Type} (a : α) : verdict (pure a : Except Error α) = pure () :=
  rfl

/-- What is lowered behind a text does not see the text. -/
theorem verdict_then {α β : Type} (x : Except Error α) (y : Except Error β) :
    (x >>= fun _ => y) = verdict x >>= fun _ => y := by
  cases x <;> rfl

theorem verdict_eq_error {α : Type} {x : Except Error α} {e : Error} :
    verdict x = .error e ↔ x = .error e := by
  cases x with
  | error e' =>
    constructor
    · intro h
      cases h
      rfl
    · intro h
      cases h
      rfl
  | ok a =>
    constructor
    · intro h
      cases h
    · intro h
      cases h

namespace Stmt

mutual
/-- The indentation has no part in whether lowering fails, and how. -/
theorem verdict_lowerCode (scope : Scope) (i j : String) : (s : Stmt) →
    verdict (s.lowerCode scope i) = verdict (s.lowerCode scope j)
  | function name signature body => by
    simp only [lowerCode_function, verdict_bind, verdict_pure]
    exact verdict_lowerBlock _ _ _ body
  | conditional condition body none => by
    simp only [lowerCode_conditional, verdict_bind, verdict_pure]
    congr 1
    funext c
    exact verdict_lowerBlock _ _ _ body
  | conditional condition body (some otherwise) => by
    simp only [lowerCode_alternative, verdict_bind, verdict_pure]
    congr 1
    funext c
    rw [verdict_then, verdict_lowerBlock _ _ (Layout.nested j) body, ← verdict_then]
    congr 1
    funext text
    exact verdict_lowerBlock _ _ _ otherwise
  | loop initial condition step body => by
    simp only [lowerCode_loop, verdict_bind, verdict_pure]
    congr 1
    funext first
    congr 1
    funext c
    congr 1
    funext e
    exact verdict_lowerBlock _ _ _ body
  | ret none => rfl
  | ret (some value) => by simp only [lowerCode_ret, verdict_bind, verdict_pure]
  | declare name value => by simp only [lowerCode_declare, verdict_bind, verdict_pure]
  | call callee arguments => by simp only [lowerCode_call, verdict_bind, verdict_pure]
  | assign target value => by simp only [lowerCode_assign, verdict_bind, verdict_pure]
  | prototype _ _ | raw _ | unrecognized _ => rfl

theorem verdict_lowerBlock (scope : Scope) (i j : String) : (ss : List Stmt) →
    verdict (lowerBlock scope i ss) = verdict (lowerBlock scope j ss)
  | [] => rfl
  | s :: rest => by
    simp only [lowerBlock_cons, verdict_bind, verdict_pure]
    show (s.lowerCode scope i >>= fun _ => verdict (lowerBlock (s.after scope) i rest)) =
      s.lowerCode scope j >>= fun _ => verdict (lowerBlock (s.after scope) j rest)
    rw [verdict_then, verdict_lowerCode scope i j s, ← verdict_then,
      verdict_lowerBlock (s.after scope) i j rest]
end

/-! ### Texts -/

/-- What uniform indentation asks of a statement besides the statements inside it. -/
structure Tidy (s : Stmt) : Prop where
  leaves : ∀ leaf ∈ s.leaves, Made NotBreak leaf
  raw : s ≠ raw ""
  initial : ∀ initial condition step body, s = loop initial condition step body →
    initial.isLine = true

/-- An expression is written on one line if its leaves are. -/
theorem expr_line {scope : Scope} {e : Expr} {v : Lowered}
    (hleaves : ∀ leaf ∈ e.leaves, Made NotBreak leaf) (h : e.lower scope = .ok v) :
    Made NotBreak v.code := by
  rw [Expr.lower_code e h]
  exact Expr.text_made notBreak_glyphs e (fun j _ => Expr.marker_notBreak j) hleaves

/-- The text that a loop begins with is on the line of the loop. -/
theorem initial_line {scope : Scope} {code : String} {s : Stmt} (hline : s.isLine = true)
    (hs : s.Tidy) (h : s.lowerCode scope "" = .ok code) : Made NotBreak code := by
  rcases lowerCode_line hline hs.leaves h with hlower | ⟨line, _, hmade, hlower⟩
  · rw [hlower] at h
    cases h
    exact List.forall_mem_nil _
  · rw [hlower] at h
    cases h
    exact Made.append (List.forall_mem_nil _) hmade

theorem nested_append (i j : String) : Layout.nested (i ++ j) = i ++ Layout.nested j :=
  String.append_assoc

theorem lowerCode_indent_line (i : String) {j : String} {scope : Scope} {code : String} {s : Stmt}
    (hj : Made NotBreak j) (hline : s.isLine = true) (hs : s.Tidy)
    (h : s.lowerCode scope j = .ok code) :
    s.lowerCode scope (i ++ j) = .ok (Layout.indentLines i code) := by
  rcases lowerCode_line hline hs.leaves h with hlower | ⟨line, hne, hmade, hlower⟩
  · rw [hlower] at h
    cases h
    rw [hlower, Layout.indentLines_empty]
  · rw [hlower] at h
    cases h
    rw [hlower, Layout.indentLines_line i (hj.append hmade) (by simp [hne]), String.append_assoc]

mutual
/-- A statement that is indented further is written with more in front of its lines. -/
theorem lowerCode_indent (i : String) {j : String} (hj : Made NotBreak j) {scope : Scope} :
    (s : Stmt) → (∀ t ∈ s.nodes, t.Tidy) → {code : String} → s.lowerCode scope j = .ok code →
    s.lowerCode scope (i ++ j) = .ok (Layout.indentLines i code)
  | function name signature body, hs, code, h => by
    obtain ⟨hown, hbody⟩ := forall_nodes_function.mp hs
    obtain ⟨hname, hparams⟩ := List.forall_mem_cons.mp hown.leaves
    rw [lowerCode_function, bind_eq_ok] at h
    obtain ⟨text, htext, h⟩ := h
    cases h
    have hinner := lowerBlock_indent i (hj.nested notBreak_glyphs) body hbody htext
    have hheader := functionHeader_made notBreak_glyphs signature hj hname hparams
    -- Behind the closing brace there is one more line, which is empty.
    have hlines : ∀ indent text, functionCode indent name signature text =
        indent ++ signature.result.spelling ++ " " ++ name ++ "(" ++
          paramList signature.params ++ ")" ++ Layout.braced indent text ++ "\n" ++ "" := by
      intro indent text
      rw [functionCode, String.append_empty]
    rw [lowerCode_function, nested_append, hinner, hlines, Layout.indentLines_break,
      Layout.indentLines_braced i text hheader hj, Layout.indentLines_empty]
    show Except.ok (functionCode _ _ _ _) = _
    rw [hlines]
    simp only [String.append_assoc]
  | conditional condition body none, hs, code, h => by
    obtain ⟨hown, hbody, _⟩ := forall_nodes_conditional.mp hs
    simp only [lowerCode_conditional, bind_eq_ok] at h
    obtain ⟨c, hc, text, htext, h⟩ := h
    cases h
    have hinner := lowerBlock_indent i (hj.nested notBreak_glyphs) body hbody htext
    have hheader := ifHeader_made notBreak_glyphs hj (expr_line hown.leaves hc)
    rw [lowerCode_conditional, hc, nested_append, hinner, Layout.indentLines_braced i text hheader hj]
    show Except.ok _ = _
    simp only [String.append_assoc]
  | conditional condition body (some otherwise), hs, code, h => by
    obtain ⟨hown, hbody, hother⟩ := forall_nodes_conditional.mp hs
    simp only [lowerCode_alternative, bind_eq_ok] at h
    obtain ⟨c, hc, text, htext, text', htext', h⟩ := h
    cases h
    have hnested := hj.nested notBreak_glyphs
    have hinner := lowerBlock_indent i hnested body hbody htext
    have hinner' := lowerBlock_indent i hnested otherwise (hother _ rfl) htext'
    have hheader := ifHeader_made notBreak_glyphs hj (expr_line hown.leaves hc)
    rw [lowerCode_alternative, hc, nested_append, hinner, hinner',
      Layout.indentLines_alternative i text hheader hj]
    show Except.ok _ = _
    simp only [String.append_assoc]
  | loop initial condition step body, hs, code, h => by
    obtain ⟨hown, hinitial, hbody⟩ := forall_nodes_loop.mp hs
    obtain ⟨hcleaves, hsleaves⟩ := List.forall_mem_append.mp hown.leaves
    simp only [lowerCode_loop, lower_eq, bind_assoc, pure_bind, bind_eq_ok] at h
    obtain ⟨first, hfirst, c, hc, e, he, text, htext, h⟩ := h
    cases h
    have hinner := lowerBlock_indent i (hj.nested notBreak_glyphs) body hbody htext
    have hstart : Made NotBreak first :=
      initial_line (hown.initial _ _ _ _ rfl) (hinitial initial initial.self_mem_nodes) hfirst
    have hheader : Made NotBreak (j ++ "for(" ++ first ++ " " ++ c.code ++ "; " ++ e.code ++ ")") :=
      ((((((hj.append (.of_all (by decide))).append hstart).append (.of_all (by decide))).append
        (expr_line hcleaves hc)).append (.of_all (by decide))).append
        (expr_line hsleaves he)).append (.of_all (by decide))
    rw [lowerCode_loop, lower_eq, hfirst, nested_append, Layout.indentLines_braced i text hheader hj]
    show (do
      let c ← condition.lower (initial.after scope.push)
      let s ← step.lower (initial.after scope.push)
      let text ← lowerBlock (initial.after scope.push).push (i ++ Layout.nested j) body
      return i ++ j ++ "for(" ++ first ++ " " ++ c.code ++ "; " ++ s.code ++ ")" ++
        Layout.braced (i ++ j) text) = _
    rw [hc, he, hinner]
    show Except.ok _ = _
    simp only [String.append_assoc]
  | raw text, hs, code, h => by
    have hown := (forall_nodes_leaf rfl).mp hs
    cases h
    have htext := hown.leaves text (List.mem_singleton_self text)
    have hne : text ≠ "" := fun hempty => hown.raw (hempty ▸ rfl)
    have hlines : ∀ indent, indent ++ text ++ "\n" = indent ++ text ++ "\n" ++ "" :=
      fun _ => String.append_empty.symm
    rw [hlines, Layout.indentLines_break, Layout.indentLines_line i (hj.append htext) (by simp [hne])]
    show Except.ok _ = _
    simp [String.append_assoc]
  | prototype .., hs, _, h | ret .., hs, _, h | declare .., hs, _, h | call .., hs, _, h
  | assign .., hs, _, h | unrecognized .., hs, _, h =>
    lowerCode_indent_line i hj rfl ((forall_nodes_leaf rfl).mp hs) h

theorem lowerBlock_indent (i : String) {j : String} (hj : Made NotBreak j) {scope : Scope} :
    (ss : List Stmt) → (∀ s ∈ ss, ∀ t ∈ s.nodes, t.Tidy) → {text : String} →
    lowerBlock scope j ss = .ok text →
    lowerBlock scope (i ++ j) ss = .ok (Layout.indentLines i text)
  | [], _, text, h => by
    cases h
    exact congrArg Except.ok (Layout.indentLines_empty i).symm
  | s :: rest, hss, text, h => by
    obtain ⟨hs, hrest⟩ := List.forall_mem_cons.mp hss
    simp only [lowerBlock_cons, bind_eq_ok] at h
    obtain ⟨code, hcode, below, hbelow, h⟩ := h
    cases h
    rw [lowerBlock_cons, lowerCode_indent i hj s hs hcode]
    show lowerBlock (s.after scope) (i ++ j) rest >>= _ = _
    rw [lowerBlock_indent i hj rest hrest hbelow, Layout.indentLines_stack]
    rfl
end

end Stmt

/-- **Indentation is cosmetic and uniform.** A block fails at one indentation as it does at
another. Where it does not, no leaf of it has a line break, no raw text is empty and every loop
begins with a statement that fits on its line, indenting it further puts that much in front of
every line of its text that is not empty. -/
theorem indentation_uniform (p : List Stmt) (scope : Scope) (i j : String)
    (hj : '\n' ∉ j.toList) :
    (∀ e, Stmt.lowerBlock scope (i ++ j) p = .error e ↔ Stmt.lowerBlock scope j p = .error e) ∧
    ∀ text, Stmt.lowerBlock scope j p = .ok text →
      (∀ leaf ∈ Program.leaves p, '\n' ∉ leaf.toList) → .raw "" ∉ Program.stmts p →
      (∀ initial condition step body, .loop initial condition step body ∈ Program.stmts p →
        initial.isLine = true) →
      Stmt.lowerBlock scope (i ++ j) p = .ok (Layout.indentLines i text) := by
  refine ⟨fun e => ?_, fun text htext hleaves hraw hinitial => ?_⟩
  · rw [← verdict_eq_error, Stmt.verdict_lowerBlock scope (i ++ j) j p, verdict_eq_error]
  · refine Stmt.lowerBlock_indent i (made_notBreak_iff.mpr hj) p
      (Stmt.forall_nodesAll.mp fun s hs => ⟨fun leaf hleaf => ?_, ?_, ?_⟩) htext
    · exact made_notBreak_iff.mpr (hleaves leaf (List.mem_flatMap.mpr ⟨s, hs, hleaf⟩))
    · rintro rfl
      exact hraw hs
    · rintro initial condition step body rfl
      exact hinitial initial condition step body hs

/-- Blocks in blocks, an empty one among them, and statements of most kinds. -/
def layered : Program :=
  [.prototype "tick" ⟨[], .void⟩,
    .function "run" ⟨[⟨"n", .i32⟩], .void⟩
      [.loop (.declare "i" (.integer "0")) (.binary .lessThan (.symbol "i") (.symbol "n"))
        (.assign "i" (.binary .plus (.symbol "i") (.integer "1")))
        [.conditional (.boolean true) []
          (some [.raw "tick();", .unrecognized (.object [("while", .null)])])]]]

/-- The text of `layered`, with this in front of its lines. -/
def layeredCode (i : String) : String :=
  i ++ "void run(int n) \x7b\n" ++
  i ++ "  for(int i = 0; i < n; i = i + 1) \x7b\n" ++
  i ++ "    if(true) \x7b\n" ++
  "\n" ++
  i ++ "    \x7d else \x7b\n" ++
  i ++ "      tick();\n" ++
  "\n" ++
  i ++ "      // UNK: \x7b\"while\":null\x7d\n" ++
  i ++ "    \x7d\n" ++
  i ++ "  \x7d\n" ++
  i ++ "\x7d\n"

theorem indentation_uniform_layered :
    '\n' ∉ "  ".toList ∧ Stmt.lowerBlock .root "  " layered = .ok (layeredCode "  ") ∧
      (∀ leaf ∈ layered.leaves, '\n' ∉ leaf.toList) ∧ .raw "" ∉ layered.stmts ∧
      (∀ initial condition step body, .loop initial condition step body ∈ layered.stmts →
        initial.isLine = true) ∧
      Layout.indentLines "\t" (layeredCode "  ") = layeredCode "\t  " := by
  have hindent : '\n' ∉ "  ".toList := by decide
  have hlower : Stmt.lowerBlock .root "  " layered = .ok (layeredCode "  ") := by rfl
  have hall : layered.leaves.all (fun leaf => leaf.toList.all (NotBreak ·)) = true := by decide
  have hleaves : ∀ leaf ∈ layered.leaves, '\n' ∉ leaf.toList := by
    intro leaf hleaf
    have hleaf := List.all_eq_true.mp hall leaf hleaf
    exact made_notBreak_iff.mp fun c hc => of_decide_eq_true (List.all_eq_true.mp hleaf c hc)
  have hraw : .raw "" ∉ layered.stmts := by
    simp [Program.stmts, layered, Stmt.nodesAll, Stmt.nodes]
  have hinitial : ∀ initial condition step body,
      .loop initial condition step body ∈ layered.stmts → initial.isLine = true := by
    intro initial condition step body hmem
    simp only [Program.stmts, layered, Stmt.nodesAll, Stmt.nodes, List.cons_append,
      List.nil_append, List.append_nil, List.mem_cons, List.not_mem_nil, reduceCtorEq,
      Stmt.loop.injEq, false_or, or_false] at hmem
    rw [hmem.1]
    rfl
  have hdeep : Stmt.lowerBlock .root ("\t" ++ "  ") layered = .ok (layeredCode "\t  ") := by rfl
  have huniform := (indentation_uniform layered .root "\t" "  " hindent).2 _ hlower hleaves hraw
    hinitial
  exact ⟨hindent, hlower, hleaves, hraw, hinitial, Except.ok.inj (huniform.symm.trans hdeep)⟩

end LittleC
