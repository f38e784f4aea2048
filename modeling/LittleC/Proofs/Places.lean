import LittleC.Proofs.Nodes
import LittleC.Proofs.Sequence

/-! Where the statements of a program stand in its text. `Program.placed` lists every statement,
at any depth, with the chain and the indentation that it is lowered with and with the text in
front of it and behind it.

`Program.placed_stands`: the text of a program is what stands in front of a statement, the text
of that statement and what stands behind it. `Program.placed_ends`: what stands behind begins
with a line break, or there is nothing left, but for a statement that a loop begins with.
`Program.lower_holds`: the texts of all expressions are in the text too. -/
namespace LittleC

/-- A place in a text: the chain and the indentation that lowering comes to it with, whether it
is where a loop begins, and the text around it. -/
structure Place where
  scope : Scope
  indent : String
  opensLoop : Bool
  front : String
  back : String

namespace Place

/-- The place of a whole program. -/
def whole : Place :=
  ⟨.root, "", false, "", ""⟩

/-- A place inside another one, between two more texts. -/
def within (x : Place) (scope : Scope) (indent opening closing : String) : Place :=
  ⟨scope, indent, false, x.front ++ opening, closing ++ x.back⟩

/-- The text with this text at the place. -/
def fill (x : Place) (text : String) : String :=
  x.front ++ text ++ x.back

theorem fill_within (x : Place) (scope : Scope) (indent opening closing text : String) :
    (x.within scope indent opening closing).fill text = x.fill (opening ++ text ++ closing) := by
  simp only [fill, within, String.append_assoc]

end Place

namespace Layout

/-- What stands between two texts that are stacked. -/
def gap (above below : String) : String :=
  if above = "" ∨ below = "" then "" else "\n"

theorem stack_eq_gap (above below : String) : stack above below = above ++ gap above below ++ below := by
  by_cases ha : above = ""
  · simp [ha, gap]
  by_cases hb : below = ""
  · simp [hb, gap]
  rw [stack_of_ne ha hb, gap, if_neg (by simp [ha, hb])]

/-- A line is over where the text goes on like this. -/
def EndsLine (back : String) : Prop :=
  back = "" ∨ ∃ rest, back = "\n" ++ rest

theorem endsLine_iff {back : String} : EndsLine back ↔ ∀ c ∈ back.toList.head?, c = '\n' := by
  constructor
  · rintro (rfl | ⟨rest, rfl⟩) <;> simp
  · intro h
    cases hback : back.toList with
    | nil => exact .inl (String.toList_eq_nil_iff.mp hback)
    | cons c rest =>
      have hc : c = '\n' := h c (by simp [hback])
      refine .inr ⟨String.ofList rest, ?_⟩
      rw [← String.toList_inj, hback, hc]
      simp

theorem endsLine_break (inner outer : String) : EndsLine ("\n" ++ inner ++ outer) :=
  .inr ⟨inner ++ outer, String.append_assoc ..⟩

theorem not_endsLine_space (rest : String) : ¬ EndsLine (" " ++ rest) := by
  simp [endsLine_iff]

/-- What is below a text ends its line. -/
theorem endsLine_gap {above below back : String} (habove : above ≠ "") (hback : EndsLine back) :
    EndsLine (gap above below ++ below ++ back) := by
  by_cases hbelow : below = ""
  · simpa [hbelow, gap] using hback
  · rw [gap, if_neg (by simp [habove, hbelow])]
    exact endsLine_break below back

end Layout

namespace Stmt

/-- The text of a statement that can be lowered. -/
def codeIn (scope : Scope) (indent : String) (s : Stmt) : String :=
  match s.lowerCode scope indent with
  | .ok code => code
  | .error _ => ""

/-- The text of a block that can be lowered. -/
def blockIn (scope : Scope) (indent : String) (body : List Stmt) : String :=
  match lowerBlock scope indent body with
  | .ok text => text
  | .error _ => ""

theorem codeIn_eq {scope : Scope} {indent code : String} {s : Stmt}
    (h : s.lowerCode scope indent = .ok code) : s.codeIn scope indent = code := by
  rw [codeIn, h]

theorem blockIn_eq {scope : Scope} {indent text : String} {body : List Stmt}
    (h : lowerBlock scope indent body = .ok text) : blockIn scope indent body = text := by
  rw [blockIn, h]

/-- What stands in front of the block of a function. -/
def functionHeader (indent name : String) (signature : Signature) : String :=
  indent ++ signature.result.spelling ++ " " ++ name ++ "(" ++ paramList signature.params ++ ")"

def ifHeader (indent : String) (condition : Expr) : String :=
  indent ++ "if(" ++ condition.text ++ ")"

/-- What stands behind the first statement of a loop, up to its block. -/
def loopFooter (condition step : Expr) : String :=
  " " ++ condition.text ++ "; " ++ step.text ++ ")"

mutual
/-- The statement and all inside it, each with its place. -/
def placed (x : Place) : Stmt → List (Stmt × Place)
  | function name signature body =>
    (function name signature body, x) ::
      placedAll (x.within (x.scope.enter name signature) (Layout.nested x.indent)
        (functionHeader x.indent name signature ++ " \x7b\n") ("\n" ++ (x.indent ++ "\x7d\n"))) body
  | conditional condition body none =>
    (conditional condition body none, x) ::
      placedAll (x.within x.scope.push (Layout.nested x.indent)
        (ifHeader x.indent condition ++ " \x7b\n") ("\n" ++ (x.indent ++ "\x7d"))) body
  | conditional condition body (some otherwise) =>
    let first := blockIn x.scope.push (Layout.nested x.indent) body
    let second := blockIn x.scope.push (Layout.nested x.indent) otherwise
    (conditional condition body (some otherwise), x) ::
      (placedAll (x.within x.scope.push (Layout.nested x.indent)
        (ifHeader x.indent condition ++ " \x7b\n")
        ("\n" ++ (x.indent ++ "\x7d else" ++ Layout.braced x.indent second))) body ++
      placedAll (x.within x.scope.push (Layout.nested x.indent)
        (ifHeader x.indent condition ++ Layout.braced x.indent first ++ " else \x7b\n")
        ("\n" ++ (x.indent ++ "\x7d"))) otherwise)
  | loop initial condition step body =>
    let inner := (initial.after x.scope.push).push
    let first := initial.codeIn x.scope.push ""
    let block := blockIn inner (Layout.nested x.indent) body
    (loop initial condition step body, x) ::
      (placed { x.within x.scope.push "" (x.indent ++ "for(")
        (loopFooter condition step ++ Layout.braced x.indent block) with opensLoop := true } initial ++
      placedAll (x.within inner (Layout.nested x.indent)
        (x.indent ++ "for(" ++ first ++ loopFooter condition step ++ " \x7b\n")
        ("\n" ++ (x.indent ++ "\x7d"))) body)
  | s => [(s, x)]

/-- The statements of a block that stands at the place, and all inside them. -/
def placedAll (x : Place) : List Stmt → List (Stmt × Place)
  | [] => []
  | s :: rest =>
    let code := s.codeIn x.scope x.indent
    let below := blockIn (s.after x.scope) x.indent rest
    placed (x.within x.scope x.indent "" (Layout.gap code below ++ below)) s ++
      placedAll (x.within (s.after x.scope) x.indent (code ++ Layout.gap code below) "") rest
end

mutual
theorem map_fst_placed (x : Place) : (s : Stmt) → (placed x s).map Prod.fst = s.nodes
  | function _ _ body => by rw [placed, List.map_cons, map_fst_placedAll _ body, nodes]
  | conditional _ body none => by rw [placed, List.map_cons, map_fst_placedAll _ body, nodes]
  | conditional _ body (some otherwise) => by
    rw [placed, List.map_cons, List.map_append, map_fst_placedAll _ body,
      map_fst_placedAll _ otherwise, nodes]
  | loop initial _ _ body => by
    rw [placed, List.map_cons, List.map_append, map_fst_placed _ initial,
      map_fst_placedAll _ body, nodes]
  | prototype .. | ret _ | declare .. | call .. | assign .. | raw _ | unrecognized _ => rfl

theorem map_fst_placedAll (x : Place) : (ss : List Stmt) →
    (placedAll x ss).map Prod.fst = nodesAll ss
  | [] => rfl
  | s :: rest => by
    rw [placedAll, List.map_append, map_fst_placed _ s, map_fst_placedAll _ rest, nodesAll]
end

/-! ### The text around a statement -/

/-- The statement is lowered at the place, and with what stands around it this is the whole
text. -/
def Stands (whole : String) (t : Stmt × Place) : Prop :=
  ∃ code, t.1.lowerCode t.2.scope t.2.indent = .ok code ∧ whole = t.2.fill code

mutual
theorem placed_stands (x : Place) : (s : Stmt) → {code : String} →
    s.lowerCode x.scope x.indent = .ok code → ∀ t ∈ placed x s, Stands (x.fill code) t
  | function name signature body, code, h => by
    rw [placed, List.forall_mem_cons]
    refine ⟨⟨code, h, rfl⟩, ?_⟩
    simp only [lowerCode_function, bind_eq_ok] at h
    obtain ⟨text, htext, h⟩ := h
    cases h
    have hfill : functionCode x.indent name signature text =
        functionHeader x.indent name signature ++ " \x7b\n" ++ text ++
          ("\n" ++ (x.indent ++ "\x7d\n")) := by
      simp only [functionCode, functionHeader, Layout.braced, String.append_assoc]
      rfl
    rw [hfill, ← Place.fill_within x (x.scope.enter name signature) (Layout.nested x.indent)]
    exact placedAll_stands _ body htext
  | conditional condition body none, code, h => by
    rw [placed, List.forall_mem_cons]
    refine ⟨⟨code, h, rfl⟩, ?_⟩
    simp only [lowerCode_conditional, bind_eq_ok] at h
    obtain ⟨c, hc, text, htext, h⟩ := h
    cases h
    have hfill : x.indent ++ "if(" ++ c.code ++ ")" ++ Layout.braced x.indent text =
        ifHeader x.indent condition ++ " \x7b\n" ++ text ++ ("\n" ++ (x.indent ++ "\x7d")) := by
      simp only [ifHeader, Expr.lower_code condition hc, Layout.braced, String.append_assoc]
    rw [hfill, ← Place.fill_within x x.scope.push (Layout.nested x.indent)]
    exact placedAll_stands _ body htext
  | conditional condition body (some otherwise), code, h => by
    rw [placed, List.forall_mem_cons, List.forall_mem_append]
    refine ⟨⟨code, h, rfl⟩, ?_⟩
    simp only [lowerCode_alternative, bind_eq_ok] at h
    obtain ⟨c, hc, text, htext, text', htext', h⟩ := h
    cases h
    rw [blockIn_eq htext, blockIn_eq htext']
    constructor
    · have hfill : x.indent ++ "if(" ++ c.code ++ ")" ++ Layout.braced x.indent text ++ " else" ++
            Layout.braced x.indent text' =
          ifHeader x.indent condition ++ " \x7b\n" ++ text ++
            ("\n" ++ (x.indent ++ "\x7d else" ++ Layout.braced x.indent text')) := by
        simp only [ifHeader, Expr.lower_code condition hc, Layout.braced, String.append_assoc]
        rfl
      rw [hfill, ← Place.fill_within x x.scope.push (Layout.nested x.indent)]
      exact placedAll_stands _ body htext
    · have hfill : x.indent ++ "if(" ++ c.code ++ ")" ++ Layout.braced x.indent text ++ " else" ++
            Layout.braced x.indent text' =
          ifHeader x.indent condition ++ Layout.braced x.indent text ++ " else \x7b\n" ++ text' ++
            ("\n" ++ (x.indent ++ "\x7d")) := by
        simp only [ifHeader, Expr.lower_code condition hc, Layout.braced, String.append_assoc]
        rfl
      rw [hfill, ← Place.fill_within x x.scope.push (Layout.nested x.indent)]
      exact placedAll_stands _ otherwise htext'
  | loop initial condition step body, code, h => by
    rw [placed, List.forall_mem_cons, List.forall_mem_append]
    refine ⟨⟨code, h, rfl⟩, ?_⟩
    simp only [lowerCode_loop, lower_eq, bind_eq_ok] at h
    obtain ⟨i, ⟨first, hfirst, hi⟩, c, hc, e, he, text, htext, h⟩ := h
    cases hi
    cases h
    rw [codeIn_eq hfirst, blockIn_eq htext]
    constructor
    · have hfill : x.indent ++ "for(" ++ first ++ " " ++ c.code ++ "; " ++ e.code ++ ")" ++
            Layout.braced x.indent text =
          x.indent ++ "for(" ++ first ++
            (loopFooter condition step ++ Layout.braced x.indent text) := by
        simp only [loopFooter, Expr.lower_code condition hc, Expr.lower_code step he,
          String.append_assoc]
      rw [hfill, ← Place.fill_within x x.scope.push ""]
      exact placed_stands
        { x.within x.scope.push "" (x.indent ++ "for(")
          (loopFooter condition step ++ Layout.braced x.indent text) with opensLoop := true }
        initial hfirst
    · have hfill : x.indent ++ "for(" ++ first ++ " " ++ c.code ++ "; " ++ e.code ++ ")" ++
            Layout.braced x.indent text =
          x.indent ++ "for(" ++ first ++ loopFooter condition step ++ " \x7b\n" ++ text ++
            ("\n" ++ (x.indent ++ "\x7d")) := by
        simp only [loopFooter, Expr.lower_code condition hc, Expr.lower_code step he,
          Layout.braced, String.append_assoc]
      rw [hfill, ← Place.fill_within x (initial.after x.scope.push).push (Layout.nested x.indent)]
      exact placedAll_stands _ body htext
  | prototype .., code, h | ret _, code, h | declare .., code, h | call .., code, h
  | assign .., code, h | raw _, code, h | unrecognized _, code, h =>
    List.forall_mem_singleton.mpr ⟨code, h, rfl⟩

theorem placedAll_stands (x : Place) : (ss : List Stmt) → {text : String} →
    lowerBlock x.scope x.indent ss = .ok text → ∀ t ∈ placedAll x ss, Stands (x.fill text) t
  | [], _, _ => List.forall_mem_nil _
  | s :: rest, text, h => by
    rw [placedAll, List.forall_mem_append]
    simp only [lowerBlock_cons, bind_eq_ok] at h
    obtain ⟨code, hcode, below, hbelow, h⟩ := h
    cases h
    rw [codeIn_eq hcode, blockIn_eq hbelow]
    constructor
    · have hfill : Layout.stack code below = "" ++ code ++ (Layout.gap code below ++ below) := by
        rw [Layout.stack_eq_gap, String.empty_append, String.append_assoc]
      rw [hfill, ← Place.fill_within x x.scope x.indent]
      exact placed_stands _ s hcode
    · have hfill : Layout.stack code below = code ++ Layout.gap code below ++ below ++ "" := by
        rw [Layout.stack_eq_gap, String.append_empty]
      rw [hfill, ← Place.fill_within x (s.after x.scope) x.indent]
      exact placedAll_stands _ rest hbelow
end

/-! ### What stands behind a statement -/

/-- Behind a statement that a loop begins with, the line goes on. Behind any other that has
text, it is over. -/
def Ends (t : Stmt × Place) : Prop :=
  if t.2.opensLoop then ∃ rest, t.2.back = " " ++ rest
  else t.1.codeIn t.2.scope t.2.indent ≠ "" → Layout.EndsLine t.2.back

mutual
theorem placed_ends (x : Place) : (s : Stmt) → Ends (s, x) → ∀ t ∈ placed x s, Ends t
  | function _ _ body, h => by
    rw [placed, List.forall_mem_cons]
    exact ⟨h, placedAll_ends _ body (Layout.endsLine_break _ _)⟩
  | conditional _ body none, h => by
    rw [placed, List.forall_mem_cons]
    exact ⟨h, placedAll_ends _ body (Layout.endsLine_break _ _)⟩
  | conditional _ body (some otherwise), h => by
    rw [placed, List.forall_mem_cons, List.forall_mem_append]
    exact ⟨h, placedAll_ends _ body (Layout.endsLine_break _ _),
      placedAll_ends _ otherwise (Layout.endsLine_break _ _)⟩
  | loop initial condition step body, h => by
    rw [placed, List.forall_mem_cons, List.forall_mem_append]
    refine ⟨h, placed_ends _ initial ?_, placedAll_ends _ body (Layout.endsLine_break _ _)⟩
    rw [Ends, if_pos rfl]
    simp only [Place.within, loopFooter, String.append_assoc]
    exact ⟨_, rfl⟩
  | prototype .., h | ret _, h | declare .., h | call .., h | assign .., h | raw _, h
  | unrecognized _, h => List.forall_mem_singleton.mpr h

theorem placedAll_ends (x : Place) : (ss : List Stmt) → Layout.EndsLine x.back →
    ∀ t ∈ placedAll x ss, Ends t
  | [], _ => List.forall_mem_nil _
  | s :: rest, h => by
    rw [placedAll, List.forall_mem_append]
    refine ⟨placed_ends _ s ?_, placedAll_ends _ rest ?_⟩
    · rw [Ends, if_neg (by simp [Place.within])]
      exact fun hne => Layout.endsLine_gap hne h
    · simpa [Place.within] using h
end

end Stmt

namespace Program

/-- Every statement of a program with its place in the text. -/
def placed (p : Program) : List (Stmt × Place) :=
  Stmt.placedAll .whole p

/-- No statement is left out. -/
theorem map_fst_placed (p : Program) : p.placed.map Prod.fst = p.stmts :=
  Stmt.map_fst_placedAll .whole p

theorem placed_stands {p : Program} {code : String} (h : p.lower = .ok code) {s : Stmt} {x : Place}
    (hs : (s, x) ∈ p.placed) :
    ∃ text, s.lowerCode x.scope x.indent = .ok text ∧ code = x.front ++ text ++ x.back := by
  have hwhole : Place.whole.fill code = code := by simp [Place.fill, Place.whole]
  exact hwhole ▸ Stmt.placedAll_stands .whole p h (s, x) hs

theorem placed_ends {p : Program} {s : Stmt} {x : Place} (hs : (s, x) ∈ p.placed) :
    Stmt.Ends (s, x) :=
  Stmt.placedAll_ends .whole p (.inl rfl) (s, x) hs

/-- Every statement of a program has a place. -/
theorem exists_placed {p : Program} {s : Stmt} (hs : s ∈ p.stmts) : ∃ x, (s, x) ∈ p.placed := by
  rw [← p.map_fst_placed] at hs
  obtain ⟨⟨t, x⟩, ht, rfl⟩ := List.mem_map.mp hs
  exact ⟨x, ht⟩

end Program

/-! ### The texts of expressions -/

namespace Expr

theorem operandCode_holds (loose : Nat → Bool) (operand : Expr) (code : String) :
    code.toList <:+: (operandCode loose operand code).toList := by
  have hparens : code.toList <:+: ("(" ++ code ++ ")").toList := by
    rw [String.toList_append, String.toList_append]
    exact List.infix_append ..
  cases operand with
  | binary op left right =>
    rw [operandCode]
    split
    · exact hparens
    · exact List.infix_refl _
  | assign target value => exact hparens
  | _ => exact List.infix_refl _

mutual
/-- The text of an expression has those of all inside it. -/
theorem text_holds : (d : Expr) → ∀ e ∈ d.nodes, e.text.toList <:+: d.text.toList
  | binary op left right => by
    rw [nodes, List.forall_mem_cons, List.forall_mem_append]
    refine ⟨List.infix_refl _, fun e he => ?_, fun e he => ?_⟩
    · refine ((text_holds left e he).trans (operandCode_holds (· < op.precedence) left _)).trans ?_
      simp only [text, String.toList_append, List.append_assoc]
      exact (List.prefix_append _ _).isInfix
    · refine ((text_holds right e he).trans (operandCode_holds (· ≤ op.precedence) right _)).trans ?_
      rw [text, String.toList_append]
      exact (List.suffix_append _ _).isInfix
  | call callee arguments => by
    rw [nodes, List.forall_mem_cons]
    refine ⟨List.infix_refl _, fun e he => ?_⟩
    obtain ⟨item, hitem, h⟩ := textAll_holds arguments e he
    have hlist : e.text.toList <:+: (Layout.commaList (textAll arguments)).toList :=
      h.trans (Layout.infix_intercalate hitem)
    refine hlist.trans ?_
    rw [text, String.toList_append, String.toList_append]
    exact List.infix_append ..
  | assign target value => by
    rw [nodes, List.forall_mem_cons]
    refine ⟨List.infix_refl _, fun e he => (text_holds value e he).trans ?_⟩
    rw [text, String.toList_append]
    exact (List.suffix_append _ _).isInfix
  | symbol _ | float _ | double _ | integer _ | string _ | boolean _ | raw _ | unrecognized _ =>
    List.forall_mem_singleton.mpr (List.infix_refl _)

theorem textAll_holds : (ds : List Expr) → ∀ e ∈ nodesAll ds,
    ∃ item ∈ textAll ds, e.text.toList <:+: item.toList
  | [] => List.forall_mem_nil _
  | d :: rest => by
    rw [nodesAll, List.forall_mem_append]
    refine ⟨fun e he => ⟨d.text, List.mem_cons_self .., text_holds d e he⟩, fun e he => ?_⟩
    obtain ⟨item, hitem, h⟩ := textAll_holds rest e he
    exact ⟨item, List.mem_cons_of_mem _ hitem, h⟩
end

end Expr

namespace Stmt

/-- The text of a statement has those of its expressions. -/
theorem lowerCode_holds {scope : Scope} {indent code : String} {s : Stmt}
    (h : s.lowerCode scope indent = .ok code) : ∀ d ∈ s.exprs, d.text.toList <:+: code.toList := by
  have hbetween : ∀ {front part back : String}, code = front ++ part ++ back →
      part.toList <:+: code.toList := by
    rintro front part back rfl
    rw [String.toList_append, String.toList_append]
    exact List.infix_append ..
  cases s with
  | conditional condition body otherwise =>
    refine List.forall_mem_singleton.mpr ?_
    cases otherwise with
    | none =>
      simp only [lowerCode_conditional, bind_eq_ok] at h
      obtain ⟨c, hc, text, _, h⟩ := h
      cases h
      rw [← Expr.lower_code condition hc]
      refine @hbetween (indent ++ "if(") _ (")" ++ Layout.braced indent text) ?_
      simp only [String.append_assoc]
    | some otherwise =>
      simp only [lowerCode_alternative, bind_eq_ok] at h
      obtain ⟨c, hc, text, _, text', _, h⟩ := h
      cases h
      rw [← Expr.lower_code condition hc]
      refine @hbetween (indent ++ "if(") _
        (")" ++ Layout.braced indent text ++ " else" ++ Layout.braced indent text') ?_
      simp only [String.append_assoc]
  | loop initial condition step body =>
    simp only [lowerCode_loop, bind_eq_ok] at h
    obtain ⟨i, _, c, hc, e, he, text, _, h⟩ := h
    cases h
    rw [exprs, List.forall_mem_cons, List.forall_mem_singleton, ← Expr.lower_code condition hc,
      ← Expr.lower_code step he]
    constructor
    · refine @hbetween (indent ++ "for(" ++ i.code ++ " ") _
        ("; " ++ e.code ++ ")" ++ Layout.braced indent text) ?_
      simp only [String.append_assoc]
    · refine @hbetween (indent ++ "for(" ++ i.code ++ " " ++ c.code ++ "; ") _
        (")" ++ Layout.braced indent text) ?_
      simp only [String.append_assoc]
  | ret value =>
    cases value with
    | none => exact List.forall_mem_nil _
    | some value =>
      refine List.forall_mem_singleton.mpr ?_
      simp only [lowerCode_ret, bind_eq_ok] at h
      obtain ⟨v, hv, h⟩ := h
      cases h
      rw [← Expr.lower_code value hv]
      exact hbetween rfl
  | declare name value =>
    refine List.forall_mem_singleton.mpr ?_
    simp only [lowerCode_declare, bind_eq_ok] at h
    obtain ⟨v, hv, h⟩ := h
    cases h
    rw [← Expr.lower_code value hv]
    exact hbetween rfl
  | call callee arguments =>
    simp only [lowerCode_call, bind_eq_ok] at h
    obtain ⟨v, hv, h⟩ := h
    cases h
    intro d hd
    refine (Expr.text_holds (.call callee arguments) d ?_).trans ?_
    · rw [Expr.nodes, Expr.nodesAll_eq_flatMap]
      exact List.mem_cons_of_mem _ (List.mem_flatMap.mpr ⟨d, hd, d.self_mem_nodes⟩)
    · rw [← Expr.lower_code _ hv]
      exact hbetween rfl
  | assign target value =>
    refine List.forall_mem_singleton.mpr ?_
    simp only [lowerCode_assign, bind_eq_ok] at h
    obtain ⟨v, hv, h⟩ := h
    cases h
    have hvalue := Expr.text_holds (.assign target value) value
      (List.mem_cons_of_mem _ value.self_mem_nodes)
    rw [← Expr.lower_code _ hv] at hvalue
    exact hvalue.trans (hbetween rfl)
  | prototype | function | raw | unrecognized => exact List.forall_mem_nil _

end Stmt

/-- The text of a program has those of its expressions. -/
theorem Program.lower_holds {p : Program} {code : String} (h : p.lower = .ok code) {e : Expr}
    (he : e ∈ p.exprs) : e.text.toList <:+: code.toList := by
  obtain ⟨s, hs, d, hd, he⟩ := mem_exprs.mp he
  obtain ⟨x, hx⟩ := exists_placed hs
  obtain ⟨text, htext, rfl⟩ := placed_stands h hx
  refine ((Expr.text_holds d e he).trans (Stmt.lowerCode_holds htext d hd)).trans ?_
  rw [String.toList_append, String.toList_append]
  exact List.infix_append ..

end LittleC
