import LittleC.Proofs.Leaves
import LittleC.Proofs.Sequence

/-! Braces in the emitted text. Read from left to right, every brace that is opened is closed
again, and how deep they get is how deep blocks are nested. `Nested n` says so of a text with
the greatest depth `n`, and follows the ways in which texts are put together: side by side,
line by line, and as the body of a block.

The depth that is reached is `Stmt.peak`. It is the depth of the blocks but for the first
statement of a loop, which stands in front of the loop's brace and may bring blocks of its
own (`braces_mirror_blocks`). -/
namespace LittleC

/-! ### Depths of texts -/

/-- How many braces are open behind a text. -/
def braceDepth (cs : List Char) : Int :=
  cs.count '\x7b' - cs.count '\x7d'

@[simp] theorem braceDepth_nil : braceDepth [] = 0 := rfl

theorem braceDepth_append (a b : List Char) :
    braceDepth (a ++ b) = braceDepth a + braceDepth b := by
  simp only [braceDepth, List.count_append]
  omega

theorem braceDepth_opening (cs : List Char) : braceDepth ('\x7b' :: cs) = 1 + braceDepth cs :=
  braceDepth_append ['\x7b'] cs

/-- Neither brace. -/
def NotBrace (c : Char) : Prop :=
  c ≠ '\x7b' ∧ c ≠ '\x7d'

instance : DecidablePred NotBrace :=
  fun _ => inferInstanceAs (Decidable (_ ∧ _))

theorem braceDepth_plain {cs : List Char} (h : ∀ c ∈ cs, NotBrace c) : braceDepth cs = 0 := by
  have hopen : cs.count '\x7b' = 0 := List.count_eq_zero.mpr fun hc => (h _ hc).1 rfl
  have hclose : cs.count '\x7d' = 0 := List.count_eq_zero.mpr fun hc => (h _ hc).2 rfl
  rw [braceDepth, hopen, hclose]
  rfl

/-- Behind a text that is closed the depth is counted anew. -/
theorem braceDepth_take_append {a b : List Char} (ha : braceDepth a = 0) (k : Nat) :
    braceDepth ((a ++ b).take k) =
      if k ≤ a.length then braceDepth (a.take k) else braceDepth (b.take (k - a.length)) := by
  split
  · next hk => rw [List.take_append_of_le_length hk]
  · next hk =>
    rw [List.take_append, List.take_of_length_le (by omega), braceDepth_append, ha, Int.zero_add]

/-- Read from left to right, the depth of braces in the text is never negative, is zero at the
end, and is at most `n`, which it reaches. -/
structure Nested (n : Nat) (cs : List Char) : Prop where
  closed : braceDepth cs = 0
  nonneg : ∀ k, 0 ≤ braceDepth (cs.take k)
  le : ∀ k, braceDepth (cs.take k) ≤ n
  reached : ∃ k, braceDepth (cs.take k) = n

namespace Nested

variable {m n : Nat} {a b cs : List Char}

theorem plain (h : ∀ c ∈ cs, NotBrace c) : Nested 0 cs := by
  have hzero : ∀ k, braceDepth (cs.take k) = 0 := fun k =>
    braceDepth_plain fun c hc => h c (List.mem_of_mem_take hc)
  exact ⟨braceDepth_plain h, fun k => Int.le_of_eq (hzero k).symm,
    fun k => Int.le_of_eq (hzero k), 0, rfl⟩

/-- Without a text nothing is reached. -/
theorem eq_zero_of_nil (h : Nested n []) : n = 0 := by
  obtain ⟨k, hk⟩ := h.reached
  rw [List.take_nil, braceDepth_nil] at hk
  omega

theorem append (ha : Nested m a) (hb : Nested n b) : Nested (max m n) (a ++ b) where
  closed := by
    rw [braceDepth_append, ha.closed, hb.closed]
    rfl
  nonneg k := by
    rw [braceDepth_take_append ha.closed]
    split
    · exact ha.nonneg k
    · exact hb.nonneg _
  le k := by
    rw [braceDepth_take_append ha.closed]
    split
    · have := ha.le k
      omega
    · have := hb.le (k - a.length)
      omega
  reached := by
    rcases Nat.le_total m n with hmn | hmn
    · obtain ⟨k, hk⟩ := hb.reached
      refine ⟨a.length + k, ?_⟩
      rw [List.take_length_add_append, braceDepth_append, ha.closed, hk, Nat.max_eq_right hmn,
        Int.zero_add]
    · obtain ⟨k, hk⟩ := ha.reached
      refine ⟨min k a.length, ?_⟩
      rw [List.take_append_of_le_length (Nat.min_le_right ..), ← List.take_eq_take_min, hk,
        Nat.max_eq_left hmn]

/-- Braces around a text add one to every depth in it. -/
theorem braces (h : Nested n cs) : Nested (1 + n) ('\x7b' :: (cs ++ ['\x7d'])) := by
  -- In front of the opening brace, inside, and behind the closing one.
  have hdepth : ∀ k, braceDepth (('\x7b' :: (cs ++ ['\x7d'])).take k) = 0 ∨
      ∃ j, braceDepth (('\x7b' :: (cs ++ ['\x7d'])).take k) = 1 + braceDepth (cs.take j) := by
    intro k
    cases k with
    | zero => exact .inl rfl
    | succ k =>
      rw [List.take_succ_cons, braceDepth_opening, braceDepth_take_append h.closed]
      split
      · exact .inr ⟨k, rfl⟩
      · next hk =>
        refine .inl ?_
        rw [List.take_of_length_le (by simp; omega)]
        rfl
  refine ⟨?_, fun k => ?_, fun k => ?_, ?_⟩
  · rw [braceDepth_opening, braceDepth_append, h.closed]
    rfl
  · rcases hdepth k with hk | ⟨j, hk⟩
    · omega
    · have := h.nonneg j
      omega
  · rcases hdepth k with hk | ⟨j, hk⟩
    · omega
    · have := h.le j
      omega
  · obtain ⟨k, hk⟩ := h.reached
    refine ⟨min k cs.length + 1, ?_⟩
    rw [List.take_succ_cons, braceDepth_opening,
      List.take_append_of_le_length (Nat.min_le_right ..), ← List.take_eq_take_min, hk]
    omega

/-! Texts without braces on either side leave the depth as it is. -/

theorem behind {header text : String} (hheader : Made NotBrace header)
    (h : Nested n text.toList) : Nested n (header ++ text).toList := by
  rw [String.toList_append, ← Nat.zero_max n]
  exact (plain hheader).append h

theorem before {footer text : String} (h : Nested n text.toList)
    (hfooter : Made NotBrace footer) : Nested n (text ++ footer).toList := by
  rw [String.toList_append, ← Nat.max_zero n]
  exact h.append (plain hfooter)

theorem braced {indent text : String} (hindent : Made NotBrace indent)
    (h : Nested n text.toList) : Nested (1 + n) (Layout.braced indent text).toList := by
  have hnewline : Made NotBrace "\n" := .of_all (by decide)
  have hinner : Nested n ("\n" ++ text ++ "\n" ++ indent).toList :=
    (((h.behind hnewline).before hnewline).before hindent)
  have hblock : Nested (1 + n) ("\x7b" ++ ("\n" ++ text ++ "\n" ++ indent) ++ "\x7d").toList := by
    rw [String.toList_append, String.toList_append]
    exact hinner.braces
  have hspace : Made NotBrace " " := .of_all (by decide)
  have heq : Layout.braced indent text =
      " " ++ ("\x7b" ++ ("\n" ++ text ++ "\n" ++ indent) ++ "\x7d") := by
    simp only [Layout.braced, String.append_assoc]
    rfl
  rw [heq]
  exact hblock.behind hspace

theorem stack {above below : String} (ha : Nested m above.toList) (hb : Nested n below.toList) :
    Nested (max m n) (Layout.stack above below).toList := by
  by_cases habove : above = ""
  · subst habove
    rw [ha.eq_zero_of_nil, Nat.zero_max, Layout.stack_empty]
    exact hb
  by_cases hbelow : below = ""
  · subst hbelow
    rw [hb.eq_zero_of_nil, Nat.max_zero, Layout.empty_stack]
    exact ha
  have hnewline : Made NotBrace "\n" := .of_all (by decide)
  rw [Layout.stack_of_ne habove hbelow, String.toList_append]
  exact (ha.before hnewline).append hb

end Nested

/-! ### Depths of statements -/

namespace Stmt

mutual
/-- How deep the braces get in the text of a statement. The first statement of a loop stands
outside the loop's own. -/
def peak : Stmt → Nat
  | function _ _ body => 1 + peakAll body
  | conditional _ body none => 1 + peakAll body
  | conditional _ body (some otherwise) => 1 + max (peakAll body) (peakAll otherwise)
  | loop initial _ _ body => max (peak initial) (1 + peakAll body)
  | prototype .. | ret .. | declare .. | call .. | assign .. | raw .. | unrecognized .. => 0

def peakAll : List Stmt → Nat
  | [] => 0
  | s :: rest => max (peak s) (peakAll rest)
end

/-- A loop that begins with a block in a block. -/
example (e : Expr) : let s := loop (conditional e [conditional e [] none] none) e e []
    s.peak = 2 ∧ s.depth = 1 :=
  ⟨rfl, rfl⟩

mutual
theorem depth_le_peak : (s : Stmt) → s.depth ≤ s.peak
  | function _ _ body => Nat.add_le_add_left (blockDepth_le_peakAll body) 1
  | conditional _ body none => Nat.add_le_add_left (blockDepth_le_peakAll body) 1
  | conditional _ body (some otherwise) => by
    have hbody := blockDepth_le_peakAll body
    have hother := blockDepth_le_peakAll otherwise
    rw [depth, peak]
    omega
  | loop initial _ _ body => by
    have hbody := blockDepth_le_peakAll body
    rw [depth, peak]
    omega
  | prototype .. | ret .. | declare .. | call .. | assign .. | raw .. | unrecognized .. =>
    Nat.le_refl 0

theorem blockDepth_le_peakAll : (ss : List Stmt) → blockDepth ss ≤ peakAll ss
  | [] => Nat.le_refl 0
  | s :: rest => by
    have hs := depth_le_peak s
    have hrest := blockDepth_le_peakAll rest
    rw [blockDepth, peakAll]
    omega
end

/-- The first statement of a loop has no blocks. -/
def FlatStart (s : Stmt) : Prop :=
  ∀ initial condition step body, s = loop initial condition step body → initial.depth = 0

mutual
theorem peak_eq_depth : (s : Stmt) → (∀ t ∈ s.nodes, t.FlatStart) → s.peak = s.depth
  | function _ _ body, h => by
    rw [peak, depth, peakAll_eq_blockDepth body (forall_nodes_function.mp h).2]
  | conditional _ body none, h => by
    rw [peak, depth, peakAll_eq_blockDepth body (forall_nodes_conditional.mp h).2.1]
  | conditional _ body (some otherwise), h => by
    obtain ⟨_, hbody, hother⟩ := forall_nodes_conditional.mp h
    rw [peak, depth, peakAll_eq_blockDepth body hbody,
      peakAll_eq_blockDepth otherwise (hother _ rfl)]
  | loop initial condition step body, h => by
    obtain ⟨hflat, hinitial, hbody⟩ := forall_nodes_loop.mp h
    rw [peak, depth, peak_eq_depth initial hinitial, hflat initial condition step body rfl,
      peakAll_eq_blockDepth body hbody, Nat.zero_max]
  | prototype .., _ | ret .., _ | declare .., _ | call .., _ | assign .., _ | raw .., _
  | unrecognized .., _ => rfl

theorem peakAll_eq_blockDepth : (ss : List Stmt) → (∀ s ∈ ss, ∀ t ∈ s.nodes, t.FlatStart) →
    peakAll ss = blockDepth ss
  | [], _ => rfl
  | s :: rest, h => by
    obtain ⟨hs, hrest⟩ := List.forall_mem_cons.mp h
    rw [peakAll, blockDepth, peak_eq_depth s hs, peakAll_eq_blockDepth rest hrest]
end

/-! ### Texts of statements -/

theorem notBrace_glyphs : ∀ c ∈ glyphs, NotBrace c := by
  have hall : glyphs.all (NotBrace ·) = true := by decide
  intro c hc
  simpa using List.all_eq_true.mp hall c hc

theorem expr_made {scope : Scope} {e : Expr} {v : Lowered} (hrec : e.Recognized)
    (hleaves : ∀ leaf ∈ e.leaves, Made NotBrace leaf) (h : e.lower scope = .ok v) :
    Made NotBrace v.code := by
  rw [Expr.lower_code e h]
  exact Expr.text_made notBrace_glyphs e (fun j hj => absurd hj (hrec j)) hleaves

mutual
/-- The braces of a statement follow its blocks. -/
theorem lowerCode_nested {scope : Scope} {indent : String} (hindent : Made NotBrace indent) :
    (s : Stmt) → (∀ t ∈ s.nodes, t.Legible NotBrace) → {code : String} →
    s.lowerCode scope indent = .ok code → Nested s.peak code.toList
  | function name signature body, hs, code, h => by
    obtain ⟨hown, hbody⟩ := forall_nodes_function.mp hs
    obtain ⟨hname, hparams⟩ := List.forall_mem_cons.mp hown.leaves
    rw [lowerCode_function, bind_eq_ok] at h
    obtain ⟨text, htext, h⟩ := h
    cases h
    have hinner := lowerBlock_nested (hindent.nested notBrace_glyphs) body hbody htext
    have hheader := functionHeader_made notBrace_glyphs signature hindent hname hparams
    rw [functionCode, peak]
    exact (Nested.behind hheader (hinner.braced hindent)).before (.of_all (by decide))
  | conditional condition body none, hs, code, h => by
    obtain ⟨hown, hbody, _⟩ := forall_nodes_conditional.mp hs
    simp only [lowerCode_conditional, bind_eq_ok] at h
    obtain ⟨c, hc, text, htext, h⟩ := h
    cases h
    have hcode := expr_made (hown.exprs _ (List.mem_singleton_self _)) hown.leaves hc
    have hinner := lowerBlock_nested (hindent.nested notBrace_glyphs) body hbody htext
    rw [peak]
    exact Nested.behind (ifHeader_made notBrace_glyphs hindent hcode) (hinner.braced hindent)
  | conditional condition body (some otherwise), hs, code, h => by
    obtain ⟨hown, hbody, hother⟩ := forall_nodes_conditional.mp hs
    simp only [lowerCode_alternative, bind_eq_ok] at h
    obtain ⟨c, hc, text, htext, text', htext', h⟩ := h
    cases h
    have hcode := expr_made (hown.exprs _ (List.mem_singleton_self _)) hown.leaves hc
    have hinner := lowerBlock_nested (hindent.nested notBrace_glyphs) body hbody htext
    have hinner' := lowerBlock_nested (hindent.nested notBrace_glyphs) otherwise (hother _ rfl) htext'
    have hfirst := Nested.behind (ifHeader_made notBrace_glyphs hindent hcode) (hinner.braced hindent)
    rw [peak, ← Nat.add_max_add_left, String.toList_append]
    exact (hfirst.before (.of_all (by decide))).append (hinner'.braced hindent)
  | loop initial condition step body, hs, code, h => by
    obtain ⟨hown, hinitial, hbody⟩ := forall_nodes_loop.mp hs
    obtain ⟨hcleaves, hsleaves⟩ := List.forall_mem_append.mp hown.leaves
    simp only [lowerCode_loop, lower_eq, bind_assoc, pure_bind, bind_eq_ok] at h
    obtain ⟨first, hfirst, c, hc, e, he, text, htext, h⟩ := h
    cases h
    have hcond := expr_made (hown.exprs condition (by simp [Stmt.exprs])) hcleaves hc
    have hstep := expr_made (hown.exprs step (by simp [Stmt.exprs])) hsleaves he
    have hstart := lowerCode_nested (.of_all (by decide)) initial hinitial hfirst
    have hinner := lowerBlock_nested (hindent.nested notBrace_glyphs) body hbody htext
    have hheader : Nested initial.peak
        (indent ++ "for(" ++ first ++ " " ++ c.code ++ "; " ++ e.code ++ ")").toList :=
      (((((hstart.behind (hindent.append (.of_all (by decide)))).before
        (.of_all (by decide))).before hcond).before (.of_all (by decide))).before hstep).before
        (.of_all (by decide))
    rw [peak, String.toList_append]
    exact hheader.append (hinner.braced hindent)
  | ret none, _, code, h => by
    cases h
    exact .plain (hindent.append (.of_all (by decide)))
  | ret (some value), hs, code, h => by
    have hown := (forall_nodes_leaf rfl).mp hs
    rw [lowerCode_ret, bind_eq_ok] at h
    obtain ⟨v, hv, h⟩ := h
    cases h
    have hleaves : ∀ leaf ∈ value.leaves, Made NotBrace leaf := by
      simpa [Stmt.leaves, Expr.leavesAll] using hown.leaves
    have hcode := expr_made (hown.exprs value (by simp [Stmt.exprs])) hleaves hv
    exact .plain (((hindent.append (.of_all (by decide))).append hcode).append (.of_all (by decide)))
  | declare name value, hs, code, h => by
    have hown := (forall_nodes_leaf rfl).mp hs
    obtain ⟨hname, hleaves⟩ := List.forall_mem_cons.mp hown.leaves
    rw [lowerCode_declare, bind_eq_ok] at h
    obtain ⟨v, hv, h⟩ := h
    cases h
    have hcode := expr_made (hown.exprs value (by simp [Stmt.exprs])) hleaves hv
    have htype := v.type.spelling_made notBrace_glyphs
    exact .plain ((((((hindent.append htype).append (.of_all (by decide))).append hname).append
      (.of_all (by decide))).append hcode).append (.of_all (by decide)))
  | call callee arguments, hs, code, h => by
    have hown := (forall_nodes_leaf rfl).mp hs
    rw [lowerCode_call, bind_eq_ok] at h
    obtain ⟨v, hv, h⟩ := h
    cases h
    have hcode := expr_made (Expr.recognized_call.mpr hown.exprs) hown.leaves hv
    exact .plain ((hindent.append hcode).append (.of_all (by decide)))
  | assign target value, hs, code, h => by
    have hown := (forall_nodes_leaf rfl).mp hs
    rw [lowerCode_assign, bind_eq_ok] at h
    obtain ⟨v, hv, h⟩ := h
    cases h
    have hvalue := hown.exprs value (List.mem_singleton_self value)
    have hcode := expr_made (Expr.recognized_assign.mpr hvalue) hown.leaves hv
    exact .plain ((hindent.append hcode).append (.of_all (by decide)))
  | raw text, hs, code, h => by
    have hown := (forall_nodes_leaf rfl).mp hs
    cases h
    have htext := hown.leaves text (List.mem_singleton_self text)
    exact .plain ((hindent.append htext).append (.of_all (by decide)))
  | prototype _ _, _, code, h => by
    cases h
    exact .plain (List.forall_mem_nil _)
  | unrecognized node, hs, _, _ => absurd rfl (((forall_nodes_leaf rfl).mp hs).recognized node)

theorem lowerBlock_nested {scope : Scope} {indent : String} (hindent : Made NotBrace indent) :
    (ss : List Stmt) → (∀ s ∈ ss, ∀ t ∈ s.nodes, t.Legible NotBrace) → {text : String} →
    lowerBlock scope indent ss = .ok text → Nested (peakAll ss) text.toList
  | [], _, text, h => by
    cases h
    exact .plain (List.forall_mem_nil _)
  | s :: rest, hss, text, h => by
    obtain ⟨hs, hrest⟩ := List.forall_mem_cons.mp hss
    simp only [lowerBlock_cons, bind_eq_ok] at h
    obtain ⟨code, hcode, below, hbelow, h⟩ := h
    cases h
    exact (lowerCode_nested hindent s hs hcode).stack (lowerBlock_nested hindent rest hrest hbelow)
end

end Stmt

/-- **Braces mirror blocks.** Where no leaf of a program has a brace in it and nothing of it
is unrecognized, the braces of its text are balanced at every point. They get at least as deep
as the blocks of the program, and exactly as deep if no loop begins with a statement that has
blocks. -/
theorem braces_mirror_blocks (p : Program) (code : String) (hrec : p.Recognized)
    (hleaves : ∀ leaf ∈ p.leaves, ∀ c ∈ leaf.toList, c ≠ '\x7b' ∧ c ≠ '\x7d')
    (h : p.lower = .ok code) :
    ∃ n, Nested n code.toList ∧ Stmt.blockDepth p ≤ n ∧
      ((∀ initial condition step body, .loop initial condition step body ∈ p.stmts →
        initial.depth = 0) → n = Stmt.blockDepth p) := by
  refine ⟨Stmt.peakAll p, ?_, Stmt.blockDepth_le_peakAll p, fun hflat => ?_⟩
  · exact Stmt.lowerBlock_nested (.of_all (by decide)) p (hrec.legible hleaves) h
  · refine Stmt.peakAll_eq_blockDepth p (Stmt.forall_nodesAll.mp fun s hs => ?_)
    rintro initial condition step body rfl
    exact hflat initial condition step body hs

/-- A loop with a branch that has no statements, and one with raw text. -/
def search : Program :=
  [.function "main" ⟨[⟨"n", .i32⟩], .void⟩
    [.loop (.declare "i" (.integer "0")) (.binary .lessThan (.symbol "i") (.symbol "n"))
      (.assign "i" (.binary .plus (.symbol "i") (.integer "1")))
      [.conditional (.binary .equals (.symbol "i") (.integer "7")) [] (some [.raw "puts(s);"])]]]

def searchCode : String :=
  "void main(int n) \x7b\n  for(int i = 0; i < n; i = i + 1) \x7b\n    if(i == 7) \x7b\n\n    \x7d" ++
    " else \x7b\n      puts(s);\n\n    \x7d\n  \x7d\n\x7d\n"

theorem braces_mirror_blocks_search :
    search.Recognized ∧ (∀ leaf ∈ search.leaves, ∀ c ∈ leaf.toList, c ≠ '\x7b' ∧ c ≠ '\x7d') ∧
      search.lower = .ok searchCode ∧ Stmt.blockDepth search = 3 ∧ Nested 3 searchCode.toList := by
  have hrec : search.Recognized := by
    simp [Program.Recognized, Program.stmts, Program.exprs, search, Stmt.nodesAll, Stmt.nodes,
      Stmt.exprs, Expr.nodesAll, Expr.nodes]
  have hall : search.leaves.all (fun leaf => leaf.toList.all (NotBrace ·)) = true := by decide
  have hleaves : ∀ leaf ∈ search.leaves, ∀ c ∈ leaf.toList, c ≠ '\x7b' ∧ c ≠ '\x7d' := by
    intro leaf hleaf c hc
    have hleaf := List.all_eq_true.mp hall leaf hleaf
    exact of_decide_eq_true (List.all_eq_true.mp hleaf c hc)
  have hlower : search.lower = .ok searchCode := by rfl
  have hflat : ∀ initial condition step body, .loop initial condition step body ∈ search.stmts →
      initial.depth = 0 := by
    intro initial condition step body hmem
    simp only [Program.stmts, search, Stmt.nodesAll, Stmt.nodes, List.cons_append,
      List.nil_append, List.append_nil, List.mem_cons, List.not_mem_nil, reduceCtorEq,
      Stmt.loop.injEq, false_or, or_false] at hmem
    rw [hmem.1, Stmt.depth]
  obtain ⟨n, hnested, _, hn⟩ := braces_mirror_blocks search searchCode hrec hleaves hlower
  have hdepth : Stmt.blockDepth search = 3 := by rfl
  rw [hn hflat, hdepth] at hnested
  exact ⟨hrec, hleaves, hlower, hdepth, hnested⟩

end LittleC
