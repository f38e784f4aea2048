import LittleC.Proofs.Holes

/-! Statements one after the other. A block is lowered by lowering its first part, then the
rest in the chain that the first part leaves, and joining the two texts
(`Stmt.lowerBlock_append`). Where one of them is empty it takes no line, so the texts of the
two parts say enough: how many fragments each was joined from does not matter.

`lowering_splits`: so a block may be cut at any point. It has the error of the first part that
fails, and otherwise the texts of its parts, one above the other. -/
namespace LittleC

namespace Layout

/-- One text above another. An empty one takes no line. -/
def stack (above below : String) : String :=
  if above = "" then below else if below = "" then above else above ++ "\n" ++ below

@[simp] theorem stack_empty (below : String) : stack "" below = below :=
  if_pos rfl

@[simp] theorem empty_stack (above : String) : stack above "" = above := by
  unfold stack
  split
  · next h => exact h.symm
  · exact if_pos rfl

theorem stack_of_ne {above below : String} (ha : above ≠ "") (hb : below ≠ "") :
    stack above below = above ++ "\n" ++ below := by
  rw [stack, if_neg ha, if_neg hb]

theorem stack_ne_empty {above : String} (ha : above ≠ "") (below : String) :
    stack above below ≠ "" := by
  by_cases hb : below = ""
  · rwa [hb, empty_stack]
  · rw [stack_of_ne ha hb]
    simp

theorem stack_assoc (a b c : String) : stack (stack a b) c = stack a (stack b c) := by
  by_cases ha : a = ""
  · rw [ha, stack_empty, stack_empty]
  by_cases hb : b = ""
  · rw [hb, stack_empty, empty_stack]
  by_cases hc : c = ""
  · rw [hc, empty_stack, empty_stack]
  rw [stack_of_ne (stack_ne_empty ha b) hc, stack_of_ne ha hb, stack_of_ne hb hc,
    stack_of_ne ha (by simp)]
  simp only [String.append_assoc]

theorem joinLines_cons (first : String) (rest : List String) :
    joinLines (first :: rest) = stack first (joinLines rest) := by
  by_cases hfirst : first = ""
  · subst hfirst
    rw [stack_empty]
    rfl
  have hkeep : (first :: rest).filter (· != "") = first :: rest.filter (· != "") :=
    List.filter_cons_of_pos (by simpa using hfirst)
  rw [joinLines, joinLines, hkeep]
  cases hrest : rest.filter (· != "") with
  | nil => simp
  | cons second others =>
    have hsecond : second ≠ "" := by
      have hmem : second ∈ rest.filter (· != "") := hrest ▸ List.mem_cons_self ..
      simpa using (List.mem_filter.mp hmem).2
    have hne : String.intercalate "\n" (second :: others) ≠ "" := by
      cases others <;> simp [hsecond]
    rw [stack_of_ne hfirst hne, String.intercalate_cons_cons]

theorem joinLines_append (above below : List String) :
    joinLines (above ++ below) = stack (joinLines above) (joinLines below) := by
  induction above with
  | nil => exact (stack_empty _).symm
  | cons first rest ih => rw [List.cons_append, joinLines_cons, ih, joinLines_cons, stack_assoc]

end Layout

namespace Stmt

theorem lowerBlock_cons (scope : Scope) (indent : String) (s : Stmt) (rest : List Stmt) :
    lowerBlock scope indent (s :: rest) = do
      let code ← s.lowerCode scope indent
      let text ← lowerBlock (s.after scope) indent rest
      return Layout.stack code text := by
  simp only [lowerBlock, lowerAll, lower_eq scope indent s, bind_assoc, pure_bind,
    Layout.joinLines_cons]

/-- A block of one statement has its text, also where that is empty. -/
theorem lowerBlock_singleton (scope : Scope) (indent : String) (s : Stmt) :
    lowerBlock scope indent [s] = s.lowerCode scope indent := by
  have hnil : lowerBlock (s.after scope) indent [] = .ok "" := rfl
  rw [lowerBlock_cons, hnil]
  cases s.lowerCode scope indent with
  | error e => rfl
  | ok code => exact congrArg Except.ok (Layout.empty_stack code)

/-- The chain behind statements, each lowered in the chain that the one before it leaves. -/
def chainBehind (scope : Scope) (indent : String) (body : List Stmt) : Except Error Scope :=
  body.foldlM (fun chain s => return (← s.lower chain indent).scope) scope

/-- Collecting the texts on the way leads to the same chain. -/
theorem chainBehind_eq (scope : Scope) (indent : String) (body : List Stmt) :
    chainBehind scope indent body = do
      let (_, last) ← lowerAll scope indent body
      return last := by
  induction body generalizing scope with
  | nil => rfl
  | cons s rest ih =>
    simp only [chainBehind] at ih
    simp only [chainBehind, List.foldlM_cons, lowerAll, ih, bind_assoc, pure_bind]

/-- A block is lowered part by part. Of the first part its text and its chain are enough. -/
theorem lowerBlock_append (scope : Scope) (indent : String) (a b : List Stmt) :
    lowerBlock scope indent (a ++ b) = do
      let above ← lowerBlock scope indent a
      let mid ← chainBehind scope indent a
      let below ← lowerBlock mid indent b
      return Layout.stack above below := by
  simp only [lowerBlock, chainBehind_eq, lowerAll_append, bind_assoc, pure_bind,
    Layout.joinLines_append]
  -- The first part is lowered twice on the right, to the same result.
  cases lowerAll scope indent a with
  | error e => rfl
  | ok result => rfl

/-- A block that has a text has a chain behind it. -/
theorem chainBehind_of_lowerBlock {scope : Scope} {indent text : String} {body : List Stmt}
    (h : lowerBlock scope indent body = .ok text) :
    ∃ last, chainBehind scope indent body = .ok last := by
  obtain ⟨⟨codes, last⟩, hcodes, _⟩ := bind_eq_ok.mp h
  refine ⟨last, ?_⟩
  rw [chainBehind_eq, hcodes]
  rfl

end Stmt

/-- **A block may be taken apart anywhere.** If its first part fails, the block fails with
that error, whatever comes behind. If not, the block fails exactly where the rest fails in the
chain that the first part leaves, with the error of the rest; and its text is that of the
first part above that of the rest, with one newline between them if neither is empty. A block
of one statement has its text, so this says what the text of every block is. -/
theorem lowering_splits (scope : Scope) (indent : String) (a : List Stmt) :
    (∀ e, Stmt.lowerBlock scope indent a = .error e →
      ∀ b, Stmt.lowerBlock scope indent (a ++ b) = .error e) ∧
    (∀ above, Stmt.lowerBlock scope indent a = .ok above →
      ∃ mid, Stmt.chainBehind scope indent a = .ok mid ∧ ∀ b,
        ((∃ text, Stmt.lowerBlock scope indent (a ++ b) = .ok text) ↔
          ∃ below, Stmt.lowerBlock mid indent b = .ok below) ∧
        (∀ e, Stmt.lowerBlock scope indent (a ++ b) = .error e ↔
          Stmt.lowerBlock mid indent b = .error e) ∧
        ∀ below, Stmt.lowerBlock mid indent b = .ok below →
          Stmt.lowerBlock scope indent (a ++ b) = .ok (Layout.stack above below)) ∧
    ∀ s, Stmt.lowerBlock scope indent [s] = s.lowerCode scope indent := by
  refine ⟨fun e ha b => ?_, fun above ha => ?_, Stmt.lowerBlock_singleton scope indent⟩
  · rw [Stmt.lowerBlock_append, ha]
    rfl
  · obtain ⟨mid, hmid⟩ := Stmt.chainBehind_of_lowerBlock ha
    refine ⟨mid, hmid, fun b => ?_⟩
    -- Behind a part that is lowered, only the rest decides.
    have hrest : Stmt.lowerBlock scope indent (a ++ b) = do
        let below ← Stmt.lowerBlock mid indent b
        return Layout.stack above below := by
      rw [Stmt.lowerBlock_append, ha, hmid]
      rfl
    rw [hrest]
    cases Stmt.lowerBlock mid indent b with
    | error e => simp [bind, Except.bind]
    | ok below => simp [bind, Except.bind, pure, Except.pure]

/-- A function to be called, as a prototype and in a chain. -/
def tickPrototype : Stmt :=
  .prototype "f" ⟨[], .i32⟩

def tickScope : Scope :=
  Scope.root.bind "f" (.function ⟨[], .i32⟩)

/-- Prototypes have no text, on either side; a declaration is there for the rest only. -/
theorem lowering_splits_tick :
    let call : Stmt := .declare "x" (.call "f" [])
    let result : Stmt := .ret (some (.symbol "x"))
    let missing : Error := .unlocated (.undefinedSymbol "x")
    (Stmt.lowerBlock .root "" [result] = .error missing ∧
      Stmt.lowerBlock .root "" [result, tickPrototype, call] = .error missing) ∧
    (Stmt.lowerBlock .root "" [tickPrototype] = .ok "" ∧
      Stmt.chainBehind .root "" [tickPrototype] = .ok tickScope ∧
      Stmt.lowerBlock tickScope "" [call, result] = .ok "int x = f();\nreturn x;" ∧
      Stmt.lowerBlock .root "" [tickPrototype, call, result] = .ok "int x = f();\nreturn x;" ∧
      Stmt.lowerBlock tickScope "" [result] = .error missing ∧
      Stmt.lowerBlock .root "" [tickPrototype, result] = .error missing) ∧
    (Stmt.lowerBlock tickScope "  " [call] = .ok "  int x = f();" ∧
      Stmt.lowerBlock tickScope "  " [call, tickPrototype] = .ok "  int x = f();" ∧
      Stmt.lowerBlock tickScope "  " [call, result] = .ok "  int x = f();\n  return x;") := by
  intro call result missing
  have hresult : Stmt.lowerBlock .root "" [result] = .error missing := by rfl
  have hprototype : Stmt.lowerBlock .root "" [tickPrototype] = .ok "" := by rfl
  have hchain : Stmt.chainBehind .root "" [tickPrototype] = .ok tickScope := by rfl
  have hboth : Stmt.lowerBlock tickScope "" [call, result] =
      .ok "int x = f();\nreturn x;" := by rfl
  have hmissing : Stmt.lowerBlock tickScope "" [result] = .error missing := by rfl
  have hcall : Stmt.lowerBlock tickScope "  " [call] = .ok "  int x = f();" := by rfl
  have hfail := (lowering_splits .root "" [result]).1 missing hresult [tickPrototype, call]
  obtain ⟨mid, hmid, hrest⟩ := (lowering_splits .root "" [tickPrototype]).2.1 "" hprototype
  cases hmid.symm.trans hchain
  obtain ⟨mid, hmid, hbehind⟩ := (lowering_splits tickScope "  " [call]).2.1 _ hcall
  cases hmid
  exact ⟨⟨hresult, hfail⟩,
    ⟨hprototype, hchain, hboth, (hrest [call, result]).2.2 _ hboth, hmissing,
      ((hrest [result]).2.1 missing).mpr hmissing⟩,
    hcall, (hbehind [tickPrototype]).2.2 "" rfl, (hbehind [result]).2.2 "  return x;" rfl⟩

end LittleC
