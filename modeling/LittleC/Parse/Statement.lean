import LittleC.Ast.Stmt
import LittleC.Parse.Expression

/-! Reading statements and programs. The first token decides which statement it is; a
statement without a word of its own is a call or an assignment. `parse` reads the
tokens of a whole program. -/
namespace LittleC

/-- Whether a token begins a statement of its own kind. -/
def TokenKind.startsStmt : TokenKind → Bool
  | kwLet | kwVar | kwIf | kwFor | kwFn | kwReturn | rawCode => true
  | _ => false

namespace Parse

/-! ### Statements without a block -/

/-- The name of a type. -/
def typeName (c : Cursor) : Reading 0 Ty c :=
  if c.kind = .identifier then
    .step (match Ty.ofName? c.current.value with
      | some t => .ok t
      | none => .error (.located (.unknownType c.current.value) c.position))
  else .fail (c.unexpected "expected a type name")

/-- A call or an assignment, and its semicolon. -/
def effect (c : Cursor) : Reading 1 Stmt c :=
  (expr .lowest c).bind fun e d _ =>
    match e with
    | .call f args => (d.expect .semicolon).map fun _ => .call f args
    | .assign x v => (d.expect .semicolon).map fun _ => .assign x v
    | _ => .fail (c.unexpected "only calls and assignments can be used as statements")

/-- A declaration, after its first word. -/
def afterLet (c : Cursor) : Reading 0 Stmt c :=
  (c.expectOr .identifier "expected identifier during variable declaration").bind fun name d _ =>
  (d.expectOr .assignment "variables need an initializer to infer their type").bind fun _ d' _ =>
  (expr .lowest d').weaken.bind fun value d'' _ =>
  (d''.expect .semicolon).map fun _ => .declare name.value value

/-- A return, after its word. -/
def afterReturn (c : Cursor) : Reading 0 Stmt c :=
  if c.kind = .semicolon then .step (.ok (.ret none))
  else
    (expr .lowest c).weaken.bind fun value d _ =>
    (d.expect .semicolon).map fun _ => .ret (some value)

/-- The semicolon that may follow raw text. -/
def afterRaw (text : String) (c : Cursor) : Reading 0 Stmt c :=
  if c.kind = .semicolon then .step (.ok (.raw text)) else .done (.raw text)

/-- The parameters of a function through the closing parenthesis. A comma may follow the
last. -/
def params (c : Cursor) : Reading 0 (List Param) c :=
  if c.kind = .closeParen then .step (.ok [])
  else
    ((c.require .identifier (by decide)).bind fun name d hd =>
      (d.expect .colon).bind fun _ d₁ h₁ =>
      (typeName d₁).bind fun type d₂ h₂ =>
        if d₂.kind = .closeParen then (params d₂).map (⟨name.value, type⟩ :: ·)
        else (d₂.expect .comma).bind fun _ d₃ h₃ => (params d₃).map (⟨name.value, type⟩ :: ·)).weaken
termination_by c.size
decreasing_by all_goals omega

/-- The type of a function's result, `void` if none is written. -/
def resultType (c : Cursor) : Reading 0 Ty c :=
  if c.kind = .arrow then (typeName c.advance).afterCurrent else .done .void

/-- The name and the signature of a function, after its word. -/
def header (c : Cursor) : Reading 0 (String × Signature) c :=
  (c.expectOr .identifier "expected function name").bind fun name d _ =>
  (d.expect .openParen).bind fun _ d₁ _ =>
  (params d₁).bind fun ps d₂ _ =>
  (resultType d₂).map fun result => (name.value, ⟨ps, result⟩)

/-! ### Statements with blocks -/

set_option linter.unusedVariables false in
mutual
def stmt (c : Cursor) : Reading 1 Stmt c :=
  match c with
  | ⟨[], final⟩ => effect ⟨[], final⟩
  | ⟨t :: rest, final⟩ =>
    match t.kind with
    | .kwLet | .kwVar => (afterLet ⟨rest, final⟩).afterFirst
    | .kwIf => (afterIf ⟨rest, final⟩).afterFirst
    | .kwFor => (afterFor ⟨rest, final⟩).afterFirst
    | .kwFn => (afterFn ⟨rest, final⟩).afterFirst
    | .kwReturn => (afterReturn ⟨rest, final⟩).afterFirst
    | .rawCode => (afterRaw t.value ⟨rest, final⟩).afterFirst
    | _ => effect ⟨t :: rest, final⟩
termination_by (c.size, 0)
decreasing_by all_goals exact Prod.Lex.left _ _ (Nat.lt_succ_self _)

/-- Statements up to the end of their block and through its closing brace. -/
def stmts (c : Cursor) : Reading 0 (List Stmt) c :=
  if c.kind = .closeCurly ∨ c.kind = .eof then (c.expect .closeCurly).map fun _ => []
  else ((stmt c).bind fun s d hd => (stmts d).map (s :: ·)).weaken
termination_by (c.size, 1)
decreasing_by
  · exact Prod.Lex.right _ (by decide)
  · exact Prod.Lex.left _ _ hd

/-- Statements between braces. -/
def block (c : Cursor) : Reading 0 (List Stmt) c :=
  (c.expect .openCurly).bind fun _ d hd => stmts d
termination_by (c.size, 2)
decreasing_by
  exact (Nat.lt_or_eq_of_le hd).elim (Prod.Lex.left _ _) fun h => h ▸ Prod.Lex.right _ (by decide)

/-- A conditional, after its word. -/
def afterIf (c : Cursor) : Reading 1 Stmt c :=
  (expr .lowest c).bind fun condition d hd =>
  (block d).bind fun body d' hd' =>
  (otherwise d').map fun rest => .conditional condition body rest
termination_by (c.size, 3)
decreasing_by
  · exact Prod.Lex.left _ _ hd
  · exact Prod.Lex.left _ _ (Nat.lt_of_le_of_lt hd' hd)

/-- The other branch of a conditional, if there is one. -/
def otherwise (c : Cursor) : Reading 0 (Option (List Stmt)) c :=
  match c with
  | ⟨[], _⟩ => .done none
  | ⟨t :: rest, final⟩ =>
    if t.kind = .kwElse then ((afterElse ⟨rest, final⟩).map some).afterFirst.weaken
    else .done none
termination_by (c.size, 3)
decreasing_by exact Prod.Lex.left _ _ (Nat.lt_succ_self _)

/-- A block, or another conditional as the only statement of one. -/
def afterElse (c : Cursor) : Reading 0 (List Stmt) c :=
  match c with
  | ⟨[], final⟩ => block ⟨[], final⟩
  | ⟨t :: rest, final⟩ =>
    if t.kind = .kwIf then ((afterIf ⟨rest, final⟩).map fun s => [s]).afterFirst.weaken
    else block ⟨t :: rest, final⟩
termination_by (c.size, 3)
decreasing_by
  · exact Prod.Lex.right _ (by decide)
  · exact Prod.Lex.left _ _ (Nat.lt_succ_self _)
  · exact Prod.Lex.right _ (by decide)

/-- A loop, after its word. -/
def afterFor (c : Cursor) : Reading 0 Stmt c :=
  (c.expect .openParen).bind fun _ d hd =>
  (stmt d).weaken.bind fun initial d₁ h₁ =>
  (expr .lowest d₁).weaken.bind fun condition d₂ h₂ =>
  (d₂.expect .semicolon).bind fun _ d₃ h₃ =>
  (expr .lowest d₃).weaken.bind fun step d₄ h₄ =>
  (d₄.expect .closeParen).bind fun _ d₅ h₅ =>
  (block d₅).map fun body => .loop initial condition step body
termination_by (c.size, 3)
decreasing_by
  · exact (Nat.lt_or_eq_of_le hd).elim (Prod.Lex.left _ _) fun h => h ▸ Prod.Lex.right _ (by decide)
  · have h : d₅.size ≤ c.size := by omega
    exact (Nat.lt_or_eq_of_le h).elim (Prod.Lex.left _ _) fun h => h ▸ Prod.Lex.right _ (by decide)

/-- A function, after its word: a prototype ends with a semicolon. -/
def afterFn (c : Cursor) : Reading 0 Stmt c :=
  (header c).bind fun (name, signature) d hd =>
    if d.kind = .semicolon then .step (.ok (.prototype name signature))
    else (block d).map fun body => .function name signature body
termination_by (c.size, 3)
decreasing_by
  exact (Nat.lt_or_eq_of_le hd).elim (Prod.Lex.left _ _) fun h => h ▸ Prod.Lex.right _ (by decide)
end

/-! ### Statements read on their own -/

/-- A declaration, whichever its first word. -/
def declaration (c : Cursor) : Reading 0 Stmt c :=
  (afterLet c.advance).afterCurrent

def conditional (c : Cursor) : Reading 0 Stmt c :=
  (afterIf c.advance).afterCurrent

def loop (c : Cursor) : Reading 0 Stmt c :=
  (afterFor c.advance).afterCurrent

def function (c : Cursor) : Reading 0 Stmt c :=
  (afterFn c.advance).afterCurrent

def returned (c : Cursor) : Reading 0 Stmt c :=
  (afterReturn c.advance).afterCurrent

/-- The current token as raw text. -/
def rawText (c : Cursor) : Reading 0 Stmt c :=
  (afterRaw c.current.value c.advance).afterCurrent

/-! ### Programs -/

set_option linter.unusedVariables false in
/-- Statements up to an end of file. -/
def program (c : Cursor) : Reading 0 Program c :=
  if c.kind = .eof then .done []
  else ((stmt c).bind fun s d hd => (program d).map (s :: ·)).weaken
termination_by c.size
decreasing_by exact hd

end Parse

/-- The program that tokens spell. -/
def parse (tokens : List Token) (file : String) : Except Error Program :=
  (Parse.program (Cursor.ofTokens tokens file)).result

/-- The program of a source text. -/
def parseSource (source file : String) : Except Error Program :=
  match scan source file with
  | .error e => .error e
  | .ok tokens => parse tokens file

end LittleC
