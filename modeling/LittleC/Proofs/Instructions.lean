import LittleC.Proofs.Blame

/-! The parser as instructions. Here the tokens are a list and the parser has a position in it;
an instruction looks at the token there or goes to the next position, and stops with nothing
if there is no token. Every function of the parser and every loop of it is a `Handler`,
with its code.

`Runs ts p i es r j` says that the code `p`, started at position `i` of the tokens `ts`, comes to
an end at position `j` with the result `r`, having done what `es` lists. A run is finite, so to
have one is to end. Positions never decrease and never leave the list (`Runs.inOrder`), a
run depends on the tokens only up to the position where it ends (`Runs.agree`), and there
is one run at most (`Runs.unique`). -/
namespace LittleC.Parse

/-- The functions of the parser and its loops, by what they give. -/
inductive Handler : Type → Type where
  | expr (floor : Power) : Handler Expr
  | chain (floor : Power) (left : Expr) : Handler Expr
  | primary : Handler Expr
  | negative : Handler Expr
  | grouping : Handler Expr
  | binary (left : Expr) (power : Power) : Handler Expr
  | assignment (left : Expr) : Handler Expr
  | call (left : Expr) : Handler Expr
  | arguments : Handler (List Expr)
  | typeName : Handler Ty
  | params : Handler (List Param)
  | stmt : Handler Stmt
  | stmts : Handler (List Stmt)
  | block : Handler (List Stmt)
  | declaration : Handler Stmt
  | conditional : Handler Stmt
  | loop : Handler Stmt
  | function : Handler Stmt
  | returned : Handler Stmt
  | rawText : Handler Stmt
  | program : Handler Program

/-- What a handler does. -/
inductive Code : Type → Type 1 where
  | done {α : Type} (a : α) : Code α
  | fail {α : Type} (e : Error) : Code α
  /-- Gives the token at the position. -/
  | look : Code Token
  /-- Gives the token at the position and goes on to the next one, unless it is the last. -/
  | advance : Code Token
  | run {α : Type} (h : Handler α) : Code α
  | andThen {α β : Type} (p : Code α) (k : α → Code β) : Code β

namespace Code

instance : Monad Code where
  pure := done
  bind := andThen

variable {α : Type}

def ofExcept (r : Except Error α) : Code α :=
  match r with
  | .ok a => done a
  | .error e => fail e

/-- Fails at a token that cannot stand there, and says why. -/
def unexpected (t : Token) (message : String) : Code α :=
  fail (.located (.unexpectedTokenDetailed t.value message) ⟨t.span.start, t.span.file⟩)

def expect (kind : TokenKind) : Code Token := do
  let t ← look
  if t.kind = kind then advance
  else fail (.located (.unexpectedToken t.value) ⟨t.span.start, t.span.file⟩)

def expectOr (kind : TokenKind) (message : String) : Code Token := do
  let t ← look
  if t.kind = kind then advance else unexpected t message

end Code

/-- The handler of the tokens that an expression begins with. -/
def opener? : TokenKind → Option (Handler Expr)
  | .dash => some .negative
  | .openParen => some .grouping
  | .number | .identifier | .string | .kwTrue | .kwFalse | .rawCode => some .primary
  | _ => none

/-- The handler of the tokens that go on with an expression. -/
def extender (left : Expr) : Continuation → Handler Expr
  | .assignment => .assignment left
  | .binary op => .binary left (Continuation.binary op).power
  | .call => .call left

/-- The handler of the tokens that begin a statement of their own. -/
def starter? : TokenKind → Option (Handler Stmt)
  | .kwLet | .kwVar => some .declaration
  | .kwIf => some .conditional
  | .kwFor => some .loop
  | .kwFn => some .function
  | .kwReturn => some .returned
  | .rawCode => some .rawText
  | _ => none

namespace Code

/-! ### Expressions -/

def operand : Code Expr := do
  let t ← look
  match opener? t.kind with
  | some h => run h
  | none => unexpected t "expected an expression"

def afterMinus : Code Expr := do
  let t ← look
  if t.kind = .number then do
    let t ← advance
    ofExcept (Literal.ofToken t ("-" ++ t.value))
  else unexpected t "only numeric literals can be negated"

def afterOpenParen : Code Expr := do
  let e ← run (.expr .lowest)
  let _ ← expect .closeParen
  done e

/-! ### Statements -/

def effect : Code Stmt := do
  let t ← look
  let e ← run (.expr .lowest)
  match e with
  | .call f args => do
    let _ ← expect .semicolon
    done (.call f args)
  | .assign x v => do
    let _ ← expect .semicolon
    done (.assign x v)
  | _ => unexpected t "only calls and assignments can be used as statements"

def afterLet : Code Stmt := do
  let name ← expectOr .identifier "expected identifier during variable declaration"
  let _ ← expectOr .assignment "variables need an initializer to infer their type"
  let value ← run (.expr .lowest)
  let _ ← expect .semicolon
  done (.declare name.value value)

def afterReturn : Code Stmt := do
  let t ← look
  if t.kind = .semicolon then do
    let _ ← expect .semicolon
    done (.ret none)
  else do
    let value ← run (.expr .lowest)
    let _ ← expect .semicolon
    done (.ret (some value))

def afterRaw (text : String) : Code Stmt := do
  let t ← look
  if t.kind = .semicolon then do
    let _ ← advance
    done (.raw text)
  else done (.raw text)

def resultType : Code Ty := do
  let t ← look
  if t.kind = .arrow then do
    let _ ← advance
    run .typeName
  else done .void

def header : Code (String × Signature) := do
  let name ← expectOr .identifier "expected function name"
  let _ ← expect .openParen
  let ps ← run .params
  let result ← resultType
  done (name.value, ⟨ps, result⟩)

def afterElse : Code (List Stmt) := do
  let t ← look
  if t.kind = .kwIf then do
    let s ← run .conditional
    done [s]
  else run .block

def otherwise : Code (Option (List Stmt)) := do
  let t ← look
  if t.kind = .kwElse then do
    let _ ← advance
    let rest ← afterElse
    done (some rest)
  else done none

def afterIf : Code Stmt := do
  let condition ← run (.expr .lowest)
  let body ← run .block
  let rest ← otherwise
  done (.conditional condition body rest)

def afterFor : Code Stmt := do
  let _ ← expect .openParen
  let initial ← run .stmt
  let condition ← run (.expr .lowest)
  let _ ← expect .semicolon
  let step ← run (.expr .lowest)
  let _ ← expect .closeParen
  let body ← run .block
  done (.loop initial condition step body)

def afterFn : Code Stmt := do
  let (name, signature) ← header
  let t ← look
  if t.kind = .semicolon then do
    let _ ← advance
    done (.prototype name signature)
  else do
    let body ← run .block
    done (.function name signature body)

/-- The code of every handler. Those that begin after their first token skip it unseen; the
others look before they move. -/
def body : {α : Type} → Handler α → Code α
  | _, .expr floor => do
    let left ← operand
    run (.chain floor left)
  | _, .chain floor left => do
    let t ← look
    match t.kind.continuation? with
    | none => done left
    | some continuation =>
      if continuation.power.rank ≤ floor.rank then done left
      else do
        let extended ← run (extender left continuation)
        run (.chain floor extended)
  | _, .primary => do
    let t ← look
    let e ← ofExcept (primaryOf t)
    let _ ← advance
    done e
  | _, .negative => do
    let _ ← advance
    afterMinus
  | _, .grouping => do
    let _ ← advance
    afterOpenParen
  | _, .binary left power => do
    let t ← look
    match t.kind.operator? with
    | some op => do
      let _ ← advance
      let right ← run (.expr power)
      done (.binary op left right)
    | none => unexpected t "expected a binary operator"
  | _, .assignment left => do
    let t ← look
    match left with
    | .symbol name => do
      let _ ← advance
      let value ← run (.expr .lowest)
      done (.assign name value)
    | _ => unexpected t "only variables can be assigned to"
  | _, .call left => do
    let t ← look
    match left with
    | .symbol name => do
      let _ ← advance
      let args ← run .arguments
      done (.call name args)
    | _ => unexpected t "only named functions can be called"
  | _, .arguments => do
    let t ← look
    if t.kind = .closeParen then do
      let _ ← expect .closeParen
      done []
    else do
      let e ← run (.expr .lowest)
      let t ← look
      if t.kind = .closeParen then do
        let es ← run .arguments
        done (e :: es)
      else do
        let _ ← expect .comma
        let es ← run .arguments
        done (e :: es)
  | _, .typeName => do
    let t ← look
    if t.kind = .identifier then do
      let t ← advance
      ofExcept (match Ty.ofName? t.value with
        | some type => .ok type
        | none => .error (.located (.unknownType t.value) ⟨t.span.start, t.span.file⟩))
    else unexpected t "expected a type name"
  | _, .params => do
    let t ← look
    if t.kind = .closeParen then do
      let _ ← expect .closeParen
      done []
    else do
      let name ← expect .identifier
      let _ ← expect .colon
      let type ← run .typeName
      let t ← look
      if t.kind = .closeParen then do
        let ps ← run .params
        done (⟨name.value, type⟩ :: ps)
      else do
        let _ ← expect .comma
        let ps ← run .params
        done (⟨name.value, type⟩ :: ps)
  | _, .stmt => do
    let t ← look
    match starter? t.kind with
    | some h => run h
    | none => effect
  | _, .stmts => do
    let t ← look
    if t.kind = .closeCurly ∨ t.kind = .eof then do
      let _ ← expect .closeCurly
      done []
    else do
      let s ← run .stmt
      let ss ← run .stmts
      done (s :: ss)
  | _, .block => do
    let _ ← expect .openCurly
    run .stmts
  | _, .declaration => do
    let _ ← advance
    afterLet
  | _, .conditional => do
    let _ ← advance
    afterIf
  | _, .loop => do
    let _ ← advance
    afterFor
  | _, .function => do
    let _ ← advance
    afterFn
  | _, .returned => do
    let _ ← advance
    afterReturn
  | _, .rawText => do
    let t ← advance
    afterRaw t.value
  | _, .program => do
    let t ← look
    if t.kind = .eof then done []
    else do
      let s ← run .stmt
      let ss ← run .program
      done (s :: ss)

end Code

/-! ### Runs -/

/-- An instruction that was executed, and the position it was executed at. -/
inductive Event where
  | look (position : Nat)
  | advance (position : Nat)
  deriving DecidableEq, Repr

def Event.position : Event → Nat
  | look i | advance i => i

/-- The code, started at a position of the tokens, executes these instructions and ends with a
result at a position. Where there is no token, there is no rule. -/
inductive Runs (ts : List Token) :
    {α : Type} → Code α → Nat → List Event → Except Error α → Nat → Prop where
  | done {α : Type} {a : α} {i : Nat} : Runs ts (.done a) i [] (.ok a) i
  | fail {α : Type} {e : Error} {i : Nat} : Runs ts (.fail e : Code α) i [] (.error e) i
  | look {t : Token} {i : Nat} : ts[i]? = some t → Runs ts .look i [.look i] (.ok t) i
  | advance {t : Token} {i : Nat} : ts[i]? = some t →
      Runs ts .advance i [.advance i] (.ok t) (if i + 1 < ts.length then i + 1 else i)
  | run {α : Type} {h : Handler α} {i j : Nat} {es : List Event} {r : Except Error α} :
      Runs ts (.body h) i es r j → Runs ts (.run h) i es r j
  | andThen {α β : Type} {p : Code α} {k : α → Code β} {a : α} {i j m : Nat} {es fs : List Event}
      {r : Except Error β} : Runs ts p i es (.ok a) j → Runs ts (k a) j fs r m →
      Runs ts (.andThen p k) i (es ++ fs) r m
  | broken {α β : Type} {p : Code α} {k : α → Code β} {e : Error} {i j : Nat} {es : List Event} :
      Runs ts p i es (.error e) j → Runs ts (.andThen p k) i es (.error e) j

/-- The instructions were executed from one position to another, in ascending order. -/
structure InOrder (i : Nat) (es : List Event) (j : Nat) : Prop where
  le : i ≤ j
  within : ∀ e ∈ es, i ≤ e.position ∧ e.position ≤ j
  ascending : es.Pairwise fun e f => e.position ≤ f.position

theorem InOrder.append {i j m : Nat} {es fs : List Event} (h : InOrder i es j)
    (h' : InOrder j fs m) : InOrder i (es ++ fs) m where
  le := Nat.le_trans h.le h'.le
  within := by
    intro e he
    rcases List.mem_append.mp he with he | he
    · exact ⟨(h.within e he).1, Nat.le_trans (h.within e he).2 h'.le⟩
    · exact ⟨Nat.le_trans h.le (h'.within e he).1, (h'.within e he).2⟩
  ascending := by
    refine List.pairwise_append.mpr ⟨h.ascending, h'.ascending, fun e he f hf => ?_⟩
    exact Nat.le_trans (h.within e he).2 (h'.within f hf).1

namespace Runs

variable {α : Type} {ts us : List Token} {p : Code α} {i j : Nat} {es : List Event}
  {r : Except Error α}

/-- **A run never goes back.** -/
theorem inOrder (h : Runs ts p i es r j) : InOrder i es j := by
  induction h with
  | done | fail => exact ⟨Nat.le_refl _, by simp, .nil⟩
  | look _ => exact ⟨Nat.le_refl _, by simp [Event.position], by simp⟩
  | @advance _ i _ =>
    have hle : i ≤ if i + 1 < ts.length then i + 1 else i := by split <;> omega
    exact ⟨hle, by simpa [Event.position] using hle, by simp⟩
  | run _ ih => exact ih
  | andThen _ _ ih ih' => exact ih.append ih'
  | broken _ ih => exact ih

/-- **A run never leaves the tokens.** -/
theorem lt_length (h : Runs ts p i es r j) (hi : i < ts.length) : j < ts.length := by
  induction h with
  | done | fail | look _ => exact hi
  | advance _ => split <;> omega
  | run _ ih | broken _ ih => exact ih hi
  | andThen _ _ ih ih' => exact ih' (ih hi)

/-- There is one run at most. -/
theorem unique (h : Runs ts p i es r j) {fs : List Event} {s : Except Error α} {m : Nat}
    (h' : Runs ts p i fs s m) : fs = es ∧ s = r ∧ m = j := by
  induction h generalizing fs m with
  | done =>
    cases h'
    exact ⟨rfl, rfl, rfl⟩
  | fail =>
    cases h'
    exact ⟨rfl, rfl, rfl⟩
  | look ht =>
    cases h' with
    | look ht' =>
      rw [ht] at ht'
      cases ht'
      exact ⟨rfl, rfl, rfl⟩
  | advance ht =>
    cases h' with
    | advance ht' =>
      rw [ht] at ht'
      cases ht'
      exact ⟨rfl, rfl, rfl⟩
  | run _ ih =>
    cases h' with
    | run h' => exact ih h'
  | andThen _ _ ih ih' =>
    cases h' with
    | andThen h₁ h₂ =>
      obtain ⟨rfl, heq, rfl⟩ := ih h₁
      cases heq
      obtain ⟨rfl, rfl, rfl⟩ := ih' h₂
      exact ⟨rfl, rfl, rfl⟩
    | broken h₁ =>
      obtain ⟨_, heq, _⟩ := ih h₁
      cases heq
  | broken _ ih =>
    cases h' with
    | andThen h₁ _ =>
      obtain ⟨_, heq, _⟩ := ih h₁
      cases heq
    | broken h₁ =>
      obtain ⟨rfl, heq, rfl⟩ := ih h₁
      cases heq
      exact ⟨rfl, rfl, rfl⟩

/-- What a run has left behind, it has left by going on from there. -/
theorem advance_mem (h : Runs ts p i es r j) {k : Nat} (hi : i ≤ k) (hj : k < j) :
    .advance k ∈ es := by
  induction h with
  | done | fail | look _ => omega
  | @advance _ i _ =>
    have hk : k = i := by
      split at hj <;> omega
    simp [hk]
  | run _ ih | broken _ ih => exact ih hi hj
  | @andThen _ _ _ _ _ _ mid _ _ _ _ _ _ ih ih' =>
    rcases Nat.lt_or_ge k mid with hlt | hge
    · exact List.mem_append_left _ (ih hi hlt)
    · exact List.mem_append_right _ (ih' hge hj)

end Runs

/-- No instruction goes on from an end of file. -/
def Careful (ts : List Token) (es : List Event) : Prop :=
  ∀ i, .advance i ∈ es → ∃ t, ts[i]? = some t ∧ t.kind ≠ .eof

theorem careful_nil {ts : List Token} : Careful ts [] := by
  simp [Careful]

theorem careful_append {ts : List Token} {es fs : List Event} :
    Careful ts (es ++ fs) ↔ Careful ts es ∧ Careful ts fs := by
  simp [Careful, or_imp, forall_and]

/-- Behind a token that is no end of file there is another one, if the last is one. -/
theorem careful_advance {ts : List Token} {es : List Event} (h : Careful ts es)
    (hlast : ∀ t ∈ ts.getLast?, t.kind = .eof) {i : Nat} (hi : .advance i ∈ es) :
    i + 1 < ts.length := by
  obtain ⟨t, ht, hne⟩ := h i hi
  obtain ⟨hlt, rfl⟩ := List.getElem?_eq_some_iff.mp ht
  apply Nat.lt_of_le_of_ne hlt
  intro hend
  apply hne
  apply hlast
  simp [List.getLast?_eq_getElem?, ← hend]

/-- **A run depends on the tokens only up to where it ends**, if it stays in front of ends of
file and the last token is one. -/
theorem Runs.agree {α : Type} {ts us : List Token} {p : Code α} {i j : Nat} {es : List Event}
    {r : Except Error α} (h : Runs ts p i es r j) (hcareful : Careful ts es)
    (hlast : ∀ t ∈ ts.getLast?, t.kind = .eof) (hagree : ∀ k ≤ j, us[k]? = ts[k]?) :
    Runs us p i es r j := by
  induction h with
  | done => exact .done
  | fail => exact .fail
  | @look t i ht => exact .look ((hagree i (Nat.le_refl _)).trans ht)
  | @advance t i ht =>
    have hmore : i + 1 < ts.length := careful_advance hcareful hlast (by simp)
    rw [if_pos hmore] at hagree ⊢
    have hnext := hagree (i + 1) (Nat.le_refl _)
    rw [List.getElem?_eq_getElem hmore] at hnext
    obtain ⟨hmore', _⟩ := List.getElem?_eq_some_iff.mp hnext
    have hrun : Runs us .advance i [.advance i] (.ok t) _ :=
      .advance ((hagree i (Nat.le_succ i)).trans ht)
    rwa [if_pos hmore'] at hrun
  | run _ ih => exact .run (ih hcareful hagree)
  | andThen _ h₂ ih ih' =>
    obtain ⟨hes, hfs⟩ := careful_append.mp hcareful
    exact .andThen (ih hes fun k hk => hagree k (Nat.le_trans hk h₂.inOrder.le)) (ih' hfs hagree)
  | broken _ ih => exact .broken (ih hcareful hagree)

end LittleC.Parse
