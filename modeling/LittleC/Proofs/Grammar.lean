import LittleC.Parse.Statement

/-! The grammar of the language, as rules over lists of tokens.

Expressions have levels, numbered from the loosest: 0 assignment, 1 comparison, 2 sum,
3 product, 4 call, 5 primary. `Expression k ts e` says that the tokens `ts` spell the
expression `e` at level `k`. Parentheses leave no trace in the expression, so what is
assigned to or called is any primary that spells a plain name. -/
namespace LittleC.Grammar

/-- The binary operators with the level of their chains. -/
def operators : List (Nat × TokenKind × BinaryOp) :=
  [(1, .equals, .equals), (1, .less, .lessThan), (1, .greater, .greaterThan),
   (2, .plus, .plus), (2, .dash, .minus), (3, .star, .multiply), (3, .slash, .divide)]

/-- The kind of token is a binary operator of the level. -/
def Operator (k : Nat) (kind : TokenKind) (op : BinaryOp) : Prop :=
  (k, kind, op) ∈ operators

instance (k : Nat) (kind : TokenKind) (op : BinaryOp) : Decidable (Operator k kind op) :=
  inferInstanceAs (Decidable (_ ∈ operators))

mutual
/-- The tokens spell the expression at a level. -/
inductive Expression : Nat → List Token → Expr → Prop where
  | assign {ss vs : List Token} {eq : Token} {x : String} {v : Expr} :
      Primary ss (.symbol x) → eq.kind = .assignment → Expression 0 vs v →
      Expression 0 (ss ++ eq :: vs) (.assign x v)
  | binary {k : Nat} {op : BinaryOp} {ls rs : List Token} {t : Token} {l r : Expr} :
      Operator k t.kind op → Expression k ls l → Expression (k + 1) rs r →
      Expression k (ls ++ t :: rs) (.binary op l r)
  | tighter {k : Nat} {ts : List Token} {e : Expr} : k < 5 → Expression (k + 1) ts e →
      Expression k ts e
  | call {ss ts : List Token} {opening closing : Token} {f : String} {args : List Expr} :
      Primary ss (.symbol f) → opening.kind = .openParen → Arguments ts args →
      closing.kind = .closeParen →
      Expression 4 (ss ++ opening :: (ts ++ [closing])) (.call f args)
  | primary {ts : List Token} {e : Expr} : Primary ts e → Expression 5 ts e

/-- The tokens spell an expression that holds together by itself. -/
inductive Primary : List Token → Expr → Prop where
  | number {t : Token} {e : Expr} : t.kind = .number → Literal.ofText? t.value = some e →
      Primary [t] e
  | negative {minus t : Token} {e : Expr} : minus.kind = .dash → t.kind = .number →
      Literal.ofText? ("-" ++ t.value) = some e → Primary [minus, t] e
  | name {t : Token} : t.kind = .identifier → Primary [t] (.symbol t.value)
  | string {t : Token} : t.kind = .string → Primary [t] (.string t.value)
  | isTrue {t : Token} : t.kind = .kwTrue → Primary [t] (.boolean true)
  | isFalse {t : Token} : t.kind = .kwFalse → Primary [t] (.boolean false)
  | raw {t : Token} : t.kind = .rawCode → Primary [t] (.raw t.value)
  | group {ts : List Token} {opening closing : Token} {e : Expr} :
      opening.kind = .openParen → Expression 0 ts e → closing.kind = .closeParen →
      Primary (opening :: (ts ++ [closing])) e

/-- Expressions with commas between them, and perhaps one after the last. -/
inductive Arguments : List Token → List Expr → Prop where
  | nil : Arguments [] []
  | last {ts : List Token} {e : Expr} : Expression 0 ts e → Arguments ts [e]
  | cons {ts us : List Token} {comma : Token} {e : Expr} {args : List Expr} :
      Expression 0 ts e → comma.kind = .comma → Arguments us args →
      Arguments (ts ++ comma :: us) (e :: args)
end

/-- The tokens spell a type. -/
inductive TypeName : List Token → Ty → Prop where
  | intro {t : Token} {type : Ty} : t.kind = .identifier → Ty.ofName? t.value = some type →
      TypeName [t] type

/-- The tokens spell the name of a parameter and its type. -/
inductive Parameter : List Token → Param → Prop where
  | intro {name colon : Token} {ts : List Token} {type : Ty} : name.kind = .identifier →
      colon.kind = .colon → TypeName ts type → Parameter (name :: colon :: ts) ⟨name.value, type⟩

/-- Parameters with commas between them, and perhaps one after the last. -/
inductive Parameters : List Token → List Param → Prop where
  | nil : Parameters [] []
  | last {ts : List Token} {p : Param} : Parameter ts p → Parameters ts [p]
  | cons {ts us : List Token} {comma : Token} {p : Param} {ps : List Param} :
      Parameter ts p → comma.kind = .comma → Parameters us ps →
      Parameters (ts ++ comma :: us) (p :: ps)

/-- The type of a result, `void` if there is no arrow. -/
inductive Result : List Token → Ty → Prop where
  | none : Result [] .void
  | arrow {t : Token} {ts : List Token} {type : Ty} : t.kind = .arrow → TypeName ts type →
      Result (t :: ts) type

/-- The name of a function, its parameters and the type of its result. -/
inductive Header : List Token → String → Signature → Prop where
  | intro {name opening closing : Token} {ps rs : List Token} {params : List Param} {result : Ty} :
      name.kind = .identifier → opening.kind = .openParen → Parameters ps params →
      closing.kind = .closeParen → Result rs result →
      Header (name :: opening :: (ps ++ closing :: rs)) name.value ⟨params, result⟩

mutual
/-- The tokens spell the statement. -/
inductive Statement : List Token → Stmt → Prop where
  | declare {word name eq semi : Token} {vs : List Token} {v : Expr} :
      word.kind = .kwLet ∨ word.kind = .kwVar → name.kind = .identifier → eq.kind = .assignment →
      Expression 0 vs v → semi.kind = .semicolon →
      Statement (word :: name :: eq :: (vs ++ [semi])) (.declare name.value v)
  | conditional {word : Token} {cs bs : List Token} {c : Expr} {body : List Stmt} :
      word.kind = .kwIf → Expression 0 cs c → Block bs body →
      Statement (word :: (cs ++ bs)) (.conditional c body none)
  | alternative {word other : Token} {cs bs es : List Token} {c : Expr} {body rest : List Stmt} :
      word.kind = .kwIf → Expression 0 cs c → Block bs body → other.kind = .kwElse →
      Otherwise es rest →
      Statement (word :: (cs ++ (bs ++ other :: es))) (.conditional c body (some rest))
  | loop {word opening semi closing : Token} {is cs ss bs : List Token} {initial : Stmt}
      {c step : Expr} {body : List Stmt} :
      word.kind = .kwFor → opening.kind = .openParen → Statement is initial → Expression 0 cs c →
      semi.kind = .semicolon → Expression 0 ss step → closing.kind = .closeParen → Block bs body →
      Statement (word :: opening :: (is ++ (cs ++ semi :: (ss ++ closing :: bs))))
        (.loop initial c step body)
  | prototype {word semi : Token} {hs : List Token} {f : String} {signature : Signature} :
      word.kind = .kwFn → Header hs f signature → semi.kind = .semicolon →
      Statement (word :: (hs ++ [semi])) (.prototype f signature)
  | function {word : Token} {hs bs : List Token} {f : String} {signature : Signature}
      {body : List Stmt} : word.kind = .kwFn → Header hs f signature → Block bs body →
      Statement (word :: (hs ++ bs)) (.function f signature body)
  | retNone {word semi : Token} : word.kind = .kwReturn → semi.kind = .semicolon →
      Statement [word, semi] (.ret none)
  | ret {word semi : Token} {vs : List Token} {v : Expr} : word.kind = .kwReturn →
      Expression 0 vs v → semi.kind = .semicolon →
      Statement (word :: (vs ++ [semi])) (.ret (some v))
  | raw {t : Token} : t.kind = .rawCode → Statement [t] (.raw t.value)
  | rawEnded {t semi : Token} : t.kind = .rawCode → semi.kind = .semicolon →
      Statement [t, semi] (.raw t.value)
  | call {ts : List Token} {semi : Token} {f : String} {args : List Expr} :
      Expression 0 ts (.call f args) → semi.kind = .semicolon →
      Statement (ts ++ [semi]) (.call f args)
  | assign {ts : List Token} {semi : Token} {x : String} {v : Expr} :
      Expression 0 ts (.assign x v) → semi.kind = .semicolon →
      Statement (ts ++ [semi]) (.assign x v)

/-- Statements between braces. -/
inductive Block : List Token → List Stmt → Prop where
  | braces {opening closing : Token} {ts : List Token} {body : List Stmt} :
      opening.kind = .openCurly → Statements ts body → closing.kind = .closeCurly →
      Block (opening :: (ts ++ [closing])) body

/-- The other branch of a conditional: a block, or one more conditional. -/
inductive Otherwise : List Token → List Stmt → Prop where
  | block {ts : List Token} {body : List Stmt} : Block ts body → Otherwise ts body
  | chained {ts : List Token} {c : Expr} {body : List Stmt} {rest : Option (List Stmt)} :
      Statement ts (.conditional c body rest) → Otherwise ts [.conditional c body rest]

inductive Statements : List Token → List Stmt → Prop where
  | nil : Statements [] []
  | cons {ts us : List Token} {s : Stmt} {rest : List Stmt} : Statement ts s →
      Statements us rest → Statements (ts ++ us) (s :: rest)
end

/-! ### Levels -/

theorem Expression.level_le {n : Nat} {ts : List Token} {e : Expr} :
    Expression n ts e → n ≤ 5
  | .assign .. => Nat.zero_le 5
  | .binary _ h _ => h.level_le
  | .tighter h _ => Nat.le_of_lt h
  | .call .. => by decide
  | .primary _ => Nat.le_refl 5

/-- What holds together tightly is also an expression of every looser level. -/
theorem Expression.loosen {m n : Nat} {ts : List Token} {e : Expr} (h : Expression n ts e)
    (hmn : m ≤ n) : Expression m ts e := by
  induction n with
  | zero =>
    obtain rfl : m = 0 := Nat.le_zero.mp hmn
    exact h
  | succ n ih =>
    rcases Nat.lt_or_eq_of_le hmn with hlt | rfl
    · exact ih (.tighter h.level_le h) (Nat.le_of_lt_succ hlt)
    · exact h

/-- Only a primary spells a plain name. -/
theorem Expression.primary_of_symbol {n : Nat} {ts : List Token} {x : String} :
    Expression n ts (.symbol x) → Primary ts (.symbol x)
  | .tighter _ h => h.primary_of_symbol
  | .primary h => h
termination_by 5 - n
decreasing_by omega

/-! ### First tokens -/

theorem Primary.head {ts : List Token} {e : Expr} (h : Primary ts e) :
    ∃ t us, ts = t :: us ∧ t.kind.startsExpr = true := by
  cases h with
  | number ht | name ht | string ht | isTrue ht | isFalse ht | raw ht | negative ht | group ht =>
    exact ⟨_, _, rfl, by rw [ht]; rfl⟩

theorem Expression.head {n : Nat} {ts : List Token} {e : Expr} :
    Expression n ts e → ∃ t us, ts = t :: us ∧ t.kind.startsExpr = true
  | .assign hs _ _ => by
    obtain ⟨t, us, rfl, ht⟩ := hs.head
    exact ⟨t, _, rfl, ht⟩
  | .binary _ hl _ => by
    obtain ⟨t, us, rfl, ht⟩ := hl.head
    exact ⟨t, _, rfl, ht⟩
  | .tighter _ h => h.head
  | .call hs _ _ _ => by
    obtain ⟨t, us, rfl, ht⟩ := hs.head
    exact ⟨t, _, rfl, ht⟩
  | .primary h => h.head

/-- A literal is a number and nothing else. -/
theorem ofText?_eq_some {text : String} {e : Expr} (h : Literal.ofText? text = some e) :
    e = .float text ∨ e = .double text ∨ e = .integer text := by
  unfold Literal.ofText? at h
  dsimp only at h
  split at h
  · split at h <;> simp_all
  · split at h
    · split at h <;> simp_all
    · split at h <;> simp_all

/-- A token that can begin a name, perhaps in parentheses. -/
def OpensName (ts : List Token) : Prop :=
  ∃ t us, ts = t :: us ∧ (t.kind = .identifier ∨ t.kind = .openParen)

theorem OpensName.append {ts : List Token} (h : OpensName ts) (us : List Token) :
    OpensName (ts ++ us) := by
  obtain ⟨t, rest, rfl, ht⟩ := h
  exact ⟨t, rest ++ us, rfl, ht⟩

/-- A primary that is no literal and no raw text is a name or stands in parentheses. -/
theorem Primary.opensName {ts : List Token} {e : Expr} (h : Primary ts e)
    (hf : ∀ text, e ≠ .float text) (hd : ∀ text, e ≠ .double text) (hi : ∀ text, e ≠ .integer text)
    (hs : ∀ text, e ≠ .string text) (hb : ∀ b, e ≠ .boolean b) (hr : ∀ text, e ≠ .raw text) :
    OpensName ts := by
  cases h with
  | number _ htext | negative _ _ htext =>
    rcases ofText?_eq_some htext with rfl | rfl | rfl
    · exact absurd rfl (hf _)
    · exact absurd rfl (hd _)
    · exact absurd rfl (hi _)
  | name ht => exact ⟨_, _, rfl, .inl ht⟩
  | string => exact absurd rfl (hs _)
  | isTrue | isFalse => exact absurd rfl (hb _)
  | raw => exact absurd rfl (hr _)
  | group ht => exact ⟨_, _, rfl, .inr ht⟩

theorem Primary.opensName_symbol {ts : List Token} {x : String} (h : Primary ts (.symbol x)) :
    OpensName ts := by
  apply h.opensName <;> simp

theorem Expression.opensName_call {n : Nat} {ts : List Token} {f : String} {args : List Expr} :
    Expression n ts (.call f args) → OpensName ts
  | .tighter _ h => h.opensName_call
  | .call hs _ _ _ => hs.opensName_symbol.append _
  | .primary h => by apply h.opensName <;> simp
termination_by 5 - n
decreasing_by omega

theorem Expression.opensName_assign {n : Nat} {ts : List Token} {x : String} {v : Expr} :
    Expression n ts (.assign x v) → OpensName ts
  | .assign hs _ _ => hs.opensName_symbol.append _
  | .tighter _ h => h.opensName_assign
  | .primary h => by apply h.opensName <;> simp
termination_by 5 - n
decreasing_by omega

/-- Tokens that can follow neither an optional semicolon nor an optional branch, and do
not end a block. -/
theorem Statement.head {ts : List Token} {s : Stmt} (h : Statement ts s) :
    ∃ t us, ts = t :: us ∧ (t.kind.startsStmt = true ∨ t.kind.startsExpr = true) := by
  cases h with
  | declare hw =>
    refine ⟨_, _, rfl, .inl ?_⟩
    rcases hw with hw | hw <;> rw [hw] <;> rfl
  | conditional hw | alternative hw | loop hw | prototype hw | function hw | retNone hw | ret hw
  | raw hw | rawEnded hw => exact ⟨_, _, rfl, .inl (by rw [hw]; rfl)⟩
  | call h | assign h =>
    obtain ⟨t, us, rfl, ht⟩ := h.head
    exact ⟨t, _, rfl, .inr ht⟩

theorem Statement.head_of_conditional {ts : List Token} {c : Expr} {body : List Stmt}
    {rest : Option (List Stmt)} (h : Statement ts (.conditional c body rest)) :
    ∃ t us, ts = t :: us ∧ t.kind = .kwIf := by
  cases h with
  | conditional hw | alternative hw => exact ⟨_, _, rfl, hw⟩

/-! ### No rule spells an end of file -/

/-- None of the tokens is an end of file. -/
def Inner (ts : List Token) : Prop :=
  ∀ t ∈ ts, t.kind ≠ .eof

namespace Inner

theorem nil : Inner [] := by
  simp [Inner]

theorem cons {t : Token} {ts : List Token} {k : TokenKind} (ht : t.kind = k) (hk : k ≠ .eof)
    (h : Inner ts) : Inner (t :: ts) := by
  intro u hu
  rcases List.mem_cons.mp hu with rfl | hu
  · rw [ht]
    exact hk
  · exact h u hu

theorem append {ts us : List Token} (ht : Inner ts) (hu : Inner us) : Inner (ts ++ us) := by
  intro t h
  exact (List.mem_append.mp h).elim (ht t) (hu t)

theorem single {t : Token} {k : TokenKind} (ht : t.kind = k) (hk : k ≠ .eof) : Inner [t] :=
  .cons ht hk .nil

end Inner

mutual
theorem Expression.inner {n : Nat} {ts : List Token} {e : Expr} : Expression n ts e → Inner ts
  | .assign hs heq hv => hs.inner.append (.cons heq (by decide) hv.inner)
  | .binary hop hl hr => by
    refine hl.inner.append (.cons rfl ?_ hr.inner)
    intro heof
    rw [heof] at hop
    simp [Operator, operators] at hop
  | .tighter _ h => h.inner
  | .call hs ho ha hc =>
    hs.inner.append (.cons ho (by decide) (ha.inner.append (.single hc (by decide))))
  | .primary h => h.inner

theorem Primary.inner {ts : List Token} {e : Expr} : Primary ts e → Inner ts
  | .number ht _ | .name ht | .string ht | .isTrue ht | .isFalse ht | .raw ht =>
    .single ht (by decide)
  | .negative hm ht _ => .cons hm (by decide) (.single ht (by decide))
  | .group ho h hc => .cons ho (by decide) (h.inner.append (.single hc (by decide)))

theorem Arguments.inner {ts : List Token} {args : List Expr} : Arguments ts args → Inner ts
  | .nil => .nil
  | .last h => h.inner
  | .cons h hc ha => h.inner.append (.cons hc (by decide) ha.inner)
end

theorem TypeName.inner {ts : List Token} {type : Ty} : TypeName ts type → Inner ts
  | .intro ht _ => .single ht (by decide)

theorem Parameter.inner {ts : List Token} {p : Param} : Parameter ts p → Inner ts
  | .intro hn hc ht => .cons hn (by decide) (.cons hc (by decide) ht.inner)

theorem Parameters.inner {ts : List Token} {ps : List Param} : Parameters ts ps → Inner ts
  | .nil => .nil
  | .last h => h.inner
  | .cons h hc hs => h.inner.append (.cons hc (by decide) hs.inner)

theorem Result.inner {ts : List Token} {type : Ty} : Result ts type → Inner ts
  | .none => .nil
  | .arrow ha ht => .cons ha (by decide) ht.inner

theorem Header.inner {ts : List Token} {f : String} {signature : Signature} :
    Header ts f signature → Inner ts
  | .intro hn ho hp hc hr => .cons hn (by decide) <| .cons ho (by decide) <|
    hp.inner.append (.cons hc (by decide) hr.inner)

mutual
theorem Statement.inner {ts : List Token} {s : Stmt} : Statement ts s → Inner ts
  | .declare hw hn heq hv hs => by
    have hrest := Inner.cons hn (by decide) <| .cons heq (by decide) <|
      hv.inner.append (.single hs (by decide))
    exact hw.elim (fun h => hrest.cons h (by decide)) fun h => hrest.cons h (by decide)
  | .conditional hw hc hb => .cons hw (by decide) (hc.inner.append hb.inner)
  | .alternative hw hc hb ho he => .cons hw (by decide) <| hc.inner.append <|
    hb.inner.append (.cons ho (by decide) he.inner)
  | .loop hw ho hi hc hs hstep hclose hb => .cons hw (by decide) <| .cons ho (by decide) <|
    hi.inner.append <| hc.inner.append <| .cons hs (by decide) <| hstep.inner.append <|
    .cons hclose (by decide) hb.inner
  | .prototype hw hh hs => .cons hw (by decide) (hh.inner.append (.single hs (by decide)))
  | .function hw hh hb => .cons hw (by decide) (hh.inner.append hb.inner)
  | .retNone hw hs => .cons hw (by decide) (.single hs (by decide))
  | .ret hw hv hs => .cons hw (by decide) (hv.inner.append (.single hs (by decide)))
  | .raw ht => .single ht (by decide)
  | .rawEnded ht hs => .cons ht (by decide) (.single hs (by decide))
  | .call h hs | .assign h hs => h.inner.append (.single hs (by decide))

theorem Block.inner {ts : List Token} {body : List Stmt} : Block ts body → Inner ts
  | .braces ho h hc => .cons ho (by decide) (h.inner.append (.single hc (by decide)))

theorem Otherwise.inner {ts : List Token} {body : List Stmt} : Otherwise ts body → Inner ts
  | .block h => h.inner
  | .chained h => h.inner

theorem Statements.inner {ts : List Token} {ss : List Stmt} : Statements ts ss → Inner ts
  | .nil => .nil
  | .cons h hs => h.inner.append hs.inner
end

end LittleC.Grammar
