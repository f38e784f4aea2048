import LittleC.Proofs.ParseStmt

/-! Statements are read as the grammar spells them, and a program is the statements in
front of the first end of file. What may be left out, the semicolon after raw text and
the other branch of a conditional, is never what the next statement begins with, so a
statement is read to its end whatever follows it.

`parse_eq_ok_iff`: parsing succeeds on exactly the tokens that spell a program, with that
program. -/
namespace LittleC
namespace Parse
open Grammar

/-! ### What is read is spelled by the grammar -/

-- As for expressions, cursors are substituted after the recursive calls only. What is read
-- after a word is a statement once that word stands in front of it.
mutual
theorem stmt_sound (c : Cursor) {s : Stmt} {d : Cursor} (h : (stmt c).Yields s d) :
    ∃ ts, c = d.before ts ∧ Statement ts s := by
  rcases c.cases_push with hnil | ⟨t, c', hc⟩
  · obtain ⟨ahead, final⟩ := c
    obtain rfl : ahead = [] := hnil
    rw [stmt] at h
    exact effect_sound h
  have hsize : c'.size < c.size := hc ▸ c'.size_lt_push t
  have hpush (ts : List Token) (hc' : c' = d.before ts) : c = d.before (t :: ts) := by
    rw [hc, hc', Cursor.before_cons]
  have hcases := yields_stmt.mp (hc ▸ h)
  split at hcases
  · rename_i ht
    obtain ⟨ts, hc', hs⟩ := afterLet_sound hcases
    exact ⟨t :: ts, hpush ts hc', hs t (.inl ht)⟩
  · rename_i ht
    obtain ⟨ts, hc', hs⟩ := afterLet_sound hcases
    exact ⟨t :: ts, hpush ts hc', hs t (.inr ht)⟩
  · rename_i ht
    obtain ⟨ts, _, _, _, hc', _, hs⟩ := afterIf_sound c' hcases
    exact ⟨t :: ts, hpush ts hc', hs t ht⟩
  · rename_i ht
    obtain ⟨ts, hc', hs⟩ := afterFor_sound c' hcases
    exact ⟨t :: ts, hpush ts hc', hs t ht⟩
  · rename_i ht
    obtain ⟨ts, hc', hs⟩ := afterFn_sound c' hcases
    exact ⟨t :: ts, hpush ts hc', hs t ht⟩
  · rename_i ht
    obtain ⟨ts, hc', hs⟩ := afterReturn_sound hcases
    exact ⟨t :: ts, hpush ts hc', hs t ht⟩
  · rename_i ht
    obtain ⟨ts, hc', hs⟩ := afterRaw_sound hcases ht
    exact ⟨t :: ts, hpush ts hc', hs⟩
  · exact hc ▸ effect_sound hcases
termination_by (c.size, 0)
decreasing_by all_goals exact Prod.Lex.left _ _ hsize

theorem stmts_sound (c : Cursor) {ss : List Stmt} {d : Cursor} (h : (stmts c).Yields ss d) :
    ∃ ts closing, c = d.before (ts ++ [closing]) ∧ closing.kind = .closeCurly ∧
      Statements ts ss := by
  by_cases hclose : c.kind = .closeCurly
  · obtain ⟨rfl, hc⟩ := (stmts_closed hclose).mp h
    exact ⟨[], c.current, hc, hclose, .nil⟩
  by_cases heof : c.kind = .eof
  · exact absurd h (stmts_eof heof)
  obtain ⟨s, c', hs, rest, hrest, rfl⟩ := (stmts_open hclose heof).mp h
  have hsize : c'.size < c.size := hs.size_le
  obtain ⟨ts, hc, hts⟩ := stmt_sound c hs
  obtain ⟨us, closing, hc', hkind, hus⟩ := stmts_sound c' hrest
  subst hc' hc
  exact ⟨ts ++ us, closing, by simp, hkind, .cons hts hus⟩
termination_by (c.size, 1)
decreasing_by
  · exact Prod.Lex.right _ (by decide)
  · exact Prod.Lex.left _ _ hsize

theorem block_sound (c : Cursor) {body : List Stmt} {d : Cursor} (h : (block c).Yields body d) :
    ∃ ts, c = d.before ts ∧ Block ts body := by
  obtain ⟨t, c', hc, ht, hbody⟩ := yields_block.mp h
  have hsize : c'.size < c.size := hc ▸ c'.size_lt_push t
  obtain ⟨ts, closing, hc', hclose, hts⟩ := stmts_sound c' hbody
  subst hc' hc
  exact ⟨t :: (ts ++ [closing]), rfl, .braces ht hts hclose⟩
termination_by (c.size, 2)
decreasing_by exact Prod.Lex.left _ _ hsize

theorem afterIf_sound (c : Cursor) {s : Stmt} {d : Cursor} (h : (afterIf c).Yields s d) :
    ∃ ts condition body rest, c = d.before ts ∧ s = .conditional condition body rest ∧
      ∀ word : Token, word.kind = .kwIf → Statement (word :: ts) s := by
  obtain ⟨condition, c₁, hcond, body, c₂, hbody, rest, hrest, rfl⟩ := yields_afterIf.mp h
  have h₁ : c₁.size < c.size := hcond.size_le
  have h₂ : c₂.size < c.size := Nat.lt_of_le_of_lt hbody.size_le h₁
  obtain ⟨cs, hc, hcs, _⟩ := yields_expression.mp hcond
  obtain ⟨bs, hc₁, hbs⟩ := block_sound c₁ hbody
  by_cases helse : c₂.kind = .kwElse
  · have hpush := Cursor.eq_push helse (by decide)
    rw [hpush] at hrest
    obtain ⟨other, hother, rfl⟩ := (otherwise_else helse).mp hrest
    have h₃ : c₂.advance.size < c.size := Nat.lt_of_le_of_lt c₂.size_advance_le h₂
    obtain ⟨es, hc₂, hes⟩ := afterElse_sound c₂.advance hother
    rw [hc₂] at hpush
    refine ⟨cs ++ (bs ++ c₂.current :: es), condition, body, _, ?_, rfl, fun word hword => ?_⟩
    · rw [hc, hc₁, Cursor.before_append, Cursor.before_append, Cursor.before_cons, ← hpush]
    · exact .alternative hword hcs hbs helse hes
  · obtain ⟨rfl, rfl⟩ := (otherwise_none helse).mp hrest
    subst hc₁ hc
    exact ⟨cs ++ bs, condition, body, _, by simp, rfl, fun word hword => .conditional hword hcs hbs⟩
termination_by (c.size, 3)
decreasing_by all_goals exact Prod.Lex.left _ _ (by assumption)

theorem afterElse_sound (c : Cursor) {body : List Stmt} {d : Cursor}
    (h : (afterElse c).Yields body d) : ∃ ts, c = d.before ts ∧ Otherwise ts body := by
  by_cases hif : c.kind = .kwIf
  · have hsize : c.advance.size < c.size := Cursor.size_advance_lt (by rw [hif]; decide)
    have hpush := Cursor.eq_push hif (by decide)
    rw [hpush] at h
    obtain ⟨s, hs, rfl⟩ := (afterElse_if hif).mp h
    obtain ⟨ts, condition, body, rest, hc, rfl, hts⟩ := afterIf_sound c.advance hs
    rw [hc] at hpush
    exact ⟨c.current :: ts, hpush, .chained (hts _ hif)⟩
  · obtain ⟨ts, hc, hts⟩ := block_sound c ((afterElse_block hif).mp h)
    exact ⟨ts, hc, .block hts⟩
termination_by (c.size, 3)
decreasing_by
  · exact Prod.Lex.left _ _ hsize
  · exact Prod.Lex.right _ (by decide)

theorem afterFor_sound (c : Cursor) {s : Stmt} {d : Cursor} (h : (afterFor c).Yields s d) :
    ∃ ts, c = d.before ts ∧ ∀ word : Token, word.kind = .kwFor → Statement (word :: ts) s := by
  obtain ⟨opening, c₁, h₁, initial, c₂, h₂, condition, c₃, h₃, semi, c₄, h₄, step, c₅, h₅, closing,
    c₆, h₆, body, hbody, rfl⟩ := yields_afterFor.mp h
  obtain ⟨hc, hopen⟩ := (Cursor.yields_expect (by decide)).mp h₁
  obtain ⟨cs, hc₂, hcs, hsemi⟩ := (yields_ended (by decide) rfl).mp ⟨c₃, h₃, h₄⟩
  obtain ⟨ss, hc₄, hss, hclose⟩ := (yields_ended (by decide) rfl).mp ⟨c₅, h₅, h₆⟩
  have hsize : c₁.size < c.size := hc ▸ c₁.size_lt_push opening
  have hsize' : c₆.size < c.size := by
    have := h₂.size_le
    have := h₃.size_le
    have := h₄.size_le
    have := h₅.size_le
    have := h₆.size_le
    omega
  obtain ⟨is, hc₁, his⟩ := stmt_sound c₁ h₂
  obtain ⟨bs, hc₆, hbs⟩ := block_sound c₆ hbody
  subst hc₆ hc₄ hc₂ hc₁ hc
  refine ⟨opening :: (is ++ (cs ++ semi :: (ss ++ closing :: bs))), by simp, fun word hword => ?_⟩
  exact .loop hword hopen his hcs hsemi hss hclose hbs
termination_by (c.size, 3)
decreasing_by all_goals exact Prod.Lex.left _ _ (by assumption)

theorem afterFn_sound (c : Cursor) {s : Stmt} {d : Cursor} (h : (afterFn c).Yields s d) :
    ∃ ts, c = d.before ts ∧ ∀ word : Token, word.kind = .kwFn → Statement (word :: ts) s := by
  obtain ⟨f, signature, c', hheader, h⟩ := yields_afterFn.mp h
  obtain ⟨hs, hc, hhs⟩ := header_sound hheader
  rcases h with ⟨semi, hc', hsemi, rfl⟩ | ⟨body, hbody, rfl⟩
  · subst hc' hc
    exact ⟨hs ++ [semi], by simp, fun word hword => .prototype hword hhs hsemi⟩
  · have hsize : c'.size ≤ c.size := hheader.size_le
    obtain ⟨bs, hc', hbs⟩ := block_sound c' hbody
    subst hc' hc
    exact ⟨hs ++ bs, by simp, fun word hword => .function hword hhs hbs⟩
termination_by (c.size, 3)
decreasing_by
  exact (Nat.lt_or_eq_of_le hsize).elim (Prod.Lex.left _ _)
    fun h => h ▸ Prod.Lex.right _ (by decide)
end

/-! ### What the grammar spells is read -/

theorem kind_before_statement {ts : List Token} {s : Stmt} (h : Statement ts s) (d : Cursor)
    {k : TokenKind} (hstmt : k.startsStmt = false) (hexpr : k.startsExpr = false) :
    (d.before ts).kind ≠ k := by
  obtain ⟨t, us, rfl, ht⟩ := h.head
  intro hkind
  rw [Cursor.before_cons, Cursor.kind_push] at hkind
  rw [hkind, hstmt, hexpr] at ht
  simp at ht

/-- A token that begins no statement stands in front of statements only if it follows them. -/
theorem kind_before_statements {ts : List Token} {ss : List Stmt} (h : Statements ts ss)
    {d : Cursor} {k : TokenKind} (hd : d.kind ≠ k) (hstmt : k.startsStmt = false)
    (hexpr : k.startsExpr = false) : (d.before ts).kind ≠ k := by
  cases h with
  | nil => exact hd
  | cons hs _ =>
    rw [Cursor.before_append]
    exact kind_before_statement hs _ hstmt hexpr

theorem kind_block {ts : List Token} {body : List Stmt} (h : Block ts body) (d : Cursor) :
    (d.before ts).kind = .openCurly := by
  cases h with
  | braces ho => exact ho

theorem pull_block {ts : List Token} {body : List Stmt} (h : Block ts body) (d : Cursor) :
    (d.before ts).pull = 0 := by
  rw [Cursor.pull, kind_block h d]
  rfl

theorem stmt_effect {ts : List Token} {c d : Cursor} {s : Stmt} (hts : OpensName ts)
    (h : (effect (c.before ts)).Yields s d) : (stmt (c.before ts)).Yields s d := by
  obtain ⟨t, us, rfl, ht⟩ := hts
  rw [Cursor.before_cons, yields_stmt]
  rcases ht with ht | ht <;> rw [ht] <;> exact h

mutual
theorem stmt_before {ts : List Token} {s : Stmt} : Statement ts s → {d : Cursor} →
    d.kind ≠ .semicolon → d.kind ≠ .kwElse → (stmt (d.before ts)).Yields s d
  | .declare hw hname heq hvs hsemi, d, _, _ => by
    rw [Cursor.before_cons, yields_stmt]
    rcases hw with hw | hw <;> rw [hw] <;>
      exact yields_afterLet.mpr ⟨_, _, _, _, _, rfl, hname, heq, hvs, hsemi, rfl⟩
  | .conditional hw hcs hbs, d, _, helse => by
    rw [Cursor.before_cons, Cursor.before_append, yields_stmt, hw]
    refine yields_afterIf.mpr ⟨_, _, yields_expression.mpr ⟨_, rfl, hcs, pull_block hbs d⟩, _, d,
      block_before hbs d, none, ?_, rfl⟩
    exact (otherwise_none helse).mpr ⟨rfl, rfl⟩
  | .alternative hw hcs hbs ho hes, d, hsemi, helse => by
    rw [Cursor.before_cons, Cursor.before_append, Cursor.before_append, Cursor.before_cons,
      yields_stmt, hw]
    refine yields_afterIf.mpr ⟨_, _, yields_expression.mpr ⟨_, rfl, hcs, pull_block hbs _⟩, _, _,
      block_before hbs _, _, ?_, rfl⟩
    exact (otherwise_else ho).mpr ⟨_, otherwise_before hes hsemi helse, rfl⟩
  | @Statement.loop _ _ semi closing _ cs ss bs _ _ _ _ hw ho his hcs hsemi hss hclose hbs, d, _, _ =>
    by
    obtain ⟨c₅, hstep, hclosing⟩ :=
      (yields_ended (d := d.before bs) (by decide) rfl).mpr ⟨ss, rfl, hss, hclose⟩
    obtain ⟨c₃, hcond, hended⟩ :=
      (yields_ended (d := ((d.before bs).push closing).before ss) (by decide) rfl).mpr
        ⟨cs, rfl, hcs, hsemi⟩
    -- The condition begins with an expression's first token, so it takes nothing from the
    -- statement before it.
    have hinitial := stmt_before his
      (d := (((d.before bs).push closing).before ss |>.push semi).before cs)
      (kind_before_ne hcs _ rfl) (kind_before_ne hcs _ rfl)
    rw [Cursor.before_cons, Cursor.before_cons, Cursor.before_append, Cursor.before_append,
      Cursor.before_cons, Cursor.before_append, Cursor.before_cons, yields_stmt, hw]
    exact yields_afterFor.mpr ⟨_, _, (Cursor.yields_expect (by decide)).mpr ⟨rfl, ho⟩, _, _,
      hinitial, _, c₃, hcond, _, _, hended, _, c₅, hstep, _, _, hclosing, _, block_before hbs d, rfl⟩
  | .prototype hw hh hsemi, d, _, _ => by
    rw [Cursor.before_cons, Cursor.before_append, yields_stmt, hw]
    refine yields_afterFn.mpr ⟨_, _, _, header_before hh ?_, .inl ⟨_, rfl, hsemi, rfl⟩⟩
    rw [Cursor.before_cons, Cursor.kind_push, hsemi]
    decide
  | .function hw hh hbs, d, _, _ => by
    rw [Cursor.before_cons, Cursor.before_append, yields_stmt, hw]
    refine yields_afterFn.mpr ⟨_, _, _, header_before hh ?_, .inr ⟨_, block_before hbs d, rfl⟩⟩
    rw [kind_block hbs d]
    decide
  | .retNone hw hsemi, d, _, _ => by
    rw [Cursor.before_cons, yields_stmt, hw]
    exact yields_afterReturn.mpr (.inl ⟨_, rfl, hsemi, rfl⟩)
  | .ret hw hvs hsemi, d, _, _ => by
    rw [Cursor.before_cons, yields_stmt, hw]
    exact yields_afterReturn.mpr (.inr ⟨_, _, _, rfl, hvs, hsemi, rfl⟩)
  | .raw ht, d, hsemi, _ => by
    rw [Cursor.before_cons, yields_stmt, ht]
    exact (afterRaw_open hsemi).mpr ⟨rfl, rfl⟩
  | .rawEnded ht hsemi, d, _, _ => by
    rw [Cursor.before_cons, yields_stmt, ht]
    exact (afterRaw_ended hsemi).mpr ⟨rfl, rfl⟩
  | .call hts hsemi, d, _, _ => by
    rw [Cursor.before_append]
    refine stmt_effect hts.opensName_call (yields_effect.mpr ?_)
    exact ⟨_, _, rfl, hsemi, .inl ⟨_, _, rfl, hts⟩⟩
  | .assign hts hsemi, d, _, _ => by
    rw [Cursor.before_append]
    refine stmt_effect hts.opensName_assign (yields_effect.mpr ?_)
    exact ⟨_, _, rfl, hsemi, .inr ⟨_, _, rfl, hts⟩⟩

theorem block_before {ts : List Token} {body : List Stmt} : Block ts body → (d : Cursor) →
    (block (d.before ts)).Yields body d
  | .braces ho hts hc, d => by
    rw [Cursor.before_cons, Cursor.before_append]
    exact yields_block.mpr ⟨_, _, rfl, ho, stmts_before hts hc d⟩

theorem otherwise_before {ts : List Token} {body : List Stmt} : Otherwise ts body → {d : Cursor} →
    d.kind ≠ .semicolon → d.kind ≠ .kwElse → (afterElse (d.before ts)).Yields body d
  | .block hts, d, _, _ => by
    refine (afterElse_block ?_).mpr (block_before hts d)
    rw [kind_block hts d]
    decide
  | .chained hts, d, hsemi, helse => by
    have hif := stmt_before hts hsemi helse
    obtain ⟨word, us, rfl, hw⟩ := hts.head_of_conditional
    rw [Cursor.before_cons, yields_stmt, hw] at hif
    exact (afterElse_if hw).mpr ⟨_, hif, rfl⟩

theorem stmts_before {ts : List Token} {ss : List Stmt} : Statements ts ss →
    {closing : Token} → closing.kind = .closeCurly → (d : Cursor) →
    (stmts ((d.push closing).before ts)).Yields ss d
  | .nil, closing, hc, d => (stmts_closed (c := d.push closing) hc).mpr ⟨rfl, rfl⟩
  | .cons hs hrest, closing, hc, d => by
    have hsemi : (d.push closing).kind ≠ .semicolon := by rw [Cursor.kind_push, hc]; decide
    have helse : (d.push closing).kind ≠ .kwElse := by rw [Cursor.kind_push, hc]; decide
    have hfirst := stmt_before hs (kind_before_statements hrest hsemi rfl rfl)
      (kind_before_statements hrest helse rfl rfl)
    rw [Cursor.before_append]
    refine (stmts_open ?_ ?_).mpr ⟨_, _, hfirst, _, stmts_before hrest hc d, rfl⟩
    · exact kind_before_statement hs _ rfl rfl
    · exact kind_before_statement hs _ rfl rfl
end

/-! ### Programs -/

theorem program_eof {c : Cursor} (hc : c.kind = .eof) {d : Cursor} {p : Program} :
    (program c).Yields p d ↔ [] = p ∧ c = d := by
  rw [program, if_pos hc, Reading.yields_done]

theorem program_open {c : Cursor} (hc : c.kind ≠ .eof) {d : Cursor} {p : Program} :
    (program c).Yields p d ↔
      ∃ s c', (stmt c).Yields s c' ∧ ∃ rest, (program c').Yields rest d ∧ s :: rest = p := by
  rw [program, if_neg hc]
  simp only [Reading.yields_weaken, Reading.yields_bind, Reading.yields_map, exists_prop]

theorem program_sound (c : Cursor) {p : Program} {d : Cursor} (h : (program c).Yields p d) :
    ∃ ts, c = d.before ts ∧ Statements ts p ∧ d.kind = .eof := by
  by_cases hc : c.kind = .eof
  · obtain ⟨rfl, rfl⟩ := (program_eof hc).mp h
    exact ⟨[], rfl, .nil, hc⟩
  obtain ⟨s, c', hs, rest, hrest, rfl⟩ := (program_open hc).mp h
  have hsize : c'.size < c.size := hs.size_le
  obtain ⟨ts, rfl, hts⟩ := stmt_sound c hs
  obtain ⟨us, rfl, hus, hd⟩ := program_sound c' hrest
  exact ⟨ts ++ us, by simp, .cons hts hus, hd⟩
termination_by c.size

theorem program_before {ts : List Token} {p : Program} {d : Cursor} (hd : d.kind = .eof) :
    Statements ts p → (program (d.before ts)).Yields p d
  | .nil => (program_eof hd).mpr ⟨rfl, rfl⟩
  | .cons hs hrest => by
    have hsemi : d.kind ≠ .semicolon := by rw [hd]; decide
    have helse : d.kind ≠ .kwElse := by rw [hd]; decide
    have hfirst := stmt_before hs (kind_before_statements hrest hsemi rfl rfl)
      (kind_before_statements hrest helse rfl rfl)
    rw [Cursor.before_append]
    exact (program_open (kind_before_statement hs _ rfl rfl)).mpr
      ⟨_, _, hfirst, _, program_before hd hrest, rfl⟩

end Parse

/-- The tokens in front of the first end of file, all of them if there is none. -/
def source (tokens : List Token) : List Token :=
  tokens.takeWhile fun t => t.kind ≠ .eof

theorem source_cons {t : Token} (ht : t.kind ≠ .eof) (ts : List Token) :
    source (t :: ts) = t :: source ts :=
  List.takeWhile_cons_of_pos (by simpa using ht)

theorem source_eof {t : Token} (ht : t.kind = .eof) (ts : List Token) : source (t :: ts) = [] :=
  List.takeWhile_cons_of_neg (by simpa using ht)

theorem source_append {ts : List Token} (h : Grammar.Inner ts) (us : List Token) :
    source (ts ++ us) = ts ++ source us := by
  unfold source
  apply List.takeWhile_append_of_pos
  intro t ht
  simpa using h t ht

theorem source_concat {t : Token} (ht : t.kind = .eof) (ts : List Token) :
    source (ts ++ [t]) = source ts := by
  induction ts with
  | nil => exact source_eof ht []
  | cons u us ih =>
    by_cases hu : u.kind = .eof
    · rw [List.cons_append, source_eof hu, source_eof hu]
    · rw [List.cons_append, source_cons hu, source_cons hu, ih]

/-- The end of file that a cursor adds or takes away is not in front of the first one. -/
theorem source_ahead (tokens : List Token) (file : String) :
    source (Cursor.ofTokens tokens file).ahead = source tokens := by
  unfold Cursor.ofTokens
  split
  · rename_i hnil
    rw [List.getLast?_eq_none_iff.mp hnil]
  · rename_i t ht
    split
    · rename_i heof
      obtain ⟨init, rfl⟩ := List.getLast?_eq_some_iff.mp ht
      rw [List.dropLast_concat, source_concat heof]
    · rfl

theorem source_of_kind_eof {d : Cursor} (h : d.kind = .eof) : source d.ahead = [] := by
  obtain ⟨ahead, final⟩ := d
  cases ahead with
  | nil => rfl
  | cons t rest => exact source_eof h rest

/-- Behind the tokens of the source a cursor stands at an end of file. -/
theorem exists_before_source (c : Cursor) :
    ∃ d : Cursor, c = d.before (source c.ahead) ∧ d.kind = .eof := by
  obtain ⟨ahead, final⟩ := c
  induction ahead with
  | nil => exact ⟨⟨[], final⟩, rfl, rfl⟩
  | cons t rest ih =>
    by_cases ht : t.kind = .eof
    · exact ⟨⟨t :: rest, final⟩, by rw [source_eof ht, Cursor.before_nil], ht⟩
    · obtain ⟨d, hd, heof⟩ := ih
      refine ⟨d, ?_, heof⟩
      rw [source_cons ht, Cursor.before_cons]
      exact congrArg (Cursor.push · t) hd

/-- **Parsing accepts exactly the grammar.** Tokens are parsed as a program when those in
front of the first end of file spell it. -/
theorem parse_eq_ok_iff (tokens : List Token) (file : String) (p : Program) :
    parse tokens file = .ok p ↔ Grammar.Statements (source tokens) p := by
  rw [← source_ahead tokens file]
  constructor
  · intro h
    obtain ⟨ts, hc, hts, hd⟩ := Parse.program_sound _ ⟨h, rfl⟩
    have hahead : (Cursor.ofTokens tokens file).ahead = ts ++ Cursor.ahead _ :=
      congrArg Cursor.ahead hc
    rw [hahead, source_append hts.inner, source_of_kind_eof hd, List.append_nil]
    exact hts
  · intro h
    obtain ⟨d, hc, hd⟩ := exists_before_source (Cursor.ofTokens tokens file)
    have hread := Parse.program_before hd h
    rw [← hc] at hread
    exact hread.1

end LittleC
