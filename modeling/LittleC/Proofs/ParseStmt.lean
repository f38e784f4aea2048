import LittleC.Proofs.ParseExpr

/-! What the readings of statements yield, one step at a time. A statement without a block
is read exactly as the grammar spells it, and so is the header of a function; a statement
with a block yields what the readings of its parts yield. -/
namespace LittleC
namespace Parse
open Grammar

/-! ### Statements without a block -/

theorem yields_typeName {c d : Cursor} {type : Ty} :
    (typeName c).Yields type d ↔ ∃ ts, c = d.before ts ∧ TypeName ts type := by
  unfold typeName
  constructor
  · intro h
    split at h
    · rename_i hc
      obtain ⟨hname, rfl⟩ := Reading.yields_step.mp h
      refine ⟨[c.current], Cursor.eq_push hc (by decide), .intro hc ?_⟩
      cases hof : Ty.ofName? c.current.value <;> simp_all
    · exact absurd h Reading.yields_fail
  · rintro ⟨_, rfl, @⟨t, _, ht, hname⟩⟩
    rw [Cursor.before_cons, if_pos (by rw [Cursor.kind_push, ht])]
    simp [hname]

theorem yields_effect {c d : Cursor} {s : Stmt} : (effect c).Yields s d ↔
    ∃ ts semi, c = (d.push semi).before ts ∧ semi.kind = .semicolon ∧
      ((∃ f args, .call f args = s ∧ Expression 0 ts (.call f args)) ∨
        ∃ x v, .assign x v = s ∧ Expression 0 ts (.assign x v)) := by
  unfold effect
  simp only [Reading.yields_bind, exists_prop]
  constructor
  · rintro ⟨e, c', he, h⟩
    obtain ⟨ts, rfl, hts, _⟩ := yields_expression.mp he
    split at h
    · obtain ⟨semi, hsemi, rfl⟩ := Reading.yields_map.mp h
      obtain ⟨rfl, hkind⟩ := (Cursor.yields_expect (by decide)).mp hsemi
      exact ⟨ts, semi, rfl, hkind, .inl ⟨_, _, rfl, hts⟩⟩
    · obtain ⟨semi, hsemi, rfl⟩ := Reading.yields_map.mp h
      obtain ⟨rfl, hkind⟩ := (Cursor.yields_expect (by decide)).mp hsemi
      exact ⟨ts, semi, rfl, hkind, .inr ⟨_, _, rfl, hts⟩⟩
    · exact absurd h Reading.yields_fail
  · rintro ⟨ts, semi, rfl, hkind, h⟩
    have hstop : (d.push semi).pull = 0 := Cursor.pull_push_of_none d (by rw [hkind]; rfl)
    have hsemi := (Cursor.yields_expect (c := d.push semi) (by decide)).mpr ⟨rfl, hkind⟩
    rcases h with ⟨f, args, rfl, hts⟩ | ⟨x, v, rfl, hts⟩
    · exact ⟨_, _, yields_expression.mpr ⟨ts, rfl, hts, hstop⟩,
        Reading.yields_map.mpr ⟨semi, hsemi, rfl⟩⟩
    · exact ⟨_, _, yields_expression.mpr ⟨ts, rfl, hts, hstop⟩,
        Reading.yields_map.mpr ⟨semi, hsemi, rfl⟩⟩

theorem effect_sound {c d : Cursor} {s : Stmt} (h : (effect c).Yields s d) :
    ∃ ts, c = d.before ts ∧ Statement ts s := by
  obtain ⟨ts, semi, rfl, hsemi, ⟨f, args, rfl, hts⟩ | ⟨x, v, rfl, hts⟩⟩ := yields_effect.mp h
  · exact ⟨ts ++ [semi], by simp, .call hts hsemi⟩
  · exact ⟨ts ++ [semi], by simp, .assign hts hsemi⟩

/-- An expression and the token that ends it. -/
theorem yields_ended {c d : Cursor} {k : TokenKind} (hk : k ≠ .eof) (hcont : k.continuation? = none)
    {e : Expr} {t : Token} :
    (∃ c', (expr .lowest c).Yields e c' ∧ (c'.expect k).Yields t d) ↔
      ∃ ts, c = (d.push t).before ts ∧ Expression 0 ts e ∧ t.kind = k := by
  constructor
  · rintro ⟨c', he, ht⟩
    obtain ⟨rfl, hkind⟩ := (Cursor.yields_expect hk).mp ht
    obtain ⟨ts, rfl, hts, _⟩ := yields_expression.mp he
    exact ⟨ts, rfl, hts, hkind⟩
  · rintro ⟨ts, rfl, hts, hkind⟩
    refine ⟨d.push t, yields_expression.mpr ⟨ts, rfl, hts, ?_⟩, ?_⟩
    · exact Cursor.pull_push_of_none d (by rw [hkind, hcont])
    · exact (Cursor.yields_expect hk).mpr ⟨rfl, hkind⟩

theorem yields_afterLet {c d : Cursor} {s : Stmt} : (afterLet c).Yields s d ↔
    ∃ name eq vs semi v, c = d.before (name :: eq :: (vs ++ [semi])) ∧ name.kind = .identifier ∧
      eq.kind = .assignment ∧ Expression 0 vs v ∧ semi.kind = .semicolon ∧
      .declare name.value v = s := by
  unfold afterLet
  simp only [Reading.yields_bind, Reading.yields_weaken, Reading.yields_map, exists_prop]
  constructor
  · rintro ⟨name, c₁, h₁, eq, c₂, h₂, v, c₃, hv, semi, hsemi, rfl⟩
    obtain ⟨rfl, hname⟩ := (Cursor.yields_expectOr (by decide)).mp h₁
    obtain ⟨rfl, heq⟩ := (Cursor.yields_expectOr (by decide)).mp h₂
    obtain ⟨vs, rfl, hvs, hsemi⟩ := (yields_ended (by decide) rfl).mp ⟨c₃, hv, hsemi⟩
    exact ⟨name, eq, vs, semi, v, by simp, hname, heq, hvs, hsemi, rfl⟩
  · rintro ⟨name, eq, vs, semi, v, rfl, hname, heq, hvs, hsemi, rfl⟩
    obtain ⟨c₃, hv, hsemi⟩ := (yields_ended (by decide) rfl).mpr ⟨vs, rfl, hvs, hsemi⟩
    rw [Cursor.before_cons, Cursor.before_cons, Cursor.before_append]
    exact ⟨name, _, (Cursor.yields_expectOr (by decide)).mpr ⟨rfl, hname⟩, eq, _,
      (Cursor.yields_expectOr (by decide)).mpr ⟨rfl, heq⟩, v, c₃, hv, semi, hsemi, rfl⟩

theorem afterLet_sound {c d : Cursor} {s : Stmt} (h : (afterLet c).Yields s d) :
    ∃ ts, c = d.before ts ∧
      ∀ word : Token, word.kind = .kwLet ∨ word.kind = .kwVar → Statement (word :: ts) s := by
  obtain ⟨name, eq, vs, semi, v, rfl, hname, heq, hvs, hsemi, rfl⟩ := yields_afterLet.mp h
  exact ⟨_, rfl, fun word hword => .declare hword hname heq hvs hsemi⟩

theorem yields_afterReturn {c d : Cursor} {s : Stmt} : (afterReturn c).Yields s d ↔
    (∃ semi, c = d.push semi ∧ semi.kind = .semicolon ∧ .ret none = s) ∨
      ∃ vs semi v, c = d.before (vs ++ [semi]) ∧ Expression 0 vs v ∧ semi.kind = .semicolon ∧
        .ret (some v) = s := by
  unfold afterReturn
  by_cases hc : c.kind = .semicolon
  · rw [if_pos hc, Reading.yields_step]
    constructor
    · rintro ⟨hs, rfl⟩
      exact .inl ⟨c.current, Cursor.eq_push hc (by decide), hc, Except.ok.inj hs⟩
    · rintro (⟨semi, rfl, _, rfl⟩ | ⟨vs, semi, v, rfl, hvs, _⟩)
      · exact ⟨rfl, rfl⟩
      · rw [Cursor.before_append] at hc
        exact absurd hc (kind_before_ne hvs _ rfl)
  · rw [if_neg hc]
    simp only [Reading.yields_bind, Reading.yields_weaken, Reading.yields_map, exists_prop]
    constructor
    · rintro ⟨v, c', hv, semi, hsemi, rfl⟩
      obtain ⟨vs, rfl, hvs, hsemi⟩ := (yields_ended (by decide) rfl).mp ⟨c', hv, hsemi⟩
      exact .inr ⟨vs, semi, v, by simp, hvs, hsemi, rfl⟩
    · rintro (⟨semi, rfl, hsemi, _⟩ | ⟨vs, semi, v, rfl, hvs, hsemi, rfl⟩)
      · exact absurd hsemi hc
      · obtain ⟨c', hv, hsemi⟩ := (yields_ended (by decide) rfl).mpr ⟨vs, rfl, hvs, hsemi⟩
        rw [Cursor.before_append]
        exact ⟨v, c', hv, semi, hsemi, rfl⟩

theorem afterReturn_sound {c d : Cursor} {s : Stmt} (h : (afterReturn c).Yields s d) :
    ∃ ts, c = d.before ts ∧ ∀ word : Token, word.kind = .kwReturn → Statement (word :: ts) s := by
  rcases yields_afterReturn.mp h with ⟨semi, rfl, hsemi, rfl⟩ | ⟨vs, semi, v, rfl, hvs, hsemi, rfl⟩
  · exact ⟨[semi], rfl, fun word hword => .retNone hword hsemi⟩
  · exact ⟨_, rfl, fun word hword => .ret hword hvs hsemi⟩

theorem afterRaw_ended {text : String} {semi : Token} (h : semi.kind = .semicolon) {c d : Cursor}
    {s : Stmt} : (afterRaw text (c.push semi)).Yields s d ↔ .raw text = s ∧ c = d := by
  rw [afterRaw, if_pos (by rw [Cursor.kind_push, h])]
  simp

theorem afterRaw_open {text : String} {c : Cursor} (h : c.kind ≠ .semicolon) {d : Cursor}
    {s : Stmt} : (afterRaw text c).Yields s d ↔ .raw text = s ∧ c = d := by
  rw [afterRaw, if_neg h, Reading.yields_done]

theorem afterRaw_sound {t : Token} {c d : Cursor} {s : Stmt} (h : (afterRaw t.value c).Yields s d)
    (ht : t.kind = .rawCode) : ∃ ts, c = d.before ts ∧ Statement (t :: ts) s := by
  by_cases hc : c.kind = .semicolon
  · rw [Cursor.eq_push hc (by decide)] at h
    obtain ⟨rfl, rfl⟩ := (afterRaw_ended hc).mp h
    exact ⟨[c.current], Cursor.eq_push hc (by decide), .rawEnded ht hc⟩
  · obtain ⟨rfl, rfl⟩ := (afterRaw_open hc).mp h
    exact ⟨[], rfl, .raw ht⟩

/-! ### The header of a function -/

theorem params_closed {c : Cursor} (hc : c.kind = .closeParen) {d : Cursor} {ps : List Param} :
    (params c).Yields ps d ↔ [] = ps ∧ c = d.push c.current := by
  rw [params, if_pos hc, Reading.yields_step, Cursor.advance_eq_iff hc (by decide),
    Except.ok.injEq]

/-- Where no parenthesis closes, a parameter is read, and then what stands between it and
the closing one. -/
theorem params_open {c : Cursor} (hc : c.kind ≠ .closeParen) {d : Cursor} {ps : List Param} :
    (params c).Yields ps d ↔
      ∃ ts p rest c', c = Cursor.before c' ts ∧ Parameter ts p ∧ p :: rest = ps ∧
        ((c'.kind = .closeParen ∧ (params c').Yields rest d) ∨
          ∃ comma c'', c' = Cursor.push c'' comma ∧ comma.kind = .comma ∧
            (params c'').Yields rest d) := by
  rw [params, if_neg hc]
  simp only [Reading.yields_weaken, Reading.yields_bind, exists_prop]
  constructor
  · rintro ⟨name, c₁, h₁, colon, c₂, h₂, type, c', htype, h⟩
    obtain ⟨rfl, hname⟩ := (Cursor.yields_require (by decide)).mp h₁
    obtain ⟨rfl, hcolon⟩ := (Cursor.yields_expect (by decide)).mp h₂
    obtain ⟨ts, rfl, hts⟩ := yields_typeName.mp htype
    have hparam := Parameter.intro hname hcolon hts
    split at h
    · rename_i hclose
      obtain ⟨rest, hrest, rfl⟩ := Reading.yields_map.mp h
      exact ⟨_, _, rest, c', rfl, hparam, rfl, .inl ⟨hclose, hrest⟩⟩
    · simp only [Reading.yields_bind, Reading.yields_map, exists_prop] at h
      obtain ⟨comma, c'', hcomma, rest, hrest, rfl⟩ := h
      obtain ⟨rfl, hkind⟩ := (Cursor.yields_expect (by decide)).mp hcomma
      exact ⟨_, _, rest, _, rfl, hparam, rfl, .inr ⟨comma, c'', rfl, hkind, hrest⟩⟩
  · rintro ⟨_, _, rest, c', rfl, @⟨name, colon, ts, type, hname, hcolon, hts⟩, rfl, h⟩
    refine ⟨name, _, (Cursor.yields_require (by decide)).mpr ⟨rfl, hname⟩, colon, _,
      (Cursor.yields_expect (by decide)).mpr ⟨rfl, hcolon⟩, type, c',
      yields_typeName.mpr ⟨ts, rfl, hts⟩, ?_⟩
    rcases h with ⟨hclose, hrest⟩ | ⟨comma, c'', rfl, hkind, hrest⟩
    · rw [if_pos hclose]
      exact Reading.yields_map.mpr ⟨rest, hrest, rfl⟩
    · rw [if_neg (by rw [Cursor.kind_push, hkind]; decide)]
      simp only [Reading.yields_bind, Reading.yields_map, exists_prop]
      exact ⟨comma, c'', (Cursor.yields_expect (by decide)).mpr ⟨rfl, hkind⟩, rest, hrest, rfl⟩

theorem kind_before_parameter {ts : List Token} {p : Param} (h : Parameter ts p) (d : Cursor) :
    (d.before ts).kind ≠ .closeParen := by
  obtain ⟨hname, _, _⟩ := h
  rw [Cursor.before_cons, Cursor.kind_push, hname]
  decide

theorem params_sound (c : Cursor) {ps : List Param} {d : Cursor} (h : (params c).Yields ps d) :
    ∃ ts closing, c = d.before (ts ++ [closing]) ∧ closing.kind = .closeParen ∧
      Parameters ts ps := by
  by_cases hclose : c.kind = .closeParen
  · obtain ⟨rfl, hc⟩ := (params_closed hclose).mp h
    exact ⟨[], c.current, hc, hclose, .nil⟩
  obtain ⟨ts, p, rest, c', hc, hp, rfl, hrest⟩ := (params_open hclose).mp h
  rcases hrest with ⟨hlast, hrest⟩ | ⟨comma, c'', hc', hcomma, hrest⟩
  · obtain ⟨rfl, hc'⟩ := (params_closed hlast).mp hrest
    refine ⟨ts, c'.current, ?_, hlast, .last hp⟩
    rw [hc, Cursor.before_append]
    exact congrArg (Cursor.before · ts) hc'
  · have hsize : c''.size < c.size := by
      rw [hc, hc']
      exact Nat.lt_of_lt_of_le (c''.size_lt_push comma) (Cursor.size_le_before _ ts)
    obtain ⟨us, closing, hc'', hkind, hus⟩ := params_sound c'' hrest
    subst hc'' hc' hc
    exact ⟨ts ++ comma :: us, closing, by simp, hkind, .cons hp hcomma hus⟩
termination_by c.size

theorem params_before {ts : List Token} {ps : List Param} (h : Parameters ts ps) {closing : Token}
    (hc : closing.kind = .closeParen) (d : Cursor) :
    (params ((d.push closing).before ts)).Yields ps d := by
  induction h with
  | nil => exact (params_closed (c := d.push closing) hc).mpr ⟨rfl, rfl⟩
  | last hp =>
    refine (params_open (kind_before_parameter hp _)).mpr ⟨_, _, [], _, rfl, hp, rfl, .inl ⟨hc, ?_⟩⟩
    exact (params_closed (c := d.push closing) hc).mpr ⟨rfl, rfl⟩
  | cons hp hcomma _ ih =>
    rw [Cursor.before_append, Cursor.before_cons]
    exact (params_open (kind_before_parameter hp _)).mpr
      ⟨_, _, _, _, rfl, hp, rfl, .inr ⟨_, _, rfl, hcomma, ih⟩⟩

theorem resultType_sound {c d : Cursor} {type : Ty} (h : (resultType c).Yields type d) :
    ∃ ts, c = d.before ts ∧ Result ts type := by
  unfold resultType at h
  split at h
  · rename_i hc
    obtain ⟨ts, hadvance, hts⟩ := yields_typeName.mp (Reading.yields_afterCurrent.mp h)
    exact ⟨c.current :: ts, (Cursor.advance_eq_iff hc (by decide)).mp hadvance, .arrow hc hts⟩
  · obtain ⟨rfl, rfl⟩ := Reading.yields_done.mp h
    exact ⟨[], rfl, .none⟩

theorem resultType_before {ts : List Token} {type : Ty} (h : Result ts type) {d : Cursor}
    (hd : d.kind ≠ .arrow) : (resultType (d.before ts)).Yields type d := by
  cases h with
  | none =>
    rw [Cursor.before_nil, resultType, if_neg hd, Reading.yields_done]
    exact ⟨rfl, rfl⟩
  | arrow ht hts =>
    rw [Cursor.before_cons, resultType, if_pos (by rw [Cursor.kind_push, ht])]
    exact yields_typeName.mpr ⟨_, rfl, hts⟩

theorem header_sound {c d : Cursor} {f : String} {signature : Signature}
    (h : (header c).Yields (f, signature) d) : ∃ ts, c = d.before ts ∧ Header ts f signature := by
  unfold header at h
  simp only [Reading.yields_bind, Reading.yields_map, exists_prop, Prod.mk.injEq] at h
  obtain ⟨name, c₁, h₁, opening, c₂, h₂, ps, c₃, hps, result, hresult, rfl, rfl⟩ := h
  obtain ⟨rfl, hname⟩ := (Cursor.yields_expectOr (by decide)).mp h₁
  obtain ⟨rfl, hopen⟩ := (Cursor.yields_expect (by decide)).mp h₂
  obtain ⟨rs, rfl, hrs⟩ := resultType_sound hresult
  obtain ⟨us, closing, rfl, hclose, hus⟩ := params_sound _ hps
  exact ⟨name :: opening :: (us ++ closing :: rs), by simp, .intro hname hopen hus hclose hrs⟩

theorem header_before {ts : List Token} {f : String} {signature : Signature}
    (h : Header ts f signature) {d : Cursor} (hd : d.kind ≠ .arrow) :
    (header (d.before ts)).Yields (f, signature) d := by
  obtain ⟨hname, hopen, hps, hclose, hrs⟩ := h
  unfold header
  simp only [Reading.yields_bind, Reading.yields_map, exists_prop]
  rw [Cursor.before_cons, Cursor.before_cons, Cursor.before_append, Cursor.before_cons]
  exact ⟨_, _, (Cursor.yields_expectOr (by decide)).mpr ⟨rfl, hname⟩, _, _,
    (Cursor.yields_expect (by decide)).mpr ⟨rfl, hopen⟩, _, _, params_before hps hclose _, _,
    resultType_before hrs hd, rfl⟩

/-! ### What one step yields -/

/-- The first token decides which statement is read. -/
theorem yields_stmt {t : Token} {c d : Cursor} {s : Stmt} : (stmt (c.push t)).Yields s d ↔
    match t.kind with
    | .kwLet | .kwVar => (afterLet c).Yields s d
    | .kwIf => (afterIf c).Yields s d
    | .kwFor => (afterFor c).Yields s d
    | .kwFn => (afterFn c).Yields s d
    | .kwReturn => (afterReturn c).Yields s d
    | .rawCode => (afterRaw t.value c).Yields s d
    | _ => (effect (c.push t)).Yields s d := by
  show (stmt ⟨t :: c.ahead, c.final⟩).Yields s d ↔ _
  rw [stmt]
  cases t.kind <;> rfl

theorem stmts_closed {c : Cursor} (hc : c.kind = .closeCurly) {d : Cursor} {ss : List Stmt} :
    (stmts c).Yields ss d ↔ [] = ss ∧ c = d.push c.current := by
  rw [stmts, if_pos (.inl hc)]
  simp only [Reading.yields_map]
  constructor
  · rintro ⟨t, ht, rfl⟩
    obtain ⟨rfl, _⟩ := (Cursor.yields_expect (by decide)).mp ht
    exact ⟨rfl, rfl⟩
  · rintro ⟨rfl, hpush⟩
    exact ⟨c.current, (Cursor.yields_expect (by decide)).mpr ⟨hpush, hc⟩, rfl⟩

theorem stmts_eof {c : Cursor} (hc : c.kind = .eof) {d : Cursor} {ss : List Stmt} :
    ¬ (stmts c).Yields ss d := by
  rw [stmts, if_pos (.inr hc)]
  simp only [Reading.yields_map]
  rintro ⟨u, hu, _⟩
  obtain ⟨rfl, hkind⟩ := (Cursor.yields_expect (by decide)).mp hu
  rw [Cursor.kind_push, hkind] at hc
  cases hc

theorem stmts_open {c : Cursor} (hclose : c.kind ≠ .closeCurly) (heof : c.kind ≠ .eof) {d : Cursor}
    {ss : List Stmt} : (stmts c).Yields ss d ↔
      ∃ s c', (stmt c).Yields s c' ∧ ∃ rest, (stmts c').Yields rest d ∧ s :: rest = ss := by
  rw [stmts, if_neg (not_or.mpr ⟨hclose, heof⟩)]
  simp only [Reading.yields_weaken, Reading.yields_bind, Reading.yields_map, exists_prop]

theorem yields_block {c d : Cursor} {body : List Stmt} : (block c).Yields body d ↔
    ∃ t c', c = Cursor.push c' t ∧ t.kind = .openCurly ∧ (stmts c').Yields body d := by
  rw [block]
  simp only [Reading.yields_bind, exists_prop, Cursor.yields_expect (k := .openCurly) (by decide),
    and_assoc]

theorem yields_afterIf {c d : Cursor} {s : Stmt} : (afterIf c).Yields s d ↔
    ∃ condition c₁, (expr .lowest c).Yields condition c₁ ∧
      ∃ body c₂, (block c₁).Yields body c₂ ∧
        ∃ rest, (otherwise c₂).Yields rest d ∧ .conditional condition body rest = s := by
  rw [afterIf]
  simp only [Reading.yields_bind, Reading.yields_map, exists_prop]

theorem otherwise_else {t : Token} (ht : t.kind = .kwElse) {c d : Cursor}
    {rest : Option (List Stmt)} : (otherwise (c.push t)).Yields rest d ↔
      ∃ body, (afterElse c).Yields body d ∧ some body = rest := by
  show (otherwise ⟨t :: c.ahead, c.final⟩).Yields rest d ↔ _
  rw [otherwise, if_pos ht]
  simp only [Reading.yields_weaken, Reading.yields_afterFirst, Reading.yields_map]

theorem otherwise_none {c : Cursor} (hc : c.kind ≠ .kwElse) {d : Cursor}
    {rest : Option (List Stmt)} : (otherwise c).Yields rest d ↔ none = rest ∧ c = d := by
  obtain ⟨ahead, final⟩ := c
  cases ahead with
  | nil => rw [otherwise, Reading.yields_done]
  | cons t us => rw [otherwise, if_neg (show t.kind ≠ .kwElse from hc), Reading.yields_done]

theorem afterElse_if {t : Token} (ht : t.kind = .kwIf) {c d : Cursor} {body : List Stmt} :
    (afterElse (c.push t)).Yields body d ↔ ∃ s, (afterIf c).Yields s d ∧ [s] = body := by
  show (afterElse ⟨t :: c.ahead, c.final⟩).Yields body d ↔ _
  rw [afterElse, if_pos ht]
  simp only [Reading.yields_weaken, Reading.yields_afterFirst, Reading.yields_map]

theorem afterElse_block {c : Cursor} (hc : c.kind ≠ .kwIf) {d : Cursor} {body : List Stmt} :
    (afterElse c).Yields body d ↔ (block c).Yields body d := by
  obtain ⟨ahead, final⟩ := c
  cases ahead with
  | nil => rw [afterElse]
  | cons t us => rw [afterElse, if_neg (show t.kind ≠ .kwIf from hc)]

theorem yields_afterFor {c d : Cursor} {s : Stmt} : (afterFor c).Yields s d ↔
    ∃ opening c₁, (c.expect .openParen).Yields opening c₁ ∧
    ∃ initial c₂, (stmt c₁).Yields initial c₂ ∧
    ∃ condition c₃, (expr .lowest c₂).Yields condition c₃ ∧
    ∃ semi c₄, (c₃.expect .semicolon).Yields semi c₄ ∧
    ∃ step c₅, (expr .lowest c₄).Yields step c₅ ∧
    ∃ closing c₆, (c₅.expect .closeParen).Yields closing c₆ ∧
    ∃ body, (block c₆).Yields body d ∧ .loop initial condition step body = s := by
  rw [afterFor]
  simp only [Reading.yields_bind, Reading.yields_weaken, Reading.yields_map, exists_prop]

theorem yields_afterFn {c d : Cursor} {s : Stmt} : (afterFn c).Yields s d ↔
    ∃ f signature c', (header c).Yields (f, signature) c' ∧
      ((∃ semi, c' = d.push semi ∧ semi.kind = .semicolon ∧ .prototype f signature = s) ∨
        ∃ body, (block c').Yields body d ∧ .function f signature body = s) := by
  rw [afterFn]
  simp only [Reading.yields_bind, exists_prop, Prod.exists]
  constructor
  · rintro ⟨f, signature, c', hheader, h⟩
    refine ⟨f, signature, c', hheader, ?_⟩
    split at h
    · rename_i hsemi
      obtain ⟨hs, rfl⟩ := Reading.yields_step.mp h
      exact .inl ⟨c'.current, Cursor.eq_push hsemi (by decide), hsemi, Except.ok.inj hs⟩
    · exact .inr (Reading.yields_map.mp h)
  · rintro ⟨f, signature, c', hheader, ⟨semi, rfl, hsemi, rfl⟩ | ⟨body, hbody, rfl⟩⟩
    · refine ⟨f, signature, _, hheader, ?_⟩
      rw [if_pos (by rw [Cursor.kind_push, hsemi])]
      exact Reading.yields_step.mpr ⟨rfl, rfl⟩
    · refine ⟨f, signature, c', hheader, ?_⟩
      obtain ⟨t, c'', rfl, ht, _⟩ := yields_block.mp hbody
      rw [if_neg (by rw [Cursor.kind_push, ht]; decide)]
      exact Reading.yields_map.mpr ⟨body, hbody, rfl⟩

end Parse
end LittleC
