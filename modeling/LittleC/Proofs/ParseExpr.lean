import LittleC.Proofs.Grammar
import LittleC.Proofs.Reading

/-! Expressions are read as the grammar spells them. The floor of a reading is the level of
what it reads: the operators of level `k` hold on to their left with power `k + 1`, so a
reading with floor `k` goes on through the chains of level `k` and tighter, and stops in
front of everything looser.

`yields_expression`: a reading from the lowest floor yields the expressions of the
grammar, and nothing else, where nothing continues them. -/
namespace LittleC

/-- How tightly the current token holds on to an expression on its left. -/
def Cursor.pull (c : Cursor) : Nat :=
  match c.kind.continuation? with
  | none => 0
  | some k => k.power.rank

theorem Cursor.pull_le (c : Cursor) : c.pull ≤ 5 := by
  unfold pull
  split
  · exact Nat.zero_le 5
  · rename_i k _
    cases k with
    | assignment => decide
    | call => decide
    | binary op => cases op <;> decide

theorem Cursor.pull_push (c : Cursor) {t : Token} {k : Continuation}
    (h : t.kind.continuation? = some k) : (c.push t).pull = k.power.rank := by
  simp [pull, h]

theorem Cursor.pull_push_of_none (c : Cursor) {t : Token} (h : t.kind.continuation? = none) :
    (c.push t).pull = 0 := by
  simp [pull, h]

namespace Parse
open Grammar

theorem continuation?_eq_assignment {kind : TokenKind} :
    kind.continuation? = some .assignment ↔ kind = .assignment := by
  cases kind <;> simp [TokenKind.continuation?, TokenKind.operator?]

theorem continuation?_eq_call {kind : TokenKind} :
    kind.continuation? = some .call ↔ kind = .openParen := by
  cases kind <;> simp [TokenKind.continuation?, TokenKind.operator?]

/-- The operators of a level are the binary continuations of one power. -/
theorem operator_iff {k : Nat} {kind : TokenKind} {op : BinaryOp} :
    Operator k kind op ↔
      kind.continuation? = some (.binary op) ∧ (Continuation.binary op).power.rank = k + 1 := by
  constructor
  · intro h
    simp only [Operator, operators, List.mem_cons, Prod.mk.injEq, List.not_mem_nil, or_false] at h
    rcases h with ⟨rfl, rfl, rfl⟩ | ⟨rfl, rfl, rfl⟩ | ⟨rfl, rfl, rfl⟩ | ⟨rfl, rfl, rfl⟩ |
      ⟨rfl, rfl, rfl⟩ | ⟨rfl, rfl, rfl⟩ | ⟨rfl, rfl, rfl⟩ <;> exact ⟨rfl, rfl⟩
  · rintro ⟨hkind, hrank⟩
    cases kind <;> simp only [TokenKind.continuation?, TokenKind.operator?, Option.map_some,
      Option.map_none, reduceCtorEq, Option.some.injEq, Continuation.binary.injEq] at hkind
    all_goals
      subst hkind
      simp only [Continuation.power, Power.rank, Nat.reduceEqDiff] at hrank
      subst hrank
      decide

theorem operator_pos {k : Nat} {kind : TokenKind} {op : BinaryOp} (h : Operator k kind op) :
    0 < k := by
  have := (operator_iff.mp h).2
  cases op <;> simp [Continuation.power, Power.rank] at this <;> omega

theorem operator_power_le (op : BinaryOp) : (Continuation.binary op).power.rank ≤ 5 := by
  cases op <;> decide

theorem exists_operator {kind : TokenKind} {op : BinaryOp}
    (h : kind.continuation? = some (.binary op)) : ∃ k, Operator k kind op := by
  refine ⟨(Continuation.binary op).power.rank - 1, operator_iff.mpr ⟨h, ?_⟩⟩
  cases op <;> rfl

/-! ### What one step yields -/

/-- The token and what is read after it make this of the expression on its left. -/
inductive Extends (left : Expr) (t : Token) (c : Cursor) : Expr → Cursor → Prop where
  | binary {k : Nat} {op : BinaryOp} {right : Expr} {d : Cursor} : Operator k t.kind op →
      (expr (Continuation.binary op).power c).Yields right d →
      Extends left t c (.binary op left right) d
  | assign {x : String} {v : Expr} {d : Cursor} : left = .symbol x → t.kind = .assignment →
      (expr .lowest c).Yields v d → Extends left t c (.assign x v) d
  | call {f : String} {args : List Expr} {d : Cursor} : left = .symbol f → t.kind = .openParen →
      (arguments c).Yields args d → Extends left t c (.call f args) d

theorem Extends.size_le {left e : Expr} {t : Token} {c d : Cursor} (h : Extends left t c e d) :
    d.size ≤ c.size := by
  cases h with
  | binary _ h | assign _ _ h => exact Nat.le_of_succ_le h.size_le
  | call _ _ h => exact h.size_le

/-- Nothing is read where the token binds no tighter than the floor. -/
theorem chain_stop {floor : Power} {left : Expr} {c : Cursor} (h : c.pull ≤ floor.rank)
    {e : Expr} {d : Cursor} : (chain floor left c).Yields e d ↔ left = e ∧ c = d := by
  obtain ⟨ahead, final⟩ := c
  cases ahead with
  | nil => rw [chain, Reading.yields_done]
  | cons t rest =>
    rw [chain]
    split
    · rw [Reading.yields_done]
    · rename_i k hk
      have hrank : k.power.rank ≤ floor.rank := by
        rw [← Cursor.pull_push ⟨rest, final⟩ hk]
        exact h
      rw [if_pos hrank, Reading.yields_done]

theorem chain_rest {floor : Power} {left : Expr} {c : Cursor} (h : c.pull ≤ floor.rank) :
    (chain floor left c).Yields left c :=
  (chain_stop h).mpr ⟨rfl, rfl⟩

/-- Elsewhere the token extends the expression, and the chain goes on from there. -/
theorem chain_continue {floor : Power} {left : Expr} {c : Cursor} (h : floor.rank < c.pull)
    {e : Expr} {d : Cursor} : (chain floor left c).Yields e d ↔
      ∃ t c' e' d', c = Cursor.push c' t ∧ Extends left t c' e' d' ∧
        (chain floor e' d').Yields e d := by
  obtain ⟨ahead, final⟩ := c
  cases ahead with
  | nil => exact absurd h (Nat.not_lt_zero _)
  | cons t rest =>
    rw [chain]
    split
    · rename_i hk
      have hnone := Cursor.pull_push_of_none ⟨rest, final⟩ hk
      exact absurd (hnone ▸ h) (Nat.not_lt_zero _)
    · rename_i k hk
      have hrank : ¬ k.power.rank ≤ floor.rank := by
        rw [← Cursor.pull_push ⟨rest, final⟩ hk]
        exact Nat.not_le_of_lt h
      rw [if_neg hrank]
      simp only [Reading.yields_weaken, Reading.yields_bind, exists_prop]
      constructor
      · rintro ⟨e', d', hext, hrest⟩
        refine ⟨t, ⟨rest, final⟩, e', d', rfl, ?_, hrest⟩
        split at hext
        · rename_i op
          simp only [Reading.yields_afterFirst, Reading.yields_map] at hext
          obtain ⟨right, hright, rfl⟩ := hext
          obtain ⟨k, hop⟩ := exists_operator hk
          exact .binary hop hright
        · simp only [Reading.yields_afterFirst, Reading.yields_map] at hext
          obtain ⟨v, hv, rfl⟩ := hext
          exact .assign rfl (continuation?_eq_assignment.mp hk) hv
        · exact absurd hext Reading.yields_fail
        · simp only [Reading.yields_afterFirst, Reading.yields_map] at hext
          obtain ⟨args, hargs, rfl⟩ := hext
          exact .call rfl (continuation?_eq_call.mp hk) hargs
        · exact absurd hext Reading.yields_fail
      · rintro ⟨t', c', e', d', hc, hext, hrest⟩
        cases hc
        refine ⟨e', d', ?_, hrest⟩
        cases hext with
        | binary hop hright =>
          obtain rfl := Option.some.inj (hk.symm.trans (operator_iff.mp hop).1)
          simpa using hright
        | assign hleft ht hv =>
          obtain rfl := Option.some.inj (hk.symm.trans (continuation?_eq_assignment.mpr ht))
          subst hleft
          simpa using hv
        | call hleft ht hargs =>
          obtain rfl := Option.some.inj (hk.symm.trans (continuation?_eq_call.mpr ht))
          subst hleft
          simpa using hargs

theorem ofToken_eq_ok {t : Token} {text : String} {e : Expr} :
    Literal.ofToken t text = .ok e ↔ Literal.ofText? text = some e := by
  unfold Literal.ofToken
  cases Literal.ofText? text <;> simp

theorem yields_afterMinus {c d : Cursor} {e : Expr} : (afterMinus c).Yields e d ↔
    ∃ t, c = d.push t ∧ t.kind = .number ∧ Literal.ofText? ("-" ++ t.value) = some e := by
  unfold afterMinus
  constructor
  · intro h
    split at h
    · rename_i hc
      obtain ⟨hlit, rfl⟩ := Reading.yields_step.mp h
      exact ⟨c.current, Cursor.eq_push hc (by decide), hc, ofToken_eq_ok.mp hlit⟩
    · exact absurd h Reading.yields_fail
  · rintro ⟨t, rfl, ht, hlit⟩
    rw [if_pos (by rw [Cursor.kind_push, ht])]
    exact Reading.yields_step.mpr ⟨ofToken_eq_ok.mpr hlit, rfl⟩

theorem yields_afterOpenParen {c d : Cursor} {e : Expr} : (afterOpenParen c).Yields e d ↔
    ∃ t, (expr .lowest c).Yields e (d.push t) ∧ t.kind = .closeParen := by
  rw [afterOpenParen]
  simp only [Reading.yields_bind, Reading.yields_map, exists_prop]
  constructor
  · rintro ⟨e, d', he, t, ht, rfl⟩
    obtain ⟨rfl, hkind⟩ := (Cursor.yields_expect (by decide)).mp ht
    exact ⟨t, he, hkind⟩
  · rintro ⟨t, he, hkind⟩
    exact ⟨e, d.push t, he, t, (Cursor.yields_expect (by decide)).mpr ⟨rfl, hkind⟩, rfl⟩

/-- A token that is an expression by itself spells it. -/
theorem primary_of_primaryOf {t : Token} {e : Expr} (h : primaryOf t = .ok e) : Primary [t] e := by
  unfold primaryOf at h
  split at h
  · rename_i ht
    exact .number ht (ofToken_eq_ok.mp h)
  all_goals rename_i ht
  all_goals cases h
  · exact .name ht
  · exact .string ht
  · exact .isTrue ht
  · exact .isFalse ht
  · exact .raw ht

/-- What an operand begins with says how it goes on. -/
theorem yields_operand {t : Token} {c d : Cursor} {e : Expr} :
    (operand (c.push t)).Yields e d ↔
      (t.kind = .dash ∧ (afterMinus c).Yields e d) ∨
      (t.kind = .openParen ∧ (afterOpenParen c).Yields e d) ∨
      (primaryOf t = .ok e ∧ c = d) := by
  show (operand ⟨t :: c.ahead, c.final⟩).Yields e d ↔ _
  rw [operand]
  by_cases hdash : t.kind = .dash
  · rw [if_pos hdash, Reading.yields_afterFirst]
    simp [hdash, primaryOf]
  rw [if_neg hdash]
  by_cases hopen : t.kind = .openParen
  · rw [if_pos hopen, Reading.yields_afterFirst]
    simp [hopen, primaryOf]
  rw [if_neg hopen]
  by_cases hstarts : t.kind.startsExpr
  · rw [if_pos hstarts, primary]
    cases hp : primaryOf t <;> simp [hdash, hopen]
  · rw [if_neg hstarts]
    have herr : ∀ e, primaryOf t ≠ .ok e := by
      intro e he
      obtain ⟨u, us, heq, hu⟩ := (primary_of_primaryOf he).head
      exact hstarts ((List.cons.inj heq).1 ▸ hu)
    simp [hdash, hopen, herr]

theorem operand_nil {c : Cursor} (h : c.ahead = []) {e : Expr} {d : Cursor} :
    ¬ (operand c).Yields e d := by
  obtain ⟨ahead, final⟩ := c
  obtain rfl : ahead = [] := h
  rw [operand]
  exact Reading.yields_fail

theorem arguments_closed {c : Cursor} (hc : c.kind = .closeParen) {d : Cursor}
    {args : List Expr} : (arguments c).Yields args d ↔ [] = args ∧ c = d.push c.current := by
  rw [arguments, if_pos hc, Reading.yields_step, Cursor.advance_eq_iff hc (by decide),
    Except.ok.injEq]

/-- Where no parenthesis closes, an argument is read, and then what stands between it and
the closing one. -/
theorem arguments_open {c : Cursor} (hc : c.kind ≠ .closeParen) {d : Cursor} {args : List Expr} :
    (arguments c).Yields args d ↔
      ∃ e rest c', (expr .lowest c).Yields e c' ∧ e :: rest = args ∧
        ((c'.kind = .closeParen ∧ (arguments c').Yields rest d) ∨
          ∃ comma c'', c' = Cursor.push c'' comma ∧ comma.kind = .comma ∧
            (arguments c'').Yields rest d) := by
  rw [arguments, if_neg hc]
  simp only [Reading.yields_weaken, Reading.yields_bind, exists_prop]
  constructor
  · rintro ⟨e, c', he, h⟩
    split at h
    · rename_i hclose
      obtain ⟨rest, hrest, rfl⟩ := Reading.yields_map.mp h
      exact ⟨e, rest, c', he, rfl, .inl ⟨hclose, hrest⟩⟩
    · simp only [Reading.yields_bind, Reading.yields_map, exists_prop] at h
      obtain ⟨comma, c'', hcomma, rest, hrest, rfl⟩ := h
      obtain ⟨rfl, hkind⟩ := (Cursor.yields_expect (by decide)).mp hcomma
      exact ⟨e, rest, _, he, rfl, .inr ⟨comma, c'', rfl, hkind, hrest⟩⟩
  · rintro ⟨e, rest, c', he, rfl, ⟨hclose, hrest⟩ | ⟨comma, c'', rfl, hkind, hrest⟩⟩
    · refine ⟨e, c', he, ?_⟩
      rw [if_pos hclose]
      exact Reading.yields_map.mpr ⟨rest, hrest, rfl⟩
    · refine ⟨e, _, he, ?_⟩
      rw [if_neg (by rw [Cursor.kind_push, hkind]; decide)]
      simp only [Reading.yields_bind, Reading.yields_map, exists_prop]
      exact ⟨comma, c'', (Cursor.yields_expect (by decide)).mpr ⟨rfl, hkind⟩, rest, hrest, rfl⟩

theorem yields_expr {floor : Power} {c d : Cursor} {e : Expr} : (expr floor c).Yields e d ↔
    ∃ left c', (operand c).Yields left c' ∧ (chain floor left c').Yields e d := by
  rw [expr]
  simp only [Reading.yields_bind, exists_prop]

/-! ### What is read is spelled by the grammar -/

-- The cursors are substituted only after the recursive calls, so that the calls are seen
-- to begin closer to the end of file.
mutual
theorem expr_sound (floor : Power) (hf : floor.rank ≤ 5) (c : Cursor) {e : Expr} {d : Cursor}
    (h : (expr floor c).Yields e d) :
    ∃ ts, c = d.before ts ∧ Expression floor.rank ts e ∧ d.pull ≤ floor.rank := by
  obtain ⟨left, c', hleft, hchain⟩ := yields_expr.mp h
  have hsize : c'.size < c.size := hleft.size_le
  obtain ⟨as, hc, has⟩ := operand_sound c hleft
  obtain ⟨ts, hc', hts, hpull⟩ := chain_sound floor left c' hchain (.primary has) hf
    (Nat.le_succ_of_le c'.pull_le)
  subst hc' hc
  exact ⟨as ++ ts, (Cursor.before_append ..).symm, hts, hpull⟩
termination_by (c.size, 1)
decreasing_by
  · exact Prod.Lex.right _ (by decide)
  · exact Prod.Lex.left _ _ hsize

theorem operand_sound (c : Cursor) {e : Expr} {d : Cursor} (h : (operand c).Yields e d) :
    ∃ ts, c = d.before ts ∧ Primary ts e := by
  rcases c.cases_push with hnil | ⟨t, c', hc⟩
  · exact absurd h (operand_nil hnil)
  have hsize : c'.size < c.size := hc ▸ c'.size_lt_push t
  rcases yields_operand.mp (hc ▸ h) with ⟨ht, h⟩ | ⟨ht, h⟩ | ⟨hp, rfl⟩
  · obtain ⟨u, rfl, hu, hlit⟩ := yields_afterMinus.mp h
    exact ⟨[t, u], hc, .negative ht hu hlit⟩
  · obtain ⟨closing, he, hclose⟩ := yields_afterOpenParen.mp h
    obtain ⟨ts, hc', hts, _⟩ := expr_sound .lowest (by decide) c' he
    subst hc' hc
    exact ⟨t :: (ts ++ [closing]), by simp, .group ht hts hclose⟩
  · exact ⟨[t], hc, primary_of_primaryOf hp⟩
termination_by (c.size, 0)
decreasing_by exact Prod.Lex.left _ _ hsize

/-- A chain goes on from an expression of some level, where nothing binds tighter than
what continues that level. -/
theorem chain_sound (floor : Power) (left : Expr) (c : Cursor) {e : Expr} {d : Cursor}
    (h : (chain floor left c).Yields e d) {n : Nat} {as : List Token} (has : Expression n as left)
    (hn : floor.rank ≤ n) (hpull : c.pull ≤ n + 1) :
    ∃ ts, c = d.before ts ∧ Expression floor.rank (as ++ ts) e ∧ d.pull ≤ floor.rank := by
  by_cases hstop : c.pull ≤ floor.rank
  · obtain ⟨rfl, rfl⟩ := (chain_stop hstop).mp h
    exact ⟨[], rfl, by simpa using has.loosen hn, hstop⟩
  have hgo : floor.rank < c.pull := Nat.lt_of_not_le hstop
  obtain ⟨t, c', e', d', hc, hext, hrest⟩ := (chain_continue hgo).mp h
  have hsize : c'.size < c.size := hc ▸ c'.size_lt_push t
  have hsize' : d'.size < c.size := Nat.lt_of_le_of_lt hext.size_le hsize
  cases hext with
  | @binary k op right _ hop hright =>
    obtain ⟨hcont, hrank⟩ := operator_iff.mp hop
    rw [hc, Cursor.pull_push c' hcont] at hpull hgo
    have hk : k ≤ n := by omega
    obtain ⟨rs, hc', hrs, hd'⟩ := expr_sound _ (operator_power_le op) c' hright
    rw [hrank] at hrs hd'
    obtain ⟨ts, hd', hts, hd⟩ := chain_sound floor _ d' hrest (.binary hop (has.loosen hk) hrs)
      (by omega) hd'
    subst hd' hc' hc
    exact ⟨t :: (rs ++ ts), by simp, by simpa using hts, hd⟩
  | @assign x v _ hleft ht hv =>
    rw [hc, Cursor.pull_push c' (continuation?_eq_assignment.mpr ht)] at hgo
    obtain ⟨vs, hc', hvs, hd'⟩ := expr_sound .lowest (by decide) c' hv
    obtain ⟨ts, hd', hts, hd⟩ := chain_sound floor _ d' hrest
      (.assign (hleft ▸ has).primary_of_symbol ht hvs) (Nat.le_of_lt_succ hgo)
      (Nat.le_succ_of_le hd')
    subst hd' hc' hc
    exact ⟨t :: (vs ++ ts), by simp, by simpa using hts, hd⟩
  | @call f args _ hleft ht hargs =>
    rw [hc, Cursor.pull_push c' (continuation?_eq_call.mpr ht)] at hgo
    obtain ⟨us, closing, hc', hclose, hus⟩ := arguments_sound c' hargs
    obtain ⟨ts, hd', hts, hd⟩ := chain_sound floor _ d' hrest
      (.call (hleft ▸ has).primary_of_symbol ht hus hclose) (Nat.le_of_lt_succ hgo) d'.pull_le
    subst hd' hc' hc
    exact ⟨t :: (us ++ closing :: ts), by simp, by simpa using hts, hd⟩
termination_by (c.size, 0)
decreasing_by
  all_goals exact Prod.Lex.left _ _ (by assumption)

theorem arguments_sound (c : Cursor) {args : List Expr} {d : Cursor}
    (h : (arguments c).Yields args d) :
    ∃ ts closing, c = d.before (ts ++ [closing]) ∧ closing.kind = .closeParen ∧
      Arguments ts args := by
  by_cases hclose : c.kind = .closeParen
  · obtain ⟨rfl, hc⟩ := (arguments_closed hclose).mp h
    exact ⟨[], c.current, hc, hclose, .nil⟩
  obtain ⟨e, rest, c', he, rfl, hrest⟩ := (arguments_open hclose).mp h
  have hsize : c'.size < c.size := he.size_le
  obtain ⟨ts, hc, hts, _⟩ := expr_sound .lowest (by decide) c he
  rcases hrest with ⟨hlast, hrest⟩ | ⟨comma, c'', hc', hcomma, hrest⟩
  · obtain ⟨rfl, hc'⟩ := (arguments_closed hlast).mp hrest
    refine ⟨ts, c'.current, ?_, hlast, .last hts⟩
    rw [hc, Cursor.before_append]
    exact congrArg (Cursor.before · ts) hc'
  · have hsize' : c''.size < c.size := Nat.lt_trans (hc' ▸ c''.size_lt_push comma) hsize
    obtain ⟨us, closing, hc'', hkind, hus⟩ := arguments_sound c'' hrest
    subst hc'' hc' hc
    exact ⟨ts ++ comma :: us, closing, by simp, hkind, .cons hts hcomma hus⟩
termination_by (c.size, 2)
decreasing_by
  · exact Prod.Lex.right _ (by decide)
  · exact Prod.Lex.left _ _ hsize'
end

/-! ### What the grammar spells is read -/

/-- In front of an expression stands a token that an expression can begin with. -/
theorem kind_before_ne {n : Nat} {ts : List Token} {e : Expr} (h : Expression n ts e) (d : Cursor)
    {k : TokenKind} (hk : k.startsExpr = false) : (d.before ts).kind ≠ k := by
  obtain ⟨t, us, rfl, ht⟩ := h.head
  intro hkind
  rw [Cursor.before_cons, Cursor.kind_push] at hkind
  rw [hkind, hk] at ht
  cases ht

mutual
/-- Reading from in front of an expression comes to the chain behind it. -/
theorem expr_before {n : Nat} {ts : List Token} {e : Expr} : Expression n ts e →
    (floor : Power) → floor.rank ≤ n → {d : Cursor} → d.pull ≤ n + 1 → (n = 0 → d.pull = 0) →
    {e' : Expr} → {d' : Cursor} → (chain floor e d).Yields e' d' →
    (expr floor (d.before ts)).Yields e' d'
  | @Expression.assign ss vs eq x v hs heq hv, floor, hn, d, hpull, hzero, e', d', h => by
    have hstop : d.pull ≤ Power.lowest.rank := Nat.le_of_eq (hzero rfl)
    have hvalue : (expr .lowest (d.before vs)).Yields v d :=
      expr_before hv .lowest (Nat.le_refl 0) hpull hzero (chain_rest hstop)
    have hgo : floor.rank < ((d.before vs).push eq).pull := by
      rw [Cursor.pull_push _ (continuation?_eq_assignment.mpr heq)]
      exact Nat.lt_succ_of_le hn
    rw [Cursor.before_append, Cursor.before_cons]
    refine yields_expr.mpr ⟨_, _, operand_before hs _, (chain_continue hgo).mpr ?_⟩
    exact ⟨eq, _, _, d, rfl, .assign rfl heq hvalue, h⟩
  | @Expression.binary k op ls rs t l r hop hl hr, floor, hn, d, hpull, hzero, e', d', h => by
    obtain ⟨hcont, hrank⟩ := operator_iff.mp hop
    have hnext : ((d.before rs).push t).pull = k + 1 := by rw [Cursor.pull_push _ hcont, hrank]
    have hstop : d.pull ≤ (Continuation.binary op).power.rank := by rw [hrank]; exact hpull
    have hright : (expr (Continuation.binary op).power (d.before rs)).Yields r d :=
      expr_before hr _ (Nat.le_of_eq hrank) (Nat.le_succ_of_le hpull) (by simp)
        (chain_rest hstop)
    rw [Cursor.before_append, Cursor.before_cons]
    refine expr_before hl floor hn (Nat.le_of_eq hnext) ?_ ((chain_continue ?_).mpr ?_)
    · intro hk
      exact absurd hk (Nat.ne_of_gt (operator_pos hop))
    · rw [hnext]
      exact Nat.lt_succ_of_le hn
    · exact ⟨t, _, _, d, rfl, .binary hop hright, h⟩
  | .tighter _ he, floor, hn, d, hpull, hzero, e', d', h =>
    expr_before he floor (Nat.le_succ_of_le hn) (Nat.le_succ_of_le hpull) (by simp) h
  | @Expression.call ss ts opening closing f args hs ho ha hc, floor, hn, d, hpull, hzero, e', d',
      h => by
    have hargs : (arguments ((d.push closing).before ts)).Yields args d := arguments_before ha hc d
    have hgo : floor.rank < (((d.push closing).before ts).push opening).pull := by
      rw [Cursor.pull_push _ (continuation?_eq_call.mpr ho)]
      exact Nat.lt_succ_of_le hn
    rw [Cursor.before_append, Cursor.before_cons, Cursor.before_append]
    refine yields_expr.mpr ⟨_, _, operand_before hs _, (chain_continue hgo).mpr ?_⟩
    exact ⟨opening, _, _, d, rfl, .call rfl ho hargs, h⟩
  | .primary hp, floor, hn, d, hpull, hzero, e', d', h =>
    yields_expr.mpr ⟨_, d, operand_before hp d, h⟩

theorem operand_before {ts : List Token} {e : Expr} : Primary ts e → (d : Cursor) →
    (operand (d.before ts)).Yields e d
  | .number ht hlit, d =>
    yields_operand.mpr (.inr (.inr ⟨by simpa [primaryOf, ht] using ofToken_eq_ok.mpr hlit, rfl⟩))
  | .negative hm ht hlit, d =>
    yields_operand.mpr (.inl ⟨hm, yields_afterMinus.mpr ⟨_, rfl, ht, hlit⟩⟩)
  | .name ht, d | .string ht, d | .isTrue ht, d | .isFalse ht, d | .raw ht, d =>
    yields_operand.mpr (.inr (.inr ⟨by simp [primaryOf, ht], rfl⟩))
  | @Primary.group ts opening closing e ho he hc, d => by
    have hstop : (d.push closing).pull = 0 := Cursor.pull_push_of_none d (by rw [hc]; rfl)
    have hinner : (expr .lowest ((d.push closing).before ts)).Yields e (d.push closing) :=
      expr_before he .lowest (Nat.le_refl 0) (by omega) (fun _ => hstop)
        (chain_rest (Nat.le_of_eq hstop))
    rw [Cursor.before_cons, Cursor.before_append]
    exact yields_operand.mpr (.inr (.inl ⟨ho, yields_afterOpenParen.mpr ⟨closing, hinner, hc⟩⟩))

theorem arguments_before {ts : List Token} {args : List Expr} : Arguments ts args →
    {closing : Token} → closing.kind = .closeParen → (d : Cursor) →
    (arguments ((d.push closing).before ts)).Yields args d
  | .nil, closing, hc, d => (arguments_closed (c := d.push closing) hc).mpr ⟨rfl, rfl⟩
  | @Arguments.last ts e he, closing, hc, d => by
    have hstop : (d.push closing).pull = 0 := Cursor.pull_push_of_none d (by rw [hc]; rfl)
    have hlast : (expr .lowest ((d.push closing).before ts)).Yields e (d.push closing) :=
      expr_before he .lowest (Nat.le_refl 0) (by omega) (fun _ => hstop)
        (chain_rest (Nat.le_of_eq hstop))
    refine (arguments_open (kind_before_ne he _ (by decide))).mpr ?_
    exact ⟨e, [], _, hlast, rfl,
      .inl ⟨hc, (arguments_closed (c := d.push closing) hc).mpr ⟨rfl, rfl⟩⟩⟩
  | @Arguments.cons ts us comma e args he hcomma ha, closing, hc, d => by
    have hstop : (((d.push closing).before us).push comma).pull = 0 :=
      Cursor.pull_push_of_none _ (by rw [hcomma]; rfl)
    have hfirst : (expr .lowest ((((d.push closing).before us).push comma).before ts)).Yields e
        (((d.push closing).before us).push comma) :=
      expr_before he .lowest (Nat.le_refl 0) (by omega) (fun _ => hstop)
        (chain_rest (Nat.le_of_eq hstop))
    rw [Cursor.before_append, Cursor.before_cons]
    refine (arguments_open (kind_before_ne he _ (by decide))).mpr ?_
    exact ⟨e, args, _, hfirst, rfl, .inr ⟨comma, _, rfl, hcomma, arguments_before ha hc d⟩⟩
end

/-- **Expressions are read exactly.** A reading from the lowest floor yields what the
tokens it passes spell, and ends where nothing continues it. -/
theorem yields_expression {c d : Cursor} {e : Expr} : (expr .lowest c).Yields e d ↔
    ∃ ts, c = d.before ts ∧ Expression 0 ts e ∧ d.pull = 0 := by
  constructor
  · intro h
    obtain ⟨ts, hc, hts, hd⟩ := expr_sound .lowest (by decide) c h
    exact ⟨ts, hc, hts, Nat.le_zero.mp hd⟩
  · rintro ⟨ts, rfl, hts, hd⟩
    exact expr_before hts .lowest (Nat.le_refl 0) (by omega) (fun _ => hd)
      (chain_rest (Nat.le_of_eq hd))

end Parse
end LittleC
