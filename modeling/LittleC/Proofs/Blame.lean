import LittleC.Parse.Statement

/-! Which token an error of the parser points at. A cursor comes to the tokens ahead of it
and to the final end of file, and to nothing else. `x.Blames ts` says that the reading `x`,
if it fails, fails with an error at the start of one of the tokens `ts`, and there is one
rule for every way of building a reading: a reading in steps blames what its steps blame.

`parse_blames`: whatever the tokens, an error of the parser points at one of them, or at the
end of file that is put behind them. -/
namespace LittleC

/-- The error points at the start of one of these tokens. -/
def Error.PointsAt (e : Error) (ts : List Token) : Prop :=
  ∃ t ∈ ts, e.position = some ⟨t.span.start, t.span.file⟩

namespace Cursor

/-- All tokens that a cursor can come to. -/
def tokens (c : Cursor) : List Token :=
  c.ahead ++ [c.final.token]

/-- The cursor comes to no other tokens than these. -/
def Within (c : Cursor) (ts : List Token) : Prop :=
  ∀ t ∈ c.tokens, t ∈ ts

theorem within_tokens (c : Cursor) : c.Within c.tokens :=
  fun _ ht => ht

variable {c d : Cursor} {ts : List Token}

theorem Within.of_follows (h : c.Within ts) (hd : d.Follows c) : d.Within ts := by
  intro t ht
  apply h
  rcases List.mem_append.mp ht with ht | ht
  · exact List.mem_append_left _ (hd.suffix.subset ht)
  · rw [hd.final_eq] at ht
    exact List.mem_append_right _ ht

theorem Within.advance (h : c.Within ts) : c.advance.Within ts :=
  h.of_follows c.advance_follows

theorem Within.tail {t : Token} {rest : List Token} {final : EndToken}
    (h : Within ⟨t :: rest, final⟩ ts) : Within ⟨rest, final⟩ ts :=
  h.advance

theorem current_mem (c : Cursor) : c.current ∈ c.tokens := by
  obtain ⟨ahead, final⟩ := c
  cases ahead <;> simp [current, tokens]

/-- An error at the current token. -/
theorem Within.pointsAt (h : c.Within ts) (cause : Cause) :
    (Error.located cause c.position).PointsAt ts :=
  ⟨c.current, h _ c.current_mem, rfl⟩

end Cursor

namespace Reading

variable {α β : Type} {gain gain' : Nat} {c : Cursor} {ts : List Token}

/-- If the reading fails, its error points at one of these tokens. -/
def Blames (x : Reading gain α c) (ts : List Token) : Prop :=
  ∀ e, x.result = .error e → e.PointsAt ts

theorem blames_done {a : α} : (done a : Reading 0 α c).Blames ts := by
  intro e he
  cases he

theorem blames_fail {e : Error} (h : e.PointsAt ts) : (fail e : Reading gain α c).Blames ts := by
  intro e' he
  cases he
  exact h

theorem blames_step {r : Except Error α} (h : ∀ e, r = .error e → e.PointsAt ts) :
    (step r : Reading 0 α c).Blames ts :=
  h

theorem blames_ok {a : α} : (step (.ok a) : Reading 0 α c).Blames ts :=
  blames_step fun e he => by cases he

theorem Blames.map {x : Reading gain α c} (h : x.Blames ts) (f : α → β) : (x.map f).Blames ts := by
  intro e he
  have hmap : x.result.map f = .error e := he
  cases hx : x.result with
  | error e' =>
    rw [hx] at hmap
    cases hmap
    exact h e hx
  | ok a =>
    rw [hx] at hmap
    cases hmap

theorem Blames.weaken {x : Reading gain α c} (h : x.Blames ts) : x.weaken.Blames ts :=
  h

theorem Blames.afterFirst {t : Token} {rest : List Token} {final : EndToken}
    {x : Reading gain α ⟨rest, final⟩} (h : x.Blames ts) : (x.afterFirst (t := t)).Blames ts :=
  h

theorem Blames.afterCurrent {x : Reading gain α c.advance} (h : x.Blames ts) :
    x.afterCurrent.Blames ts :=
  h

/-- A reading in two steps blames what the first blames, or what the second blames where the
first one ended. -/
theorem Blames.bind {x : Reading gain α c} (hc : c.Within ts) (hx : x.Blames ts)
    {f : α → (d : Cursor) → d.size + gain ≤ c.size → Reading gain' β d}
    (hf : ∀ a d, d.Within ts → (h : d.size + gain ≤ c.size) → (f a d h).Blames ts) :
    (x.bind f).Blames ts := by
  intro e he
  unfold Reading.bind at he
  split at he
  · rename_i e' hresult
    cases he
    exact hx e hresult
  · exact hf _ _ (hc.of_follows x.follows) _ e he

end Reading

namespace Cursor

variable {c : Cursor} {ts : List Token}

theorem expect_blames (hc : c.Within ts) (k : TokenKind) : (c.expect k).Blames ts := by
  unfold expect
  split
  · exact Reading.blames_ok
  · exact Reading.blames_fail (hc.pointsAt _)

theorem expectOr_blames (hc : c.Within ts) (k : TokenKind) (message : String) :
    (c.expectOr k message).Blames ts := by
  unfold expectOr
  split
  · exact Reading.blames_ok
  · exact Reading.blames_fail (hc.pointsAt _)

theorem require_blames (hc : c.Within ts) (k : TokenKind) (hk : k ≠ .eof) :
    (c.require k hk).Blames ts :=
  expect_blames hc k

end Cursor

namespace Parse
open Cursor Reading

variable {ts : List Token}

/-! ### Expressions -/

theorem ofToken_pointsAt {t : Token} (ht : t ∈ ts) {text : String} {e : Error}
    (h : Literal.ofToken t text = .error e) : e.PointsAt ts := by
  unfold Literal.ofToken at h
  split at h
  · cases h
  · cases h
    exact ⟨t, ht, rfl⟩

theorem primaryOf_pointsAt {t : Token} (ht : t ∈ ts) {e : Error} (h : primaryOf t = .error e) :
    e.PointsAt ts := by
  unfold primaryOf at h
  split at h
  · exact ofToken_pointsAt ht h
  all_goals cases h
  exact ⟨t, ht, rfl⟩

theorem primary_blames {c : Cursor} (hc : c.Within ts) : (primary c).Blames ts := by
  unfold primary
  split
  · exact blames_fail (hc.pointsAt _)
  · rename_i t rest final
    split
    · exact blames_done.afterFirst
    · rename_i e he
      exact blames_fail (primaryOf_pointsAt (hc t (by simp [tokens])) he)

theorem afterMinus_blames {c : Cursor} (hc : c.Within ts) : (afterMinus c).Blames ts := by
  unfold afterMinus
  split
  · exact blames_step fun e he => ofToken_pointsAt (hc _ c.current_mem) he
  · exact blames_fail (hc.pointsAt _)

mutual
theorem expr_blames (floor : Power) (c : Cursor) (hc : c.Within ts) :
    (expr floor c).Blames ts := by
  rw [expr]
  exact .bind hc (operand_blames c hc) fun left d hd hsize => chain_blames floor left d hd
termination_by (c.size, 1)
decreasing_by
  · exact Prod.Lex.right _ (by decide)
  · exact Prod.Lex.left _ _ hsize

theorem operand_blames (c : Cursor) (hc : c.Within ts) : (operand c).Blames ts := by
  match c with
  | ⟨[], final⟩ =>
    rw [operand]
    exact blames_fail (hc.pointsAt _)
  | ⟨t :: rest, final⟩ =>
    rw [operand]
    split
    · exact (afterMinus_blames hc.tail).afterFirst
    · split
      · exact (afterOpenParen_blames ⟨rest, final⟩ hc.tail).afterFirst
      · split
        · exact primary_blames hc
        · exact blames_fail (hc.pointsAt _)
termination_by (c.size, 0)
decreasing_by exact Prod.Lex.left _ _ (Nat.lt_succ_self _)

theorem afterOpenParen_blames (c : Cursor) (hc : c.Within ts) : (afterOpenParen c).Blames ts := by
  rw [afterOpenParen]
  exact .bind hc (expr_blames .lowest c hc) fun e d hd _ => (expect_blames hd _).map _
termination_by (c.size, 2)
decreasing_by exact Prod.Lex.right _ (by decide)

theorem chain_blames (floor : Power) (left : Expr) (c : Cursor) (hc : c.Within ts) :
    (chain floor left c).Blames ts := by
  match c with
  | ⟨[], final⟩ =>
    rw [chain]
    exact blames_done
  | ⟨t :: rest, final⟩ =>
    rw [chain]
    split
    · exact blames_done
    · split
      · exact blames_done
      · refine Blames.weaken (.bind hc ?_ fun e d hd hsize => chain_blames floor e d hd)
        split
        · exact ((expr_blames _ ⟨rest, final⟩ hc.tail).map _).afterFirst
        · exact ((expr_blames _ ⟨rest, final⟩ hc.tail).map _).afterFirst
        · exact blames_fail (hc.pointsAt _)
        · exact ((arguments_blames ⟨rest, final⟩ hc.tail).map _).afterFirst
        · exact blames_fail (hc.pointsAt _)
termination_by (c.size, 0)
decreasing_by
  · exact Prod.Lex.left _ _ (Nat.lt_succ_self _)
  · exact Prod.Lex.left _ _ (Nat.lt_succ_self _)
  · exact Prod.Lex.left _ _ (Nat.lt_succ_self _)
  · exact Prod.Lex.left _ _ hsize

theorem arguments_blames (c : Cursor) (hc : c.Within ts) : (arguments c).Blames ts := by
  rw [arguments]
  split
  · exact blames_ok
  · refine Blames.weaken (.bind hc (expr_blames .lowest c hc) fun e d hd hsize => ?_)
    split
    · exact (arguments_blames d hd).map _
    · exact .bind hd (expect_blames hd _) fun _ d' hd' hsize' => (arguments_blames d' hd').map _
termination_by (c.size, 2)
decreasing_by
  · exact Prod.Lex.right _ (by decide)
  · exact Prod.Lex.left _ _ (Nat.lt_of_le_of_lt hsize' hsize)
  · exact Prod.Lex.left _ _ hsize
end

/-! ### Statements -/

theorem typeName_blames {c : Cursor} (hc : c.Within ts) : (typeName c).Blames ts := by
  unfold typeName
  split
  · refine blames_step fun e he => ?_
    split at he
    · cases he
    · cases he
      exact hc.pointsAt _
  · exact blames_fail (hc.pointsAt _)

/-- What is no statement is blamed on its first token. -/
theorem effect_blames {c : Cursor} (hc : c.Within ts) : (effect c).Blames ts := by
  refine .bind hc (expr_blames .lowest c hc) fun e d hd _ => ?_
  split
  · exact (expect_blames hd _).map _
  · exact (expect_blames hd _).map _
  · exact blames_fail (hc.pointsAt _)

theorem afterLet_blames {c : Cursor} (hc : c.Within ts) : (afterLet c).Blames ts :=
  .bind hc (expectOr_blames hc _ _) fun _ _ hd _ =>
    .bind hd (expectOr_blames hd _ _) fun _ _ hd' _ =>
      .bind hd' (expr_blames .lowest _ hd').weaken fun _ _ hd'' _ => (expect_blames hd'' _).map _

theorem afterReturn_blames {c : Cursor} (hc : c.Within ts) : (afterReturn c).Blames ts := by
  unfold afterReturn
  split
  · exact blames_ok
  · exact .bind hc (expr_blames .lowest c hc).weaken fun _ _ hd _ => (expect_blames hd _).map _

theorem afterRaw_blames (text : String) (c : Cursor) : (afterRaw text c).Blames ts := by
  unfold afterRaw
  split
  · exact blames_ok
  · exact blames_done

theorem params_blames (c : Cursor) (hc : c.Within ts) : (params c).Blames ts := by
  rw [params]
  split
  · exact blames_ok
  · refine Blames.weaken (.bind hc (require_blames hc _ _) fun _ d hd hsize => ?_)
    refine .bind hd (expect_blames hd _) fun _ d₁ hd₁ hsize₁ => ?_
    refine .bind hd₁ (typeName_blames hd₁) fun _ d₂ hd₂ hsize₂ => ?_
    split
    · exact (params_blames d₂ hd₂).map _
    · exact .bind hd₂ (expect_blames hd₂ _) fun _ d₃ hd₃ hsize₃ => (params_blames d₃ hd₃).map _
termination_by c.size

theorem resultType_blames {c : Cursor} (hc : c.Within ts) : (resultType c).Blames ts := by
  unfold resultType
  split
  · exact (typeName_blames hc.advance).afterCurrent
  · exact blames_done

theorem header_blames {c : Cursor} (hc : c.Within ts) : (header c).Blames ts :=
  .bind hc (expectOr_blames hc _ _) fun _ _ hd _ =>
    .bind hd (expect_blames hd _) fun _ _ hd₁ _ =>
      .bind hd₁ (params_blames _ hd₁) fun _ _ hd₂ _ => (resultType_blames hd₂).map _

mutual
theorem stmt_blames (c : Cursor) (hc : c.Within ts) : (stmt c).Blames ts := by
  match c with
  | ⟨[], final⟩ =>
    rw [stmt]
    exact effect_blames hc
  | ⟨t :: rest, final⟩ =>
    rw [stmt]
    split
    · exact (afterLet_blames hc.tail).afterFirst
    · exact (afterLet_blames hc.tail).afterFirst
    · exact (afterIf_blames ⟨rest, final⟩ hc.tail).afterFirst
    · exact (afterFor_blames ⟨rest, final⟩ hc.tail).afterFirst
    · exact (afterFn_blames ⟨rest, final⟩ hc.tail).afterFirst
    · exact (afterReturn_blames hc.tail).afterFirst
    · exact (afterRaw_blames t.value ⟨rest, final⟩).afterFirst
    · exact effect_blames hc
termination_by (c.size, 0)
decreasing_by all_goals exact Prod.Lex.left _ _ (Nat.lt_succ_self _)

theorem stmts_blames (c : Cursor) (hc : c.Within ts) : (stmts c).Blames ts := by
  rw [stmts]
  split
  · exact (expect_blames hc _).map _
  · exact Blames.weaken (.bind hc (stmt_blames c hc) fun _ d hd hsize => (stmts_blames d hd).map _)
termination_by (c.size, 1)
decreasing_by
  · exact Prod.Lex.right _ (by decide)
  · exact Prod.Lex.left _ _ hsize

theorem block_blames (c : Cursor) (hc : c.Within ts) : (block c).Blames ts := by
  rw [block]
  exact .bind hc (expect_blames hc _) fun _ d hd hsize => stmts_blames d hd
termination_by (c.size, 2)
decreasing_by
  exact (Nat.lt_or_eq_of_le hsize).elim (Prod.Lex.left _ _) fun h =>
    h ▸ Prod.Lex.right _ (by decide)

theorem afterIf_blames (c : Cursor) (hc : c.Within ts) : (afterIf c).Blames ts := by
  rw [afterIf]
  exact .bind hc (expr_blames .lowest c hc) fun _ d hd hsize =>
    .bind hd (block_blames d hd) fun _ d' hd' hsize' => (otherwise_blames d' hd').map _
termination_by (c.size, 3)
decreasing_by
  · exact Prod.Lex.left _ _ hsize
  · exact Prod.Lex.left _ _ (Nat.lt_of_le_of_lt hsize' hsize)

theorem otherwise_blames (c : Cursor) (hc : c.Within ts) : (otherwise c).Blames ts := by
  match c with
  | ⟨[], final⟩ =>
    rw [otherwise]
    exact blames_done
  | ⟨t :: rest, final⟩ =>
    rw [otherwise]
    split
    · exact ((afterElse_blames ⟨rest, final⟩ hc.tail).map _).afterFirst.weaken
    · exact blames_done
termination_by (c.size, 3)
decreasing_by exact Prod.Lex.left _ _ (Nat.lt_succ_self _)

theorem afterElse_blames (c : Cursor) (hc : c.Within ts) : (afterElse c).Blames ts := by
  match c with
  | ⟨[], final⟩ =>
    rw [afterElse]
    exact block_blames ⟨[], final⟩ hc
  | ⟨t :: rest, final⟩ =>
    rw [afterElse]
    split
    · exact ((afterIf_blames ⟨rest, final⟩ hc.tail).map _).afterFirst.weaken
    · exact block_blames ⟨t :: rest, final⟩ hc
termination_by (c.size, 3)
decreasing_by
  · exact Prod.Lex.right _ (by decide)
  · exact Prod.Lex.right _ (by decide)
  · exact Prod.Lex.left _ _ (Nat.lt_succ_self _)

theorem afterFor_blames (c : Cursor) (hc : c.Within ts) : (afterFor c).Blames ts := by
  rw [afterFor]
  refine .bind hc (expect_blames hc _) fun _ d hd hsize => ?_
  refine .bind hd (stmt_blames d hd).weaken fun _ d₁ hd₁ hsize₁ => ?_
  refine .bind hd₁ (expr_blames .lowest d₁ hd₁).weaken fun _ d₂ hd₂ hsize₂ => ?_
  refine .bind hd₂ (expect_blames hd₂ _) fun _ d₃ hd₃ hsize₃ => ?_
  refine .bind hd₃ (expr_blames .lowest d₃ hd₃).weaken fun _ d₄ hd₄ hsize₄ => ?_
  refine .bind hd₄ (expect_blames hd₄ _) fun _ d₅ hd₅ hsize₅ => ?_
  exact (block_blames d₅ hd₅).map _
termination_by (c.size, 3)
decreasing_by
  · exact (Nat.lt_or_eq_of_le hsize).elim (Prod.Lex.left _ _) fun h =>
      h ▸ Prod.Lex.right _ (by decide)
  · have h : d₅.size ≤ c.size := by omega
    exact (Nat.lt_or_eq_of_le h).elim (Prod.Lex.left _ _) fun h =>
      h ▸ Prod.Lex.right _ (by decide)

theorem afterFn_blames (c : Cursor) (hc : c.Within ts) : (afterFn c).Blames ts := by
  rw [afterFn]
  refine .bind hc (header_blames hc) fun header d hd hsize => ?_
  obtain ⟨name, signature⟩ := header
  dsimp only
  split
  · exact blames_ok
  · exact (block_blames d hd).map _
termination_by (c.size, 3)
decreasing_by
  exact (Nat.lt_or_eq_of_le hsize).elim (Prod.Lex.left _ _) fun h =>
    h ▸ Prod.Lex.right _ (by decide)
end

theorem program_blames (c : Cursor) (hc : c.Within ts) : (program c).Blames ts := by
  rw [program]
  split
  · exact blames_done
  · exact Blames.weaken
      (.bind hc (stmt_blames c hc) fun _ d hd hsize => (program_blames d hd).map _)
termination_by c.size

end Parse

/-- An error of the parser points at a token, or at the end of file that it puts behind
them. -/
theorem parse_blames {ts : List Token} {file : String} {e : Error} (h : parse ts file = .error e) :
    e.PointsAt (Cursor.ofTokens ts file).tokens :=
  Parse.program_blames _ (Cursor.within_tokens _) e h

/-- Tokens that end with an end of file are all that a cursor comes to. -/
theorem Cursor.tokens_ofTokens {us : List Token} {t : Token} (ht : t.kind = .eof) (file : String) :
    (ofTokens (us ++ [t]) file).tokens = us ++ [t] := by
  obtain ⟨kind, value, span⟩ := t
  obtain rfl : kind = .eof := ht
  simp [ofTokens, tokens, EndToken.token]

end LittleC
