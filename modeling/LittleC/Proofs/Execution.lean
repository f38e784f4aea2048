import LittleC.Proofs.Instructions
import LittleC.Proofs.ParseStmt

/-! The parser does what its instructions say. `x.Traced care ts p` says that the code `p`,
started where the reading `x` begins, comes to an end with the result of `x` and where `x`
ends, and, if care is asked for, that no instruction goes on from an end of file. There is
one rule for every way of building a reading, and by them every handler is traced by its code
(`Handler.read_traced`). With care this asks of the handlers that skip their first token unseen
to be called at a token that is no end of file, as the parser calls them.

`handlers_end`: every handler, at every position of every list of tokens, comes to an end; it
never goes back and never looks beyond the tokens; and an expression, a statement or a block
that was read has left a token behind. -/
namespace LittleC

namespace Cursor

/-- The cursor stands at a position of the tokens. -/
def At (c : Cursor) (ts : List Token) (i : Nat) : Prop :=
  ts.drop i = c.tokens

variable {c : Cursor} {ts : List Token} {i : Nat}

theorem length_tokens (c : Cursor) : c.tokens.length = c.size + 1 := by
  simp [tokens, size]

theorem At.length_eq (h : c.At ts i) : ts.length = i + c.size + 1 := by
  have hlen := congrArg List.length h
  rw [List.length_drop, length_tokens] at hlen
  omega

theorem At.getElem?_eq (h : c.At ts i) : ts[i]? = some c.current := by
  obtain ⟨ahead, final⟩ := c
  rw [← List.head?_drop, h]
  cases ahead <;> rfl

theorem At.advance (h : c.At ts i) :
    c.advance.At ts (if i + 1 < ts.length then i + 1 else i) := by
  have hlen := h.length_eq
  obtain ⟨ahead, final⟩ := c
  cases ahead with
  | nil =>
    rw [if_neg (by simp [size] at hlen; omega)]
    exact h
  | cons t rest =>
    rw [if_pos (by simp [size] at hlen; omega), At, ← List.tail_drop, h]
    rfl

theorem At.careful (h : c.At ts i) (hc : c.kind ≠ .eof) : Parse.Careful ts [.advance i] := by
  intro k hk
  obtain rfl : k = i := by simpa using hk
  exact ⟨c.current, h.getElem?_eq, hc⟩

/-- The cursor some tokens further on. -/
def skip (c : Cursor) (i : Nat) : Cursor :=
  ⟨c.ahead.drop i, c.final⟩

theorem skip_at (c : Cursor) (hi : i < c.tokens.length) : (c.skip i).At c.tokens i := by
  have hle : i ≤ c.ahead.length := by
    rw [length_tokens] at hi
    exact Nat.le_of_lt_succ hi
  simp [At, tokens, skip, List.drop_append_of_le_length hle]

/-- A position has one cursor. -/
theorem At.eq_skip {d : Cursor} (h : d.At c.tokens i) : d = c.skip i := by
  have hi : i < c.tokens.length := by
    have := h.length_eq
    omega
  have heq : d.tokens = (c.skip i).tokens := h.symm.trans (skip_at c hi)
  obtain ⟨hahead, hfinal⟩ := List.append_inj' heq rfl
  obtain ⟨ahead, value, span⟩ := d
  simp_all [EndToken.token]

end Cursor

namespace Reading
open Parse

variable {α β : Type} {gain gain' : Nat} {c : Cursor} {ts : List Token} {care : Prop}

/-- The code, started where the reading begins, ends with its result and where it ends; with
care, it goes on from no end of file. -/
def Traced (x : Reading gain α c) (care : Prop) (ts : List Token) (p : Code α) : Prop :=
  ∀ i, c.At ts i → ∃ es j, Runs ts p i es x.result j ∧ x.cursor.At ts j ∧ (care → Careful ts es)

theorem traced_done {a : α} : (done a : Reading 0 α c).Traced care ts (.done a) :=
  fun i hi => ⟨[], i, .done, hi, fun _ => careful_nil⟩

theorem traced_fail {e : Error} : (fail e : Reading gain α c).Traced care ts (.fail e) :=
  fun i hi => ⟨[], i, .fail, hi, fun _ => careful_nil⟩

/-- What comes after a result that is there already. -/
theorem Traced.afterDone {x : Reading gain β c} {a : α} {k : α → Code β}
    (hx : x.Traced care ts (k a)) : x.Traced care ts (.done a >>= k) := by
  intro i hi
  obtain ⟨es, j, hrun, hj, hcare⟩ := hx i hi
  exact ⟨[] ++ es, j, .andThen .done hrun, hj, hcare⟩

theorem traced_broken {e : Error} {k : α → Code β} :
    (fail e : Reading gain β c).Traced care ts (.fail e >>= k) :=
  fun i hi => ⟨[], i, .broken .fail, hi, fun _ => careful_nil⟩

theorem Traced.run {x : Reading gain α c} {h : Handler α} (hx : x.Traced care ts (.body h)) :
    x.Traced care ts (.run h) := by
  intro i hi
  obtain ⟨es, j, hrun, hj, hcare⟩ := hx i hi
  exact ⟨es, j, .run hrun, hj, hcare⟩

theorem Traced.weaken {x : Reading gain α c} {p : Code α} (hx : x.Traced care ts p) :
    x.weaken.Traced care ts p :=
  hx

theorem Traced.look {x : Reading gain α c} {k : Token → Code α}
    (hx : x.Traced care ts (k c.current)) : x.Traced care ts (.look >>= k) := by
  intro i hi
  obtain ⟨es, j, hrun, hj, hcare⟩ := hx i hi
  refine ⟨.look i :: es, j, .andThen (.look hi.getElem?_eq) hrun, hj, fun h => ?_⟩
  simpa [Careful] using hcare h

/-- Goes on from the current token, which is no end of file if care is asked for. -/
theorem Traced.afterCurrent {x : Reading gain α c.advance} {k : Token → Code α}
    (hc : care → c.kind ≠ .eof) (hx : x.Traced care ts (k c.current)) :
    x.afterCurrent.Traced care ts (.advance >>= k) := by
  intro i hi
  obtain ⟨es, j, hrun, hj, hcare⟩ := hx _ hi.advance
  exact ⟨[.advance i] ++ es, j, .andThen (.advance hi.getElem?_eq) hrun, hj,
    fun h => careful_append.mpr ⟨hi.careful (hc h), hcare h⟩⟩

theorem Traced.afterFirst {t : Token} {rest : List Token} {final : EndToken}
    {x : Reading gain α ⟨rest, final⟩} {k : Token → Code α} (ht : care → t.kind ≠ .eof)
    (hx : x.Traced care ts (k t)) : (x.afterFirst (t := t)).Traced care ts (.advance >>= k) :=
  Traced.afterCurrent (c := ⟨t :: rest, final⟩) ht hx

/-- Looks which of two ways to go. -/
theorem Traced.lookIf {x y : Reading gain α c} {k : TokenKind} {p q : Token → Code α}
    (hx : c.kind = k → x.Traced care ts (p c.current))
    (hy : c.kind ≠ k → y.Traced care ts (q c.current)) :
    (if c.kind = k then x else y).Traced care ts
      (.look >>= fun t => if t.kind = k then p t else q t) := by
  refine .look ?_
  by_cases h : c.current.kind = k
  · rw [if_pos h, if_pos (show c.kind = k from h)]
    exact hx h
  · rw [if_neg h, if_neg (show c.kind ≠ k from h)]
    exact hy h

theorem traced_advance (hc : care → c.kind ≠ .eof) :
    (step (.ok c.current) : Reading 0 Token c).Traced care ts .advance :=
  fun i hi => ⟨[.advance i], _, .advance hi.getElem?_eq, hi.advance, fun h => hi.careful (hc h)⟩

theorem traced_step {r : Except Error α} {k : Token → Code α} (hc : care → c.kind ≠ .eof)
    (hk : k c.current = .ofExcept r) :
    (step r : Reading 0 α c).Traced care ts (.advance >>= k) := by
  cases r with
  | ok a =>
    refine Traced.afterCurrent (x := done a) hc ?_
    rw [hk]
    exact traced_done
  | error e =>
    refine Traced.afterCurrent (x := (fail e : Reading 0 α c.advance)) hc ?_
    rw [hk]
    exact traced_fail

theorem Traced.bind {x : Reading gain α c} {p : Code α} (hx : x.Traced care ts p)
    {f : α → (d : Cursor) → d.size + gain ≤ c.size → Reading gain' β d} {k : α → Code β}
    (hf : ∀ a d h, (f a d h).Traced care ts (k a)) : (x.bind f).Traced care ts (p >>= k) := by
  intro i hi
  obtain ⟨es, j, hrun, hj, hcare⟩ := hx i hi
  unfold Reading.bind
  split
  · rename_i e he
    exact ⟨es, j, .broken (he ▸ hrun), hj, hcare⟩
  · rename_i a ha
    obtain ⟨fs, m, hrun', hm, hcare'⟩ := hf a x.cursor (x.progress a ha) j hj
    exact ⟨es ++ fs, m, .andThen (ha ▸ hrun) hrun', hm,
      fun h => careful_append.mpr ⟨hcare h, hcare' h⟩⟩

theorem Traced.map {x : Reading gain α c} {p : Code α} (hx : x.Traced care ts p) (f : α → β) :
    (x.map f).Traced care ts (p >>= fun a => .done (f a)) := by
  intro i hi
  obtain ⟨es, j, hrun, hj, hcare⟩ := hx i hi
  cases hr : x.result with
  | error e =>
    rw [hr] at hrun
    refine ⟨es, j, ?_, hj, hcare⟩
    rw [show (x.map f).result = .error e by simp [Reading.map, hr, Except.map]]
    exact .broken hrun
  | ok a =>
    rw [hr] at hrun
    refine ⟨es ++ [], j, ?_, hj, fun h => careful_append.mpr ⟨hcare h, careful_nil⟩⟩
    rw [show (x.map f).result = .ok (f a) by simp [Reading.map, hr, Except.map]]
    exact .andThen hrun .done

end Reading

namespace Cursor

variable {c : Cursor} {ts : List Token} {care : Prop}

theorem expect_traced {kind : TokenKind} (hk : kind ≠ .eof) :
    (c.expect kind).Traced care ts (.expect kind) :=
  .lookIf (fun h => Reading.traced_advance fun _ => h ▸ hk) fun _ => Reading.traced_fail

theorem expectOr_traced {kind : TokenKind} {message : String} (hk : kind ≠ .eof) :
    (c.expectOr kind message).Traced care ts (.expectOr kind message) :=
  .lookIf (fun h => Reading.traced_advance fun _ => h ▸ hk) fun _ => Reading.traced_fail

theorem require_traced {kind : TokenKind} (hk : kind ≠ .eof) :
    (c.require kind hk).Traced care ts (.expect kind) :=
  expect_traced hk

/-- Expects a token that is known to be there. -/
theorem step_traced {α : Type} {a : α} {kind : TokenKind} (h : c.kind = kind) (hk : kind ≠ .eof) :
    (.step (.ok a) : Reading 0 α c).Traced care ts (.expect kind >>= fun _ => .done a) := by
  have hexpect : ((c.expect kind).map fun _ => a).Traced care ts _ := (expect_traced hk).map _
  rwa [expect, if_pos h] at hexpect

end Cursor

namespace Parse
open Cursor Reading

variable {ts : List Token} {care : Prop}

/-! ### Expressions -/

theorem opener?_of_startsExpr {k : TokenKind} (h : k.startsExpr = true) (hdash : k ≠ .dash)
    (hopen : k ≠ .openParen) : opener? k = some .primary := by
  cases k <;> simp_all [opener?, TokenKind.startsExpr]

theorem opener?_eq_none {k : TokenKind} (h : ¬ k.startsExpr = true) : opener? k = none := by
  cases k <;> simp_all [opener?, TokenKind.startsExpr]

theorem operator?_of_continuation? {k : TokenKind} {op : BinaryOp}
    (h : k.continuation? = some (.binary op)) : k.operator? = some op := by
  cases k <;> simp_all [TokenKind.continuation?, TokenKind.operator?]

theorem kind_ne_eof_of_continuation? {k : TokenKind} {continuation : Continuation}
    (h : k.continuation? = some continuation) : k ≠ .eof := by
  rintro rfl
  cases h

theorem kind_ne_eof_of_operator? {k : TokenKind} {op : BinaryOp} (h : k.operator? = some op) :
    k ≠ .eof := by
  rintro rfl
  cases h

theorem kind_ne_eof_of_primaryOf {t : Token} {e : Expr} (h : primaryOf t = .ok e) :
    t.kind ≠ .eof := by
  intro hk
  simp [primaryOf, hk] at h

theorem primary_traced (c : Cursor) : (primary c).Traced care ts (.body .primary) := by
  unfold primary
  split
  · exact .look traced_broken
  · rename_i t rest final
    refine .look ?_
    dsimp only [Cursor.current]
    split
    · rename_i e he
      rw [he]
      exact .afterDone (.afterFirst (fun _ => kind_ne_eof_of_primaryOf he) traced_done)
    · rename_i e he
      rw [he]
      exact traced_broken

theorem afterMinus_traced (c : Cursor) : (afterMinus c).Traced care ts .afterMinus :=
  .lookIf (fun h => traced_step (by simp [h]) rfl) fun _ => traced_fail

theorem binary_body {c : Cursor} {gain : Nat} {left : Expr} {power : Power} {op : BinaryOp}
    (hop : c.kind.operator? = some op) {x : Reading gain Expr c.advance}
    (hx : x.Traced care ts (.body (.expr power))) :
    (x.map (.binary op left)).afterCurrent.Traced care ts (.body (.binary left power)) := by
  refine .look ?_
  rw [show c.current.kind.operator? = some op from hop]
  exact .afterCurrent (fun _ => kind_ne_eof_of_operator? hop) (hx.run.map _)

theorem assignment_refused {c : Cursor} {gain : Nat} {left : Expr}
    (hleft : ∀ name, left ≠ .symbol name) :
    (fail (c.unexpected "only variables can be assigned to") : Reading gain Expr c).Traced care ts
      (.body (.assignment left)) := by
  refine .look ?_
  split
  · exact absurd rfl (hleft _)
  · exact traced_fail

theorem call_refused {c : Cursor} {gain : Nat} {left : Expr} (hleft : ∀ name, left ≠ .symbol name) :
    (fail (c.unexpected "only named functions can be called") : Reading gain Expr c).Traced care ts
      (.body (.call left)) := by
  refine .look ?_
  split
  · exact absurd rfl (hleft _)
  · exact traced_fail

theorem operand_of_opener {c : Cursor} {gain : Nat} {x : Reading gain Expr c} {h : Handler Expr}
    (hopen : opener? c.kind = some h) (hx : x.Traced care ts (.body h)) :
    x.Traced care ts .operand := by
  refine .look ?_
  rw [show opener? c.current.kind = some h from hopen]
  exact hx.run

theorem operand_refused {c : Cursor} {gain : Nat} (hopen : opener? c.kind = none) :
    (fail (c.unexpected "expected an expression") : Reading gain Expr c).Traced care ts
      .operand := by
  refine .look ?_
  rw [show opener? c.current.kind = none from hopen]
  exact traced_fail

-- The recursion is that of the readings, on the tokens ahead and then on the functions that
-- read nothing before they call the next.
mutual
theorem expr_traced (floor : Power) (c : Cursor) :
    (expr floor c).Traced care ts (.body (.expr floor)) := by
  rw [expr]
  exact .bind (operand_traced c) fun left d hsize => (chain_traced floor left d).run
termination_by (c.size, 1)
decreasing_by
  · exact Prod.Lex.right _ (by decide)
  · exact Prod.Lex.left _ _ hsize

theorem operand_traced (c : Cursor) : (operand c).Traced care ts .operand := by
  match c with
  | ⟨[], final⟩ =>
    rw [operand]
    exact operand_refused rfl
  | ⟨t :: rest, final⟩ =>
    rw [operand]
    split
    · rename_i ht
      exact operand_of_opener (h := .negative) (congrArg opener? ht)
        (.afterFirst (fun _ => by simp [ht]) (afterMinus_traced ⟨rest, final⟩))
    · split
      · rename_i ht
        exact operand_of_opener (h := .grouping) (congrArg opener? ht)
          (.afterFirst (fun _ => by simp [ht]) (afterOpenParen_traced ⟨rest, final⟩))
      · split
        · rename_i hdash hopen ht
          exact operand_of_opener (opener?_of_startsExpr ht hdash hopen) (primary_traced _)
        · rename_i ht
          exact operand_refused (opener?_eq_none ht)
termination_by (c.size, 0)
decreasing_by exact Prod.Lex.left _ _ (Nat.lt_succ_self _)

theorem afterOpenParen_traced (c : Cursor) :
    (afterOpenParen c).Traced care ts .afterOpenParen := by
  rw [afterOpenParen]
  exact .bind (expr_traced .lowest c).run fun e d _ => (expect_traced (by decide)).map _
termination_by (c.size, 2)
decreasing_by exact Prod.Lex.right _ (by decide)

theorem chain_traced (floor : Power) (left : Expr) (c : Cursor) :
    (chain floor left c).Traced care ts (.body (.chain floor left)) := by
  match c with
  | ⟨[], final⟩ =>
    rw [chain]
    exact .look traced_done
  | ⟨t :: rest, final⟩ =>
    rw [chain]
    refine .look ?_
    dsimp only [Cursor.current]
    -- The code and the reading ask the same question, so the answer is put into both.
    cases hk : t.kind.continuation? with
    | none => exact traced_done
    | some continuation =>
      have ht : care → t.kind ≠ .eof := fun _ => kind_ne_eof_of_continuation? hk
      dsimp only
      by_cases hrank : continuation.power.rank ≤ floor.rank
      · simp only [if_pos hrank]
        exact traced_done
      · simp only [if_neg hrank]
        refine .weaken (.bind (.run ?_) fun e d hsize => (chain_traced floor e d).run)
        split
        · exact binary_body (c := ⟨t :: rest, final⟩) (operator?_of_continuation? hk)
            (expr_traced _ ⟨rest, final⟩)
        · exact .look (.afterFirst ht ((expr_traced _ ⟨rest, final⟩).run.map _))
        · rename_i hleft
          exact assignment_refused hleft
        · exact .look (.afterFirst ht ((arguments_traced ⟨rest, final⟩).run.map _))
        · rename_i hleft
          exact call_refused hleft
termination_by (c.size, 0)
decreasing_by
  · exact Prod.Lex.left _ _ (Nat.lt_succ_self _)
  · exact Prod.Lex.left _ _ (Nat.lt_succ_self _)
  · exact Prod.Lex.left _ _ (Nat.lt_succ_self _)
  · exact Prod.Lex.left _ _ hsize

theorem arguments_traced (c : Cursor) : (arguments c).Traced care ts (.body .arguments) := by
  rw [arguments]
  refine .lookIf (fun h => step_traced h (by decide)) fun _ => ?_
  refine .weaken (.bind (expr_traced .lowest c).run fun e d hsize => ?_)
  refine .lookIf (fun _ => (arguments_traced d).run.map _) fun _ => ?_
  exact .bind (expect_traced (by decide)) fun _ d' hsize' => (arguments_traced d').run.map _
termination_by (c.size, 2)
decreasing_by
  · exact Prod.Lex.right _ (by decide)
  · exact Prod.Lex.left _ _ hsize
  · exact Prod.Lex.left _ _ (Nat.lt_of_le_of_lt hsize' hsize)
end

/-! ### Statements -/

theorem typeName_traced (c : Cursor) : (typeName c).Traced care ts (.body .typeName) :=
  .lookIf (fun h => traced_step (by simp [h]) rfl) fun _ => traced_fail

theorem effect_traced (c : Cursor) : (effect c).Traced care ts .effect := by
  refine .look (.bind (expr_traced .lowest c).run fun e d _ => ?_)
  cases e with
  | call f args => exact (expect_traced (by decide)).map _
  | assign x v => exact (expect_traced (by decide)).map _
  | _ => exact traced_fail

theorem afterLet_traced (c : Cursor) : (afterLet c).Traced care ts .afterLet :=
  .bind (expectOr_traced (by decide)) fun _ _ _ =>
    .bind (expectOr_traced (by decide)) fun _ d _ =>
      .bind (expr_traced .lowest d).run.weaken fun _ _ _ => (expect_traced (by decide)).map _

theorem afterReturn_traced (c : Cursor) : (afterReturn c).Traced care ts .afterReturn := by
  refine .lookIf (fun h => step_traced h (by decide)) fun _ => ?_
  exact .bind (expr_traced .lowest c).run.weaken fun _ _ _ => (expect_traced (by decide)).map _

theorem afterRaw_traced (text : String) (c : Cursor) :
    (afterRaw text c).Traced care ts (.afterRaw text) :=
  .lookIf (fun h => traced_step (by simp [h]) rfl) fun _ => traced_done

theorem params_traced (c : Cursor) : (params c).Traced care ts (.body .params) := by
  rw [params]
  refine .lookIf (fun h => step_traced h (by decide)) fun _ => ?_
  refine .weaken (.bind (require_traced _) fun _ d hsize => ?_)
  refine .bind (expect_traced (by decide)) fun _ d₁ hsize₁ => ?_
  refine .bind (typeName_traced d₁).run fun _ d₂ hsize₂ => ?_
  refine .lookIf (fun _ => (params_traced d₂).run.map _) fun _ => ?_
  exact .bind (expect_traced (by decide)) fun _ d₃ hsize₃ => (params_traced d₃).run.map _
termination_by c.size

theorem resultType_traced (c : Cursor) : (resultType c).Traced care ts .resultType :=
  .lookIf (fun h => .afterCurrent (by simp [h]) (typeName_traced c.advance).run)
    fun _ => traced_done

theorem header_traced (c : Cursor) : (header c).Traced care ts .header :=
  .bind (expectOr_traced (by decide)) fun _ _ _ =>
    .bind (expect_traced (by decide)) fun _ d _ =>
      .bind (params_traced d).run fun _ d₁ _ => (resultType_traced d₁).map _

/-- A statement with a word of its own, which is skipped unseen by its handler. -/
theorem stmt_of_starter {t : Token} {rest : List Token} {final : EndToken} {gain : Nat}
    {x : Reading gain Stmt ⟨rest, final⟩} {h : Handler Stmt} {k : Token → Code Stmt}
    (hstart : starter? t.kind = some h) (hbody : Code.body h = .advance >>= k)
    (hx : x.Traced care ts (k t)) : (x.afterFirst (t := t)).Traced care ts (.body .stmt) := by
  have ht : t.kind ≠ .eof := by
    intro ht
    rw [ht] at hstart
    cases hstart
  refine .look ?_
  dsimp only [Cursor.current]
  rw [hstart]
  refine .run ?_
  rw [hbody]
  exact .afterFirst (fun _ => ht) hx

theorem stmt_of_effect {c : Cursor} (hstart : starter? c.kind = none) :
    (effect c).Traced care ts (.body .stmt) := by
  refine .look ?_
  rw [show starter? c.current.kind = none from hstart]
  exact effect_traced c

mutual
theorem stmt_traced (c : Cursor) : (stmt c).Traced care ts (.body .stmt) := by
  match c with
  | ⟨[], final⟩ =>
    rw [stmt]
    exact stmt_of_effect rfl
  | ⟨t :: rest, final⟩ =>
    rw [stmt]
    split
    · rename_i ht
      exact stmt_of_starter (congrArg starter? ht) rfl (afterLet_traced _)
    · rename_i ht
      exact stmt_of_starter (congrArg starter? ht) rfl (afterLet_traced _)
    · rename_i ht
      exact stmt_of_starter (congrArg starter? ht) rfl (afterIf_traced ⟨rest, final⟩)
    · rename_i ht
      exact stmt_of_starter (congrArg starter? ht) rfl (afterFor_traced ⟨rest, final⟩)
    · rename_i ht
      exact stmt_of_starter (congrArg starter? ht) rfl (afterFn_traced ⟨rest, final⟩)
    · rename_i ht
      exact stmt_of_starter (congrArg starter? ht) rfl (afterReturn_traced _)
    · rename_i ht
      exact stmt_of_starter (congrArg starter? ht) rfl (afterRaw_traced _ _)
    · apply stmt_of_effect
      show starter? t.kind = none
      grind [starter?]
termination_by (c.size, 0)
decreasing_by all_goals exact Prod.Lex.left _ _ (Nat.lt_succ_self _)

theorem stmts_traced (c : Cursor) : (stmts c).Traced care ts (.body .stmts) := by
  rw [stmts]
  refine .look ?_
  by_cases h : c.current.kind = .closeCurly ∨ c.current.kind = .eof
  · rw [if_pos h, if_pos (show c.kind = _ ∨ c.kind = _ from h)]
    exact (expect_traced (by decide)).map _
  · rw [if_neg h, if_neg (show ¬ (c.kind = _ ∨ c.kind = _) from h)]
    exact .weaken (.bind (stmt_traced c).run fun _ d hsize => (stmts_traced d).run.map _)
termination_by (c.size, 1)
decreasing_by
  · exact Prod.Lex.right _ (by decide)
  · exact Prod.Lex.left _ _ hsize

theorem block_traced (c : Cursor) : (block c).Traced care ts (.body .block) := by
  rw [block]
  exact .bind (expect_traced (by decide)) fun _ d hsize => (stmts_traced d).run
termination_by (c.size, 2)
decreasing_by
  exact (Nat.lt_or_eq_of_le hsize).elim (Prod.Lex.left _ _) fun h =>
    h ▸ Prod.Lex.right _ (by decide)

theorem afterIf_traced (c : Cursor) : (afterIf c).Traced care ts .afterIf := by
  rw [afterIf]
  exact .bind (expr_traced .lowest c).run fun _ d hsize =>
    .bind (block_traced d).run fun _ d' hsize' => (otherwise_traced d').map _
termination_by (c.size, 3)
decreasing_by
  · exact Prod.Lex.left _ _ hsize
  · exact Prod.Lex.left _ _ (Nat.lt_of_le_of_lt hsize' hsize)

theorem otherwise_traced (c : Cursor) : (otherwise c).Traced care ts .otherwise := by
  match c with
  | ⟨[], final⟩ =>
    rw [otherwise]
    exact .look traced_done
  | ⟨t :: rest, final⟩ =>
    rw [otherwise]
    refine .lookIf (c := ⟨t :: rest, final⟩) (fun (ht : t.kind = _) => ?_) fun _ => traced_done
    exact .weaken (.afterFirst (by simp [ht]) ((afterElse_traced ⟨rest, final⟩).map _))
termination_by (c.size, 3)
decreasing_by exact Prod.Lex.left _ _ (Nat.lt_succ_self _)

theorem afterElse_traced (c : Cursor) : (afterElse c).Traced care ts .afterElse := by
  match c with
  | ⟨[], final⟩ =>
    rw [afterElse]
    exact .look (block_traced ⟨[], final⟩).run
  | ⟨t :: rest, final⟩ =>
    rw [afterElse]
    refine .lookIf (c := ⟨t :: rest, final⟩) (fun (ht : t.kind = _) => ?_) fun _ =>
      (block_traced ⟨t :: rest, final⟩).run
    have hif := afterIf_traced ⟨rest, final⟩
    exact .map (x := (afterIf ⟨rest, final⟩).afterFirst) (.run (.afterFirst (by simp [ht]) hif)) _
termination_by (c.size, 3)
decreasing_by
  · exact Prod.Lex.right _ (by decide)
  · exact Prod.Lex.left _ _ (Nat.lt_succ_self _)
  · exact Prod.Lex.right _ (by decide)

theorem afterFor_traced (c : Cursor) : (afterFor c).Traced care ts .afterFor := by
  rw [afterFor]
  refine .bind (expect_traced (by decide)) fun _ d hsize => ?_
  refine .bind (stmt_traced d).run.weaken fun _ d₁ hsize₁ => ?_
  refine .bind (expr_traced .lowest d₁).run.weaken fun _ d₂ hsize₂ => ?_
  refine .bind (expect_traced (by decide)) fun _ d₃ hsize₃ => ?_
  refine .bind (expr_traced .lowest d₃).run.weaken fun _ d₄ hsize₄ => ?_
  refine .bind (expect_traced (by decide)) fun _ d₅ hsize₅ => ?_
  exact (block_traced d₅).run.map _
termination_by (c.size, 3)
decreasing_by
  · exact (Nat.lt_or_eq_of_le hsize).elim (Prod.Lex.left _ _) fun h =>
      h ▸ Prod.Lex.right _ (by decide)
  · have h : d₅.size ≤ c.size := by omega
    exact (Nat.lt_or_eq_of_le h).elim (Prod.Lex.left _ _) fun h =>
      h ▸ Prod.Lex.right _ (by decide)

theorem afterFn_traced (c : Cursor) : (afterFn c).Traced care ts .afterFn := by
  rw [afterFn]
  refine .bind (header_traced c) fun header d hsize => ?_
  obtain ⟨name, signature⟩ := header
  exact .lookIf (fun h => traced_step (by simp [h]) rfl) fun _ => (block_traced d).run.map _
termination_by (c.size, 3)
decreasing_by
  exact (Nat.lt_or_eq_of_le hsize).elim (Prod.Lex.left _ _) fun h =>
    h ▸ Prod.Lex.right _ (by decide)
end

theorem program_traced (c : Cursor) : (program c).Traced care ts (.body .program) := by
  rw [program]
  refine .lookIf (fun _ => traced_done) fun _ => ?_
  exact .weaken (.bind (stmt_traced c).run fun _ d hsize => (program_traced d).run.map _)
termination_by c.size

/-! ### Handlers -/

/-- What a handler reads from a cursor. -/
def Handler.read : {α : Type} → Handler α → (c : Cursor) → Reading 0 α c
  | _, .expr floor, c => (Parse.expr floor c).weaken
  | _, .chain floor left, c => Parse.chain floor left c
  | _, .primary, c => (Parse.primary c).weaken
  | _, .negative, c => Parse.negative c
  | _, .grouping, c => Parse.grouping c
  | _, .binary left power, c => Parse.binary left power c
  | _, .assignment left, c => Parse.assignment left c
  | _, .call left, c => Parse.call left c
  | _, .arguments, c => Parse.arguments c
  | _, .typeName, c => Parse.typeName c
  | _, .params, c => Parse.params c
  | _, .stmt, c => (Parse.stmt c).weaken
  | _, .stmts, c => Parse.stmts c
  | _, .block, c => Parse.block c
  | _, .declaration, c => Parse.declaration c
  | _, .conditional, c => Parse.conditional c
  | _, .loop, c => Parse.loop c
  | _, .function, c => Parse.function c
  | _, .returned, c => Parse.returned c
  | _, .rawText, c => Parse.rawText c
  | _, .program, c => Parse.program c

/-- The handlers that leave a token behind whenever they succeed. -/
def Handler.gains : {α : Type} → Handler α → Bool
  | _, .expr _ | _, .stmt | _, .block => true
  | _, _ => false

theorem binary_traced (left : Expr) (power : Power) (c : Cursor) :
    (binary left power c).Traced care ts (.body (.binary left power)) := by
  unfold binary
  split
  · rename_i op hop
    exact binary_body hop (expr_traced power c.advance)
  · rename_i hop
    refine .look ?_
    rw [show c.current.kind.operator? = none from hop]
    exact traced_fail

theorem assignment_traced (left : Expr) (c : Cursor) (hc : care → c.kind ≠ .eof) :
    (assignment left c).Traced care ts (.body (.assignment left)) := by
  unfold assignment
  split
  · exact .look (.afterCurrent hc ((expr_traced .lowest c.advance).run.map _))
  · rename_i hleft
    exact assignment_refused hleft

theorem call_traced (left : Expr) (c : Cursor) (hc : care → c.kind ≠ .eof) :
    (call left c).Traced care ts (.body (.call left)) := by
  unfold call
  split
  · exact .look (.afterCurrent hc ((arguments_traced c.advance).run.map _))
  · rename_i hleft
    exact call_refused hleft

/-- **Every handler does what its code says.** -/
theorem Handler.read_traced {α : Type} (h : Handler α) (c : Cursor) (hc : care → c.kind ≠ .eof) :
    (h.read c).Traced care ts (.body h) := by
  cases h with
  | expr floor => exact expr_traced floor c
  | chain floor left => exact chain_traced floor left c
  | primary => exact primary_traced c
  | negative => exact .afterCurrent hc (afterMinus_traced _)
  | grouping => exact .afterCurrent hc (afterOpenParen_traced _)
  | binary left power => exact binary_traced left power c
  | assignment left => exact assignment_traced left c hc
  | call left => exact call_traced left c hc
  | arguments => exact arguments_traced c
  | typeName => exact typeName_traced c
  | params => exact params_traced c
  | stmt => exact stmt_traced c
  | stmts => exact stmts_traced c
  | block => exact block_traced c
  | declaration => exact .afterCurrent hc (afterLet_traced _)
  | conditional => exact .afterCurrent hc (afterIf_traced _)
  | loop => exact .afterCurrent hc (afterFor_traced _)
  | function => exact .afterCurrent hc (afterFn_traced _)
  | returned => exact .afterCurrent hc (afterReturn_traced _)
  | rawText => exact .afterCurrent hc (afterRaw_traced _ _)
  | program => exact program_traced c

/-- The braces of a block are left behind. -/
theorem block_gains {c : Cursor} {ss : List Stmt} (h : (block c).result = .ok ss) :
    (block c).cursor.size + 1 ≤ c.size := by
  obtain ⟨t, d, rfl, _, hstmts⟩ := yields_block.mp ⟨h, rfl⟩
  have hle := hstmts.size_le
  have hlt := d.size_lt_push t
  omega

theorem Handler.read_gains {α : Type} (h : Handler α) (hh : h.gains = true) {c : Cursor} {a : α}
    (ha : (h.read c).result = .ok a) : (h.read c).cursor.size + 1 ≤ c.size := by
  cases h with
  | expr floor => exact (Parse.expr floor c).progress a ha
  | stmt => exact (Parse.stmt c).progress a ha
  | block => exact block_gains ha
  | _ => cases hh

/-- The tokens that the parser goes over: those given and, if they do not end with an end of
file, one where they end. -/
def closed (ts : List Token) (file : String) : List Token :=
  (Cursor.ofTokens ts file).tokens

/-- A handler at a position of the tokens. -/
def Handler.readAt {α : Type} (h : Handler α) (ts : List Token) (file : String) (i : Nat) :
    Reading 0 α ((Cursor.ofTokens ts file).skip i) :=
  h.read ((Cursor.ofTokens ts file).skip i)

/-- **Every handler ends, at every position of all tokens.** Its instructions come to an end with
its result and where its cursor stands, in one way only; their positions never decrease and
are positions of tokens; and where it has read an expression, a statement or a block, it
stands further on. -/
theorem handlers_end {α : Type} (h : Handler α) (ts : List Token) (file : String) {i : Nat}
    (hi : i < (closed ts file).length) :
    ∃ es j, Runs (closed ts file) (.body h) i es (h.readAt ts file i).result j ∧
      (h.readAt ts file i).cursor = (Cursor.ofTokens ts file).skip j ∧
      (∀ fs r m, Runs (closed ts file) (.body h) i fs r m →
        fs = es ∧ r = (h.readAt ts file i).result ∧ m = j) ∧
      InOrder i es j ∧ j < (closed ts file).length ∧
      (h.gains = true → ∀ a, (h.readAt ts file i).result = .ok a → i < j) := by
  have hstart : ((Cursor.ofTokens ts file).skip i).At (closed ts file) i := skip_at _ hi
  have htraced : (h.readAt ts file i).Traced False (closed ts file) _ := h.read_traced _ False.elim
  obtain ⟨es, j, hrun, hj, _⟩ := htraced i hstart
  refine ⟨es, j, hrun, hj.eq_skip, fun _ _ _ h' => hrun.unique h', hrun.inOrder, hrun.lt_length hi,
    fun hh a ha => ?_⟩
  have hlt : (h.readAt ts file i).cursor.size + 1 ≤ _ := h.read_gains hh ha
  have hlen := hstart.length_eq
  have hlen' := hj.length_eq
  omega

/-- An end of file among the tokens, and none behind them. -/
def interrupted : List Token :=
  [⟨.eof, "EOF", ⟨0, 0, "a.lc"⟩⟩, ⟨.number, "1", ⟨0, 1, "a.lc"⟩⟩]

/-- A negative number read from an end of file on: the sign is skipped unseen. -/
theorem handlers_end_interrupted : 0 < (closed interrupted "a.lc").length ∧
    ∃ es j, Runs (closed interrupted "a.lc") (.body .negative) 0 es
        (Handler.negative.readAt interrupted "a.lc" 0).result j ∧
      (Handler.negative.readAt interrupted "a.lc" 0).cursor =
        (Cursor.ofTokens interrupted "a.lc").skip j ∧
      (∀ fs r m, Runs (closed interrupted "a.lc") (.body .negative) 0 fs r m →
        fs = es ∧ r = (Handler.negative.readAt interrupted "a.lc" 0).result ∧ m = j) ∧
      InOrder 0 es j ∧ j < (closed interrupted "a.lc").length ∧
      (Handler.negative.gains = true →
        ∀ a, (Handler.negative.readAt interrupted "a.lc" 0).result = .ok a → 0 < j) :=
  ⟨by decide, handlers_end .negative interrupted "a.lc" (by decide)⟩

end Parse
end LittleC
