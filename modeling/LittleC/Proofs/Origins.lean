import LittleC.Proofs.Lookahead

/-! Where a failure of the parser comes from. `Reaches ts q j p i` says that the code `p`, started
at position `i`, comes to execute the code `q` at position `j`, everything before it having
succeeded. If `q` fails there, then so does all of `p`, with the same error (`Reaches.broken`).

`Runs.number_origin` is the other direction for one kind of failure. A number is refused only
where an operand begins with it or with a minus sign, so a run that fails for a number has
come to such an operand, and that operand is what failed. -/
namespace LittleC

/-- The error is about a number. -/
def Error.RefusesNumber (e : Error) : Prop :=
  ∃ text, e.cause = .invalidNumber text

@[simp] theorem Error.refusesNumber_located {cause : Cause} {position : Position} :
    (Error.located cause position).RefusesNumber ↔ ∃ text, cause = .invalidNumber text :=
  Iff.rfl

namespace Parse

/-! ### Code that a run comes to -/

/-- The code, started at a position, comes to execute `q` at position `j`. -/
inductive Reaches (ts : List Token) {β : Type} (q : Code β) (j : Nat) :
    {α : Type} → Code α → Nat → Prop where
  | here : Reaches ts q j q j
  | inside {α : Type} {h : Handler α} {i : Nat} : Reaches ts q j (.body h) i →
      Reaches ts q j (.run h) i
  | first {α γ : Type} {p : Code α} {k : α → Code γ} {i : Nat} : Reaches ts q j p i →
      Reaches ts q j (.andThen p k) i
  | next {α γ : Type} {p : Code α} {k : α → Code γ} {a : α} {i m : Nat} {es : List Event} :
      Runs ts p i es (.ok a) m → Reaches ts q j (k a) m → Reaches ts q j (.andThen p k) i

/-- **A failure ends the whole run.** -/
theorem Reaches.broken {ts : List Token} {α β : Type} {q : Code β} {p : Code α} {i j m : Nat}
    {es : List Event} {e : Error} (h : Reaches ts q j p i) (hq : Runs ts q j es (.error e) m) :
    ∃ fs, Runs ts p i fs (.error e) m := by
  induction h with
  | here => exact ⟨es, hq⟩
  | inside _ ih =>
    obtain ⟨fs, hrun⟩ := ih
    exact ⟨fs, .run hrun⟩
  | first _ ih =>
    obtain ⟨fs, hrun⟩ := ih
    exact ⟨fs, .broken hrun⟩
  | next hfirst _ ih =>
    obtain ⟨fs, hrun⟩ := ih
    exact ⟨_, .andThen hfirst hrun⟩

/-! ### Failures for numbers -/

/-- The handlers of operands that can be numbers. -/
def Handler.readsNumber : {α : Type} → Handler α → Bool
  | _, .primary | _, .negative => true
  | _, _ => false

theorem readsNumber_starter {kind : TokenKind} {h : Handler Stmt} (hstart : starter? kind = some h) :
    h.readsNumber = false := by
  unfold starter? at hstart
  split at hstart
  all_goals cases hstart
  all_goals rfl

/-- The code refuses no number by itself: that is left to the operands that it reads. -/
inductive Code.Lenient : {α : Type} → Code α → Prop where
  | done {α : Type} {a : α} : Lenient (.done a)
  | fail {α : Type} {e : Error} : ¬ e.RefusesNumber → Lenient (.fail e : Code α)
  | look : Lenient .look
  | advance : Lenient .advance
  | run {α : Type} {h : Handler α} : h.readsNumber = false → Lenient (.run h)
  | andThen {α β : Type} {p : Code α} {k : α → Code β} : Lenient p → (∀ a, Lenient (k a)) →
      Lenient (.andThen p k)
  | operand : Lenient Code.operand

namespace Code

theorem lenient_unexpected {α : Type} (t : Token) (message : String) :
    (unexpected t message : Code α).Lenient :=
  .fail (by simp)

theorem lenient_expect (kind : TokenKind) : (expect kind).Lenient := by
  refine .andThen .look fun t => ?_
  split
  · exact .advance
  · exact .fail (by simp)

theorem lenient_expectOr (kind : TokenKind) (message : String) :
    (expectOr kind message).Lenient := by
  refine .andThen .look fun t => ?_
  split
  · exact .advance
  · exact lenient_unexpected t message

theorem lenient_ended {α : Type} {a : α} (kind : TokenKind) :
    (expect kind >>= fun _ => done a).Lenient :=
  .andThen (lenient_expect kind) fun _ => .done

theorem lenient_effect : effect.Lenient := by
  refine .andThen .look fun t => .andThen (.run rfl) fun e => ?_
  split
  · exact lenient_ended _
  · exact lenient_ended _
  · exact lenient_unexpected t _

theorem lenient_afterLet : afterLet.Lenient :=
  .andThen (lenient_expectOr _ _) fun _ => .andThen (lenient_expectOr _ _) fun _ =>
    .andThen (.run rfl) fun _ => lenient_ended _

theorem lenient_afterReturn : afterReturn.Lenient := by
  refine .andThen .look fun t => ?_
  split
  · exact lenient_ended _
  · exact .andThen (.run rfl) fun _ => lenient_ended _

theorem lenient_afterRaw (text : String) : (afterRaw text).Lenient := by
  refine .andThen .look fun t => ?_
  split
  · exact .andThen .advance fun _ => .done
  · exact .done

theorem lenient_resultType : resultType.Lenient := by
  refine .andThen .look fun t => ?_
  split
  · exact .andThen .advance fun _ => .run rfl
  · exact .done

theorem lenient_header : header.Lenient :=
  .andThen (lenient_expectOr _ _) fun _ => .andThen (lenient_expect _) fun _ =>
    .andThen (.run rfl) fun _ => .andThen lenient_resultType fun _ => .done

theorem lenient_afterElse : afterElse.Lenient := by
  refine .andThen .look fun t => ?_
  split
  · exact .andThen (.run rfl) fun _ => .done
  · exact .run rfl

theorem lenient_otherwise : otherwise.Lenient := by
  refine .andThen .look fun t => ?_
  split
  · exact .andThen .advance fun _ => .andThen lenient_afterElse fun _ => .done
  · exact .done

theorem lenient_afterIf : afterIf.Lenient :=
  .andThen (.run rfl) fun _ => .andThen (.run rfl) fun _ => .andThen lenient_otherwise fun _ => .done

theorem lenient_afterFor : afterFor.Lenient :=
  .andThen (lenient_expect _) fun _ => .andThen (.run rfl) fun _ => .andThen (.run rfl) fun _ =>
    .andThen (lenient_expect _) fun _ => .andThen (.run rfl) fun _ =>
      .andThen (lenient_expect _) fun _ => .andThen (.run rfl) fun _ => .done

theorem lenient_afterFn : afterFn.Lenient := by
  refine .andThen lenient_header fun ⟨name, signature⟩ => .andThen .look fun t => ?_
  split
  · exact .andThen .advance fun _ => .done
  · exact .andThen (.run rfl) fun _ => .done

theorem lenient_body {α : Type} (h : Handler α) (hh : h.readsNumber = false) :
    (body h).Lenient := by
  cases h with
  | primary | negative => cases hh
  | expr floor => exact .andThen .operand fun left => .run rfl
  | chain floor left =>
    refine .andThen .look fun t => ?_
    split
    · exact .done
    · rename_i continuation _
      split
      · exact .done
      · refine .andThen (.run ?_) fun _ => .run rfl
        cases continuation <;> rfl
  | grouping => exact .andThen .advance fun _ => .andThen (.run rfl) fun _ => lenient_ended _
  | binary left power =>
    refine .andThen .look fun t => ?_
    split
    · exact .andThen .advance fun _ => .andThen (.run rfl) fun _ => .done
    · exact lenient_unexpected t _
  | assignment left =>
    refine .andThen .look fun t => ?_
    split
    · exact .andThen .advance fun _ => .andThen (.run rfl) fun _ => .done
    · exact lenient_unexpected t _
  | call left =>
    refine .andThen .look fun t => ?_
    split
    · exact .andThen .advance fun _ => .andThen (.run rfl) fun _ => .done
    · exact lenient_unexpected t _
  | arguments =>
    refine .andThen .look fun t => ?_
    split
    · exact lenient_ended _
    · refine .andThen (.run rfl) fun e => .andThen .look fun t => ?_
      split
      · exact .andThen (.run rfl) fun _ => .done
      · exact .andThen (lenient_expect _) fun _ => .andThen (.run rfl) fun _ => .done
  | typeName =>
    refine .andThen .look fun t => ?_
    split
    · refine .andThen .advance fun t => ?_
      split
      · exact .done
      · exact .fail (by simp)
    · exact lenient_unexpected t _
  | params =>
    refine .andThen .look fun t => ?_
    split
    · exact lenient_ended _
    · refine .andThen (lenient_expect _) fun _ => .andThen (lenient_expect _) fun _ =>
        .andThen (.run rfl) fun _ => .andThen .look fun t => ?_
      split
      · exact .andThen (.run rfl) fun _ => .done
      · exact .andThen (lenient_expect _) fun _ => .andThen (.run rfl) fun _ => .done
  | stmt =>
    refine .andThen .look fun t => ?_
    split
    · rename_i h hstart
      exact .run (readsNumber_starter hstart)
    · exact lenient_effect
  | stmts =>
    refine .andThen .look fun t => ?_
    split
    · exact lenient_ended _
    · exact .andThen (.run rfl) fun _ => .andThen (.run rfl) fun _ => .done
  | block => exact .andThen (lenient_expect _) fun _ => .run rfl
  | declaration => exact .andThen .advance fun _ => lenient_afterLet
  | conditional => exact .andThen .advance fun _ => lenient_afterIf
  | loop => exact .andThen .advance fun _ => lenient_afterFor
  | function => exact .andThen .advance fun _ => lenient_afterFn
  | returned => exact .andThen .advance fun _ => lenient_afterReturn
  | rawText => exact .andThen .advance fun t => lenient_afterRaw t.value
  | program =>
    refine .andThen .look fun t => ?_
    split
    · exact .done
    · exact .andThen (.run rfl) fun _ => .andThen (.run rfl) fun _ => .done

end Code

/-- **A number is refused by an operand.** A run that fails for a number has come to an operand
that is not in parentheses, and fails with its error. -/
theorem Runs.number_origin {ts : List Token} {α : Type} {p : Code α} {i j : Nat} {es : List Event}
    {r : Except Error α} (h : Runs ts p i es r j) (hp : p.Lenient) {e : Error} (hr : r = .error e)
    (he : e.RefusesNumber) :
    ∃ m t fs n, Reaches ts Code.operand m p i ∧ Runs ts Code.operand m fs (.error e) n ∧
      ts[m]? = some t ∧ t.kind ≠ .openParen := by
  induction h with
  | done => cases hr
  | look _ => cases hr
  | advance _ => cases hr
  | fail =>
    cases hr
    cases hp with
    | fail hp => exact absurd he hp
  | run hrun ih =>
    cases hp with
    | run hh =>
      obtain ⟨m, t, fs, n, hreach, hrest⟩ := ih (Code.lenient_body _ hh) hr
      exact ⟨m, t, fs, n, .inside hreach, hrest⟩
  | broken hrun ih =>
    cases hr
    cases hp with
    | andThen hp _ =>
      obtain ⟨m, t, fs, n, hreach, hrest⟩ := ih hp rfl
      exact ⟨m, t, fs, n, .first hreach, hrest⟩
    | operand => cases hrun
  | @andThen _ _ _ _ a i _ _ _ _ _ hrun hrun' _ ih' =>
    cases hp with
    | andThen _ hk =>
      obtain ⟨m, t, fs, n, hreach, hrest⟩ := ih' (hk _) hr
      exact ⟨m, t, fs, n, .next hrun hreach, hrest⟩
    | operand =>
      cases hrun with
      | look ht =>
        by_cases hopen : a.kind = .openParen
        · have hgrouping : opener? a.kind = some .grouping := by rw [hopen, opener?]
          obtain ⟨m, t, fs, n, hreach, hrest⟩ := ih' (by simp only [hgrouping]; exact .run rfl) hr
          exact ⟨m, t, fs, n, .next (.look ht) hreach, hrest⟩
        · subst hr
          exact ⟨i, a, _, _, .here, .andThen (.look ht) hrun', ht, hopen⟩

end Parse
end LittleC
