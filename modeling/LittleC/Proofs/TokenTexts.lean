import LittleC.Proofs.LineStmts
import LittleC.Proofs.ReadBack

/-! Where the leaves of parsed programs come from. Names, literals and raw texts are the texts of
tokens, a literal perhaps with a sign in front. So what holds of the characters of those tokens
holds of the leaves (`parse_leaves`), and a character that no name or number can have is in no
leaf if it is in no string and no raw text of the source (`parsed_leaves_free`). -/
namespace LittleC

namespace Grammar
open LittleC.Stmt

/-- The kinds of tokens whose text a tree keeps. -/
def kept : List TokenKind :=
  [.identifier, .number, .string, .rawCode]

variable {Q : Char → Prop}

/-- The texts of the tokens, where a tree keeps them, have the property. -/
def TextsMade (Q : Char → Prop) (ts : List Token) : Prop :=
  ∀ t ∈ ts, t.kind ∈ kept → Made Q t.value

@[simp] theorem textsMade_cons {t : Token} {ts : List Token} :
    TextsMade Q (t :: ts) ↔ (t.kind ∈ kept → Made Q t.value) ∧ TextsMade Q ts :=
  List.forall_mem_cons

@[simp] theorem textsMade_append {ts us : List Token} :
    TextsMade Q (ts ++ us) ↔ TextsMade Q ts ∧ TextsMade Q us :=
  List.forall_mem_append

/-- The first token, if a tree keeps its text. -/
theorem TextsMade.head {t : Token} {ts : List Token} (h : TextsMade Q (t :: ts)) {k : TokenKind}
    (hk : t.kind = k) (hkept : k ∈ kept) : Made Q t.value :=
  (textsMade_cons.mp h).1 (hk ▸ hkept)

theorem made_leaves_literal {text : String} {e : Expr} (h : Literal.ofText? text = some e)
    (htext : Made Q text) : ∀ leaf ∈ e.leaves, Made Q leaf := by
  rcases ofText?_eq_some h with rfl | rfl | rfl <;> exact List.forall_mem_singleton.mpr htext

mutual
theorem Expression.leaves_made (hminus : Q '-') {n : Nat} {ts : List Token} {e : Expr} :
    Expression n ts e → TextsMade Q ts → ∀ leaf ∈ e.leaves, Made Q leaf
  | .assign hs _ hv, hts => by
    simp only [textsMade_append, textsMade_cons] at hts
    have htarget := hs.leaves_made hminus hts.1
    exact List.forall_mem_cons.mpr
      ⟨List.forall_mem_singleton.mp htarget, hv.leaves_made hminus hts.2.2⟩
  | .binary _ hl hr, hts => by
    simp only [textsMade_append, textsMade_cons] at hts
    exact List.forall_mem_append.mpr
      ⟨hl.leaves_made hminus hts.1, hr.leaves_made hminus hts.2.2⟩
  | .tighter _ h, hts => h.leaves_made hminus hts
  | .call hs _ ha _, hts => by
    simp only [textsMade_append, textsMade_cons] at hts
    have hcallee := hs.leaves_made hminus hts.1
    exact List.forall_mem_cons.mpr
      ⟨List.forall_mem_singleton.mp hcallee, ha.leaves_made hminus hts.2.2.1⟩
  | .primary h, hts => h.leaves_made hminus hts

theorem Primary.leaves_made (hminus : Q '-') {ts : List Token} {e : Expr} :
    Primary ts e → TextsMade Q ts → ∀ leaf ∈ e.leaves, Made Q leaf
  | .number ht htext, hts => made_leaves_literal htext (hts.head ht (by decide))
  | .negative _ ht htext, hts => by
    have hsign : Made Q "-" := by
      intro c hc
      rwa [List.mem_singleton.mp hc]
    exact made_leaves_literal htext (hsign.append ((textsMade_cons.mp hts).2.head ht (by decide)))
  | .name ht, hts | .string ht, hts | .raw ht, hts =>
    List.forall_mem_singleton.mpr (hts.head ht (by decide))
  | .isTrue _, _ | .isFalse _, _ => List.forall_mem_nil _
  | .group _ h _, hts => by
    simp only [textsMade_append, textsMade_cons] at hts
    exact h.leaves_made hminus hts.2.1

theorem Arguments.leaves_made (hminus : Q '-') {ts : List Token} {args : List Expr} :
    Arguments ts args → TextsMade Q ts → ∀ leaf ∈ Expr.leavesAll args, Made Q leaf
  | .nil, _ => List.forall_mem_nil _
  | .last h, hts => by
    rw [Expr.leavesAll, Expr.leavesAll, List.append_nil]
    exact h.leaves_made hminus hts
  | .cons h _ ha, hts => by
    simp only [textsMade_append, textsMade_cons] at hts
    exact List.forall_mem_append.mpr
      ⟨h.leaves_made hminus hts.1, ha.leaves_made hminus hts.2.2⟩
end

theorem Parameter.name_made {ts : List Token} {p : Param} :
    Parameter ts p → TextsMade Q ts → Made Q p.name
  | .intro hname _ _, hts => hts.head hname (by decide)

theorem Parameters.names_made {ts : List Token} {ps : List Param} :
    Parameters ts ps → TextsMade Q ts → ∀ name ∈ ps.map Param.name, Made Q name
  | .nil, _ => List.forall_mem_nil _
  | .last h, hts => List.forall_mem_singleton.mpr (h.name_made hts)
  | .cons h _ hs, hts => by
    simp only [textsMade_append, textsMade_cons] at hts
    exact List.forall_mem_cons.mpr ⟨h.name_made hts.1, hs.names_made hts.2.2⟩

theorem Header.names_made {ts : List Token} {f : String} {signature : Signature} :
    Header ts f signature → TextsMade Q ts →
    ∀ name ∈ f :: signature.params.map Param.name, Made Q name
  | .intro hname _ hps _ _, hts => by
    have hf := hts.head hname (by decide)
    simp only [textsMade_append, textsMade_cons] at hts
    exact List.forall_mem_cons.mpr ⟨hf, hps.names_made hts.2.2.1⟩

mutual
theorem Statement.leaves_made (hminus : Q '-') {ts : List Token} {s : Stmt} :
    Statement ts s → TextsMade Q ts → ∀ t ∈ s.nodes, ∀ leaf ∈ t.leaves, Made Q leaf
  | .declare _ hname _ hv _, hts => by
    have hx := (textsMade_cons.mp hts).2.head hname (by decide)
    simp only [textsMade_append, textsMade_cons] at hts
    exact (forall_nodes_leaf rfl).mpr
      (List.forall_mem_cons.mpr ⟨hx, hv.leaves_made hminus hts.2.2.2.1⟩)
  | .conditional _ hc hb, hts => by
    simp only [textsMade_append, textsMade_cons] at hts
    exact forall_nodes_conditional.mpr
      ⟨hc.leaves_made hminus hts.2.1, hb.leaves_made hminus hts.2.2, by simp⟩
  | .alternative _ hc hb _ ho, hts => by
    simp only [textsMade_append, textsMade_cons] at hts
    have hother := ho.leaves_made hminus hts.2.2.2.2
    refine forall_nodes_conditional.mpr
      ⟨hc.leaves_made hminus hts.2.1, hb.leaves_made hminus hts.2.2.1, fun ss hss => ?_⟩
    exact Option.some.inj hss ▸ hother
  | .loop _ _ hi hc _ hstep _ hb, hts => by
    simp only [textsMade_append, textsMade_cons] at hts
    obtain ⟨_, _, hits, hcts, _, hsts, _, hbts⟩ := hts
    exact forall_nodes_loop.mpr
      ⟨List.forall_mem_append.mpr ⟨hc.leaves_made hminus hcts, hstep.leaves_made hminus hsts⟩,
        hi.leaves_made hminus hits, hb.leaves_made hminus hbts⟩
  | .prototype _ _ _, _ => (forall_nodes_leaf rfl).mpr (List.forall_mem_nil _)
  | .function _ hh hb, hts => by
    simp only [textsMade_append, textsMade_cons] at hts
    exact forall_nodes_function.mpr ⟨hh.names_made hts.2.1, hb.leaves_made hminus hts.2.2⟩
  | .retNone _ _, _ => (forall_nodes_leaf rfl).mpr (List.forall_mem_nil _)
  | .ret _ hv _, hts => by
    simp only [textsMade_append, textsMade_cons] at hts
    refine (forall_nodes_leaf rfl).mpr ?_
    rw [Stmt.leaves, Option.toList_some, Expr.leavesAll, Expr.leavesAll, List.append_nil]
    exact hv.leaves_made hminus hts.2.1
  | .raw ht, hts | .rawEnded ht _, hts =>
    (forall_nodes_leaf rfl).mpr (List.forall_mem_singleton.mpr (hts.head ht (by decide)))
  | .call h _, hts | .assign h _, hts =>
    (forall_nodes_leaf rfl).mpr (h.leaves_made hminus (textsMade_append.mp hts).1)

theorem Block.leaves_made (hminus : Q '-') {ts : List Token} {body : List Stmt} :
    Block ts body → TextsMade Q ts → ∀ s ∈ body, ∀ t ∈ s.nodes, ∀ leaf ∈ t.leaves, Made Q leaf
  | .braces _ h _, hts => by
    simp only [textsMade_append, textsMade_cons] at hts
    exact h.leaves_made hminus hts.2.1

theorem Otherwise.leaves_made (hminus : Q '-') {ts : List Token} {body : List Stmt} :
    Otherwise ts body → TextsMade Q ts →
    ∀ s ∈ body, ∀ t ∈ s.nodes, ∀ leaf ∈ t.leaves, Made Q leaf
  | .block h, hts => h.leaves_made hminus hts
  | .chained h, hts => List.forall_mem_singleton.mpr (h.leaves_made hminus hts)

theorem Statements.leaves_made (hminus : Q '-') {ts : List Token} {ss : List Stmt} :
    Statements ts ss → TextsMade Q ts →
    ∀ s ∈ ss, ∀ t ∈ s.nodes, ∀ leaf ∈ t.leaves, Made Q leaf
  | .nil, _ => List.forall_mem_nil _
  | .cons h hs, hts => by
    obtain ⟨hfirst, hrest⟩ := textsMade_append.mp hts
    exact List.forall_mem_cons.mpr ⟨h.leaves_made hminus hfirst, hs.leaves_made hminus hrest⟩
end

end Grammar

/-- The leaves of a parsed program have the characters of its tokens, and minus signs. -/
theorem parse_leaves {Q : Char → Prop} (hminus : Q '-') {tokens : List Token} {file : String}
    {p : Program} (h : parse tokens file = .ok p) (htokens : Grammar.TextsMade Q tokens) :
    ∀ leaf ∈ p.leaves, Made Q leaf := by
  obtain ⟨ts, hc, hts, _⟩ := Parse.program_sound _ ⟨h, rfl⟩
  have hmade : Grammar.TextsMade Q ts := by
    intro t ht
    have hahead : t ∈ (Cursor.ofTokens tokens file).ahead := by
      rw [hc]
      exact List.mem_append_left _ ht
    exact htokens t (Cursor.mem_of_mem_ofTokens hahead)
  intro leaf hleaf
  obtain ⟨s, hs, hleaf⟩ := List.mem_flatMap.mp hleaf
  exact Stmt.forall_nodesAll.mpr (hts.leaves_made hminus hmade) s hs leaf hleaf

/-- A character that names and numbers do not have is in a leaf only where it is in a string or
in raw text. -/
theorem parsed_leaves_free {source file : String} {tokens : List Token} {p : Program} {c : Char}
    (hscan : scan source file = .ok tokens) (hparse : parseSource source file = .ok p)
    (hpart : isPart c = false) (hminus : c ≠ '-')
    (htexts : ∀ t ∈ tokens, t.kind = .string ∨ t.kind = .rawCode → c ∉ t.value.toList) :
    ∀ leaf ∈ p.leaves, c ∉ leaf.toList := by
  rw [parseSource, hscan] at hparse
  have hmade : Grammar.TextsMade (· ≠ c) tokens := by
    intro t ht hkept
    have hparts (hisPart : ∀ d ∈ t.value.toList, isPart d = true) : Made (· ≠ c) t.value := by
      rintro d hd rfl
      rw [hisPart d hd] at hpart
      cases hpart
    simp only [Grammar.kept, List.mem_cons, List.not_mem_nil, or_false] at hkept
    rcases hkept with hk | hk | hk | hk
    · exact hparts ((scanned_of_mem hscan ht (by simp [hk])).isName hk).1.isPart
    · exact hparts ((scanned_of_mem hscan ht (by simp [hk])).isNumber hk).isPart
    · exact made_ne_iff.mpr (htexts t ht (.inl hk))
    · exact made_ne_iff.mpr (htexts t ht (.inr hk))
  intro leaf hleaf
  exact made_ne_iff.mp (parse_leaves hminus.symm hparse hmade leaf hleaf)

end LittleC
