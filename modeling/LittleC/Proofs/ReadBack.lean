import Mathlib
import LittleC.Proofs.ExprText
import LittleC.Proofs.ParseExpr
import LittleC.Proofs.Regroup
import LittleC.Proofs.Tiling
import LittleC.Proofs.Typeset

/-! Reading the text of an expression as source.

An expression that was parsed from a scanned text has names and literals that are scanned as
such again (`Expr.Readable`), so its text in C is scanned as tokens that spell an expression.
That is the expression with the grouping of source texts: parentheses stand where C needs
them, and C's levels are as fine as those of the source but for `==`, which alone can have a
looser operand on its right (`ReadsBack`).

`printed_reads_back`: the text is read to its end, and as the expression itself exactly where
no `==` has `<` or `>` on its right. -/
namespace LittleC
open Grammar

/-! ### Expressions that source texts have -/

/-- The token was scanned from a text, and is no raw text. -/
structure Token.Scanned (t : Token) : Prop where
  lexeme : t.kind ≠ .eof → ∃ w, Lexeme t.kind t.value w
  not_raw : t.kind ≠ .rawCode

namespace Token.Scanned

variable {t : Token} (h : t.Scanned)
include h

theorem lexeme_of_kind {k : TokenKind} (ht : t.kind = k) (hk : k ≠ .eof) :
    ∃ w, Lexeme k t.value w := by
  subst ht
  exact h.lexeme hk

theorem isName (ht : t.kind = .identifier) : IsName t.value := by
  obtain ⟨w, hw⟩ := h.lexeme_of_kind ht (by decide)
  cases hw with
  | name hword hfree => exact ⟨hword, reserved?_eq_none hfree⟩
  | keyword hk => simp [keywords] at hk
  | fixed hk => simp [punctuation] at hk

theorem isNumber (ht : t.kind = .number) : IsNumber t.value.toList := by
  obtain ⟨w, hw⟩ := h.lexeme_of_kind ht (by decide)
  cases hw with
  | number hnumber => exact hnumber
  | keyword hk => simp [keywords] at hk
  | fixed hk => simp [punctuation] at hk

theorem isStringBody (ht : t.kind = .string) : IsStringBody t.value.toList := by
  obtain ⟨w, hw⟩ := h.lexeme_of_kind ht (by decide)
  cases hw with
  | string hbody => exact hbody
  | keyword hk => simp [keywords] at hk
  | fixed hk => simp [punctuation] at hk

end Token.Scanned

/-- The text is a number, perhaps with a sign, and reads as the literal. -/
def IsLiteral (text : String) (e : Expr) : Prop :=
  Signed IsNumber text.toList ∧ Literal.ofText? text = some e

namespace Expr

mutual
/-- Names and literals are such as scanning and parsing give them, and there is no raw text. -/
def Readable : Expr → Prop
  | binary _ left right => left.Readable ∧ right.Readable
  | symbol name => IsName name
  | float text => IsLiteral text (float text)
  | double text => IsLiteral text (double text)
  | integer text => IsLiteral text (integer text)
  | string text => IsStringBody text.toList
  | boolean _ => True
  | call callee arguments => IsName callee ∧ ReadableAll arguments
  | assign target value => IsName target ∧ value.Readable
  | raw _ | unrecognized _ => False

def ReadableAll : List Expr → Prop
  | [] => True
  | e :: rest => e.Readable ∧ ReadableAll rest
end

theorem readable_of_isLiteral {text : String} {e : Expr} (h : IsLiteral text e) : e.Readable := by
  rcases ofText?_eq_some h.2 with rfl | rfl | rfl
  · exact h
  · exact h
  · exact h

end Expr

namespace Grammar

mutual
theorem Expression.readable {n : Nat} {ts : List Token} {e : Expr} :
    Expression n ts e → (∀ t ∈ ts, t.Scanned) → e.Readable
  | .assign hx _ hv, hts => by
    obtain ⟨hss, hvs⟩ := List.forall_mem_append.mp hts
    exact ⟨hx.readable hss, hv.readable (List.forall_mem_cons.mp hvs).2⟩
  | .binary _ hl hr, hts => by
    obtain ⟨hls, hrs⟩ := List.forall_mem_append.mp hts
    exact ⟨hl.readable hls, hr.readable (List.forall_mem_cons.mp hrs).2⟩
  | .tighter _ h, hts => h.readable hts
  | .call hf _ ha _, hts => by
    obtain ⟨hss, hrest⟩ := List.forall_mem_append.mp hts
    obtain ⟨_, hrest⟩ := List.forall_mem_cons.mp hrest
    exact ⟨hf.readable hss, ha.readable (List.forall_mem_append.mp hrest).1⟩
  | .primary h, hts => h.readable hts

theorem Primary.readable {ts : List Token} {e : Expr} :
    Primary ts e → (∀ t ∈ ts, t.Scanned) → e.Readable
  | .number ht htext, hts =>
    Expr.readable_of_isLiteral ⟨.inl ((List.forall_mem_singleton.mp hts).isNumber ht), htext⟩
  | @Primary.negative minus t e _ ht htext, hts => by
    have hnumber := (hts t (by simp)).isNumber ht
    have htoList : ("-" ++ t.value).toList = '-' :: t.value.toList := by simp
    exact Expr.readable_of_isLiteral ⟨.inr ⟨_, htoList, hnumber⟩, htext⟩
  | .name ht, hts => (List.forall_mem_singleton.mp hts).isName ht
  | .string ht, hts => (List.forall_mem_singleton.mp hts).isStringBody ht
  | .isTrue _, _ => trivial
  | .isFalse _, _ => trivial
  | .raw ht, hts => absurd ht (List.forall_mem_singleton.mp hts).not_raw
  | .group _ h _, hts =>
    h.readable (List.forall_mem_append.mp (List.forall_mem_cons.mp hts).2).1

theorem Arguments.readable {ts : List Token} {args : List Expr} :
    Arguments ts args → (∀ t ∈ ts, t.Scanned) → Expr.ReadableAll args
  | .nil, _ => trivial
  | .last h, hts => ⟨h.readable hts, trivial⟩
  | .cons h _ ha, hts => by
    obtain ⟨hfirst, hrest⟩ := List.forall_mem_append.mp hts
    exact ⟨h.readable hfirst, ha.readable (List.forall_mem_cons.mp hrest).2⟩
end

end Grammar

/-! ### Texts of expressions -/

/-- The level at which chains of the operator stand. -/
def BinaryOp.level : BinaryOp → Nat
  | equals | lessThan | greaterThan => 1
  | plus | minus => 2
  | multiply | divide => 3

/-- The token that the operator is. -/
def BinaryOp.token : BinaryOp → TokenKind × String
  | plus => (.plus, "+")
  | minus => (.dash, "-")
  | multiply => (.star, "*")
  | divide => (.slash, "/")
  | equals => (.equals, "==")
  | greaterThan => (.greater, ">")
  | lessThan => (.less, "<")

theorem BinaryOp.level_lt (op : BinaryOp) : op.level < 4 := by
  cases op <;> decide

theorem BinaryOp.level_ordering {op : BinaryOp} (h : op.isOrdering = true) :
    op.level = equals.level := by
  cases op with
  | lessThan | greaterThan => rfl
  | _ => cases h

/-! What C lets stand without parentheses in an operation is at a fitting level in source texts
too, but for a comparison by order on the right of `==`. -/

theorem BinaryOp.level_le_level {op inner : BinaryOp} (h : op.precedence ≤ inner.precedence) :
    op.level ≤ inner.level := by
  revert h
  cases op <;> cases inner <;> decide

theorem BinaryOp.level_lt_level {op inner : BinaryOp}
    (hop : op = equals → inner.isOrdering = false) (h : op.precedence < inner.precedence) :
    op.level < inner.level := by
  revert hop h
  cases op <;> cases inner <;> decide

theorem BinaryOp.token_symbol (op : BinaryOp) : op.token.2 = op.symbol := by
  cases op <;> rfl

theorem BinaryOp.token_mem (op : BinaryOp) : op.token ∈ punctuation := by
  cases op <;> decide

theorem BinaryOp.operator_level (op : BinaryOp) : Operator op.level op.token.1 op := by
  cases op <;> decide

/-- The tokens of the text spell the expression at a level. -/
def Prints (file : String) (k : Nat) (text : String) (e : Expr) : Prop :=
  ∃ ts, (∀ tokens : List Token, tokens.map Token.content = ts → Expression k tokens e) ∧
    Typeset file text.toList ts

/-- Tokens with given contents, split at one of them. -/
theorem map_content_split {tokens : List Token} {ts us : List (TokenKind × String)}
    {t : TokenKind × String} (h : tokens.map Token.content = ts ++ t :: us) :
    ∃ ls u rs, tokens = ls ++ u :: rs ∧ ls.map Token.content = ts ∧ u.kind = t.1 ∧
      rs.map Token.content = us := by
  obtain ⟨ls, back, rfl, hls, hback⟩ := List.map_eq_append_iff.mp h
  obtain ⟨u, rs, rfl, hu, hrs⟩ := List.map_eq_cons_iff.mp hback
  exact ⟨ls, u, rs, rfl, hls, congrArg Prod.fst hu, hrs⟩

/-- A single token with given contents. -/
theorem map_content_single {tokens : List Token} {k : TokenKind} {v : String}
    (h : tokens.map Token.content = [(k, v)]) :
    ∃ u : Token, tokens = [u] ∧ u.kind = k ∧ u.value = v := by
  obtain ⟨u, rfl, hu⟩ := List.map_eq_singleton_iff.mp h
  exact ⟨u, rfl, congrArg Prod.fst hu, congrArg Prod.snd hu⟩

namespace Prints

variable {file : String} {k : Nat} {text lt rt : String} {e l r : Expr}

theorem loosen {j : Nat} (h : Prints file j text e) (hk : k ≤ j) : Prints file k text e := by
  obtain ⟨ts, hts, htext⟩ := h
  exact ⟨ts, fun tokens htokens => (hts tokens htokens).loosen hk, htext⟩

theorem group (h : Prints file 0 text e) : Prints file 5 ("(" ++ text ++ ")") e := by
  obtain ⟨ts, hts, htext⟩ := h
  refine ⟨_, fun tokens htokens => ?_, by simpa using htext.wrap⟩
  obtain ⟨opening, back, rfl, hopening, hback⟩ := List.map_eq_cons_iff.mp htokens
  obtain ⟨inner, closing, rest, rfl, hinner, hclosing, hrest⟩ := map_content_split hback
  obtain rfl := List.map_eq_nil_iff.mp hrest
  exact .primary (.group (congrArg Prod.fst hopening) (hts inner hinner) hclosing)

theorem binary {op : BinaryOp} (hl : Prints file op.level lt l)
    (hr : Prints file (op.level + 1) rt r) :
    Prints file op.level (lt ++ " " ++ op.symbol ++ " " ++ rt) (.binary op l r) := by
  obtain ⟨ts, hts, hltext⟩ := hl
  obtain ⟨us, hus, hrtext⟩ := hr
  refine ⟨ts ++ op.token :: us, fun tokens htokens => ?_, ?_⟩
  · obtain ⟨ls, u, rs, rfl, hls, hu, hrs⟩ := map_content_split htokens
    exact .binary (hu ▸ op.operator_level) (hts ls hls) (hus rs hrs)
  · have := hltext.around op.token_mem hrtext
    simpa [op.token_symbol] using this

theorem name {x : String} (hx : IsName x) : Prints file 5 x (.symbol x) := by
  refine ⟨_, fun tokens htokens => ?_, .name hx.1 (ScanRule.not_mem_keywords hx.2)⟩
  obtain ⟨u, rfl, hkind, rfl⟩ := map_content_single htokens
  exact .primary (.name hkind)

theorem assign {x : String} (hx : IsName x) (h : Prints file 0 text e) :
    Prints file 0 (x ++ " = " ++ text) (.assign x e) := by
  obtain ⟨us, hus, htext⟩ := h
  refine ⟨[(.identifier, x)] ++ (.assignment, "=") :: us, fun tokens htokens => ?_, ?_⟩
  · obtain ⟨ls, u, rs, rfl, hls, hu, hrs⟩ := map_content_split htokens
    obtain ⟨v, rfl, hkind, rfl⟩ := map_content_single hls
    exact .assign (.name hkind) hu (hus rs hrs)
  · have hname : Typeset file x.toList [(.identifier, x)] := .name hx.1 (ScanRule.not_mem_keywords hx.2)
    have := hname.around (t := (.assignment, "=")) (by decide) htext
    simpa using this

theorem literal (h : IsLiteral text e) : Prints file 5 text e := by
  obtain ⟨hnumber | ⟨rest, hrest, hnumber⟩, htext⟩ := h
  · refine ⟨_, fun tokens htokens => ?_, .number hnumber⟩
    obtain ⟨u, rfl, hkind, rfl⟩ := map_content_single htokens
    exact .primary (.number hkind htext)
  · obtain rfl : text = "-" ++ String.ofList rest := by
      rw [← String.toList_inj, hrest]
      simp
    have hrest' : IsNumber (String.ofList rest).toList := by simpa using hnumber
    refine ⟨_, fun tokens htokens => ?_, .negative hrest'⟩
    obtain ⟨minus, back, rfl, hminus, hback⟩ := List.map_eq_cons_iff.mp htokens
    obtain ⟨u, rfl, hkind, hvalue⟩ := map_content_single hback
    exact .primary (.negative (congrArg Prod.fst hminus) hkind (hvalue ▸ htext))

theorem string {x : String} (hx : IsStringBody x.toList) :
    Prints file 5 ("\"" ++ x ++ "\"") (.string x) := by
  refine ⟨_, fun tokens htokens => ?_, .string hx⟩
  obtain ⟨u, rfl, hkind, rfl⟩ := map_content_single htokens
  exact .primary (.string hkind)

theorem boolean (b : Bool) : Prints file 5 (if b then "true" else "false") (.boolean b) := by
  cases b with
  | false =>
    refine ⟨_, fun tokens htokens => ?_, .keyword (t := (.kwFalse, "false")) (by decide)⟩
    obtain ⟨u, rfl, hkind, _⟩ := map_content_single htokens
    exact .primary (.isFalse hkind)
  | true =>
    refine ⟨_, fun tokens htokens => ?_, .keyword (t := (.kwTrue, "true")) (by decide)⟩
    obtain ⟨u, rfl, hkind, _⟩ := map_content_single htokens
    exact .primary (.isTrue hkind)

end Prints

/-- The tokens of a list of texts spell the arguments. -/
def PrintsAll (file : String) (texts : List String) (args : List Expr) : Prop :=
  ∃ ts, (∀ tokens : List Token, tokens.map Token.content = ts → Arguments tokens args) ∧
    Typeset file (Layout.commaList texts).toList ts

namespace PrintsAll

variable {file : String} {text : String} {texts : List String} {e : Expr} {args : List Expr}

theorem nil : PrintsAll file [] [] := by
  refine ⟨[], fun tokens htokens => ?_, .nil⟩
  obtain rfl := List.map_eq_nil_iff.mp htokens
  exact .nil

theorem single (h : Prints file 0 text e) : PrintsAll file [text] [e] := by
  obtain ⟨ts, hts, htext⟩ := h
  exact ⟨ts, fun tokens htokens => .last (hts tokens htokens),
    by simpa [Layout.commaList] using htext⟩

theorem cons {next : String} (h : Prints file 0 text e) (hall : PrintsAll file (next :: texts) args) :
    PrintsAll file (text :: next :: texts) (e :: args) := by
  obtain ⟨ts, hts, htext⟩ := h
  obtain ⟨us, hus, htexts⟩ := hall
  refine ⟨ts ++ (.comma, ",") :: us, fun tokens htokens => ?_, ?_⟩
  · obtain ⟨ls, u, rs, rfl, hls, hu, hrs⟩ := map_content_split htokens
    exact .cons (hts ls hls) hu (hus rs hrs)
  · have := htext.comma htexts
    simpa [Layout.commaList] using this

theorem call {f : String} (hf : IsName f) (hall : PrintsAll file texts args) :
    Prints file 4 (f ++ "(" ++ Layout.commaList texts ++ ")") (.call f args) := by
  obtain ⟨ts, hts, htexts⟩ := hall
  refine ⟨[(.identifier, f)] ++ (.openParen, "(") :: (ts ++ [(.closeParen, ")")]),
    fun tokens htokens => ?_, ?_⟩
  · obtain ⟨ls, opening, back, rfl, hls, hopening, hback⟩ := map_content_split htokens
    obtain ⟨u, rfl, hkind, rfl⟩ := map_content_single hls
    obtain ⟨inner, closing, rest, rfl, hinner, hclosing, hrest⟩ := map_content_split hback
    obtain rfl := List.map_eq_nil_iff.mp hrest
    exact .call (.name hkind) hopening (hts inner hinner) hclosing
  · have := htexts.call hf.1 (ScanRule.not_mem_keywords hf.2)
    simpa using this

end PrintsAll

/-! ### Operands -/

/-- The level at which the text of an expression stands. -/
def Expr.rank : Expr → Nat
  | binary op _ _ => op.level
  | assign _ _ => 0
  | call _ _ => 4
  | _ => 5

/-- An operand in its place stands at a level of that place: too loose a one is put in
parentheses. -/
theorem Prints.operand {file text : String} {e e' : Expr} {loose : Nat → Bool} {k : Nat}
    (hk : k ≤ 4)
    (hloose : ∀ op l r, e = .binary op l r → loose op.precedence = false → k ≤ op.level)
    (h : Prints file e.rank text e') : Prints file k (Expr.operandCode loose e text) e' := by
  have hparens : Prints file k ("(" ++ text ++ ")") e' :=
    (h.loosen (Nat.zero_le _)).group.loosen (by omega)
  cases e with
  | binary op l r =>
    rw [Expr.operandCode]
    cases hq : loose op.precedence with
    | true => exact hparens
    | false => exact h.loosen (hloose op l r rfl hq)
  | assign x v => exact hparens
  | call f args => exact h.loosen hk
  | _ => exact h.loosen (Nat.le_succ_of_le hk)

/-- The text of an expression on the right of `==`. -/
def Expr.beside (lt : String) (e : Expr) : String :=
  lt ++ " " ++ BinaryOp.equals.symbol ++ " " ++ operandCode (· ≤ BinaryOp.equals.precedence) e e.text

/-- On the right of `==` a comparison by order is written without parentheses, and its left
operand as if it stood there alone. -/
theorem Expr.beside_ordering {op : BinaryOp} (hop : op.isOrdering = true) (lt : String)
    (l r : Expr) : (binary op l r).beside lt =
      l.beside lt ++ " " ++ op.symbol ++ " " ++ operandCode (· ≤ op.precedence) r r.text := by
  have hprecedence : op.precedence = BinaryOp.equals.precedence + 1 := by
    cases op with
    | lessThan | greaterThan => rfl
    | _ => cases hop
  have hloose : (fun q => decide (q < op.precedence)) =
      fun q => decide (q ≤ BinaryOp.equals.precedence) := by
    funext q
    rw [hprecedence, decide_eq_decide, Nat.lt_succ_iff]
  have hopen : operandCode (· ≤ BinaryOp.equals.precedence) (binary op l r) (binary op l r).text =
      (binary op l r).text := by
    rw [operandCode, hprecedence]
    rfl
  rw [beside, hopen, text, hloose]
  simp only [beside, String.append_assoc]

/-- The text of an expression is read with the grouping of source texts, by itself and on the
right of `==`. -/
structure ReadsBack (file : String) (e : Expr) : Prop where
  alone : Prints file e.rank e.text (e.reread none)
  beside : ∀ lt left, Prints file BinaryOp.equals.level lt left →
    Prints file BinaryOp.equals.level (e.beside lt) (e.reread (some left))

namespace ReadsBack

variable {file : String} {op : BinaryOp} {e l r : Expr}

theorem left_operand (op : BinaryOp) (hl : ReadsBack file l) :
    Prints file op.level (Expr.operandCode (· < op.precedence) l l.text) (l.reread none) := by
  refine hl.alone.operand (Nat.le_of_succ_le op.level_lt) fun inner _ _ _ htight => ?_
  exact BinaryOp.level_le_level (by simpa using htight)

/-- Only on the right of `==` may an operand stand that is looser in source texts. -/
theorem right_operand (op : BinaryOp) (hop : op = .equals → r.isOrdering = false)
    (hr : Prints file r.rank r.text (r.reread none)) :
    Prints file (op.level + 1) (Expr.operandCode (· ≤ op.precedence) r r.text)
      (r.reread none) := by
  refine hr.operand op.level_lt fun inner _ _ hinner htight => ?_
  rw [hinner] at hop
  exact BinaryOp.level_lt_level hop (by simpa using htight)

/-- What is no comparison by order stays together on the right of `==`. -/
theorem of_alone (he : e.isOrdering = false) (h : Prints file e.rank e.text (e.reread none)) :
    ReadsBack file e := by
  refine ⟨h, fun lt left hleft => ?_⟩
  rw [Expr.reread_some he]
  exact hleft.binary (right_operand .equals (fun _ => he) h)

theorem equals (hl : ReadsBack file l) (hr : ReadsBack file r) :
    ReadsBack file (.binary .equals l r) := by
  refine of_alone rfl ?_
  rw [Expr.reread_equals, Expr.text]
  exact hr.beside _ _ (hl.left_operand .equals)

/-- What is on the left of `==` is compared with the first operand of the chain. -/
theorem ordering (hop : op.isOrdering = true) (hl : ReadsBack file l) (hr : ReadsBack file r) :
    ReadsBack file (.binary op l r) := by
  have hright := right_operand op (fun h => absurd hop (by simp [h, BinaryOp.isOrdering])) hr.alone
  refine ⟨?_, fun lt left hleft => ?_⟩
  · rw [Expr.reread_ordering hop, Expr.text]
    exact (hl.left_operand op).binary hright
  · have hfirst := hl.beside lt left hleft
    rw [← BinaryOp.level_ordering hop] at hfirst ⊢
    rw [Expr.reread_ordering hop, Expr.beside_ordering hop]
    exact hfirst.binary hright

theorem arithmetic (hop : op.isComparison = false) (hl : ReadsBack file l)
    (hr : ReadsBack file r) : ReadsBack file (.binary op l r) := by
  have hordering : op.isOrdering = false := by
    cases op with
    | equals | lessThan | greaterThan => cases hop
    | _ => rfl
  have hright := right_operand op (fun h => absurd hop (by simp [h, BinaryOp.isComparison])) hr.alone
  refine of_alone hordering ?_
  rw [Expr.reread_arithmetic hop, Expr.text]
  exact (hl.left_operand op).binary hright

end ReadsBack

mutual
theorem readsBack (file : String) : (e : Expr) → e.Readable → ReadsBack file e
  | .binary op l r, h => by
    have hl := readsBack file l h.1
    have hr := readsBack file r h.2
    cases op with
    | equals => exact hl.equals hr
    | lessThan | greaterThan => exact hl.ordering rfl hr
    | plus | minus | multiply | divide => exact hl.arithmetic rfl hr
  | .symbol _, h => .of_alone rfl (.name h)
  | .float _, h => .of_alone rfl (.literal h)
  | .double _, h => .of_alone rfl (.literal h)
  | .integer _, h => .of_alone rfl (.literal h)
  | .string _, h => .of_alone rfl (.string h)
  | .boolean b, _ => .of_alone rfl (.boolean b)
  | .call f args, h => .of_alone rfl (by
    rw [Expr.reread, Expr.text]
    exact (readsBackAll file args h.2).call h.1)
  | .assign x v, h => .of_alone rfl (by
    rw [Expr.reread, Expr.text]
    exact ((readsBack file v h.2).alone.loosen (Nat.zero_le _)).assign h.1)
  | .raw _, h => h.elim
  | .unrecognized _, h => h.elim

theorem readsBackAll (file : String) : (es : List Expr) → Expr.ReadableAll es →
    PrintsAll file (Expr.textAll es) (Expr.rereadAll es)
  | [], _ => .nil
  | [e], h => .single ((readsBack file e h.1).alone.loosen (Nat.zero_le _))
  | e :: e' :: rest, h =>
    .cons ((readsBack file e h.1).alone.loosen (Nat.zero_le _)) (readsBackAll file (e' :: rest) h.2)
end

/-! ### The whole text -/

/-- A text that prints an expression is scanned, and read to its end as that expression. -/
theorem Prints.reads {file text : String} {e : Expr} (h : Prints file 0 text e) :
    ∃ ts d, scan text file = .ok ts ∧
      (Parse.expr .lowest (Cursor.ofTokens ts file)).Yields e d ∧ d.ahead = [] := by
  obtain ⟨ts, hspells, htext⟩ := h
  have hscans := htext.scans [] _ ends_nil .nil 0
  rw [List.append_nil] at hscans
  cases hscan : scanFrom file 0 text.toList with
  | error e =>
    rw [hscan] at hscans
    cases hscans
  | ok tokens =>
    rw [hscan] at hscans
    have hcontent : tokens.map Token.content = ts ++ [(.eof, "EOF")] := Except.ok.inj hscans
    obtain ⟨front, final, rest, rfl, hfront, hfinal, hrest⟩ := map_content_split hcontent
    obtain rfl := List.map_eq_nil_iff.mp hrest
    have hcursor : Cursor.ofTokens (front ++ [final]) file =
        Cursor.before ⟨[], ⟨final.value, final.span⟩⟩ front := by
      simp [Cursor.ofTokens, Cursor.before, hfinal]
    refine ⟨front ++ [final], ⟨[], ⟨final.value, final.span⟩⟩, hscan, ?_, rfl⟩
    exact Parse.yields_expression.mpr ⟨front, hcursor, hspells front hfront, rfl⟩

theorem scanned_of_mem {source file : String} {ts : List Token} (h : scan source file = .ok ts)
    {t : Token} (ht : t ∈ ts) (hraw : t.kind ≠ .rawCode) : t.Scanned :=
  ⟨fun hkind => ⟨_, ((tiling_of_scan h).covered t ht hkind).2.2⟩, hraw⟩

theorem scanned_of_scan {source file : String} {ts : List Token} (h : scan source file = .ok ts)
    (hraw : ∀ t ∈ ts, t.kind ≠ .rawCode) : ∀ t ∈ ts, t.Scanned :=
  fun t ht => scanned_of_mem h ht (hraw t ht)

theorem readable_of_parse {source file : String} {ts : List Token} {c : Cursor} {e : Expr}
    (hscan : scan source file = .ok ts) (hraw : ∀ t ∈ ts, t.kind ≠ .rawCode)
    (hc : c.Follows (Cursor.ofTokens ts file)) (he : (Parse.expr .lowest c).result = .ok e) :
    e.Readable := by
  obtain ⟨us, hus, hspells, _⟩ := Parse.yields_expression.mp ⟨he, rfl⟩
  refine hspells.readable fun t ht => scanned_of_scan hscan hraw t ?_
  have hahead : t ∈ c.ahead := by
    rw [hus]
    exact List.mem_append_left _ ht
  exact Cursor.mem_of_mem_ofTokens (hc.suffix.subset hahead)

/-- **Printed expressions are read back.** The text that a parsed expression without raw text is
lowered to can be scanned, and is read to its end. What is read is that expression if no node
of it is `==` with `<` or `>` on its right, and only then. -/
theorem printed_reads_back (source file : String) (ts : List Token) (c : Cursor) (e : Expr)
    (hscan : scan source file = .ok ts) (hraw : ∀ t ∈ ts, t.kind ≠ .rawCode)
    (hc : c.Follows (Cursor.ofTokens ts file)) (he : (Parse.expr .lowest c).result = .ok e)
    (scope : Scope) (v : Lowered) (hlower : e.lower scope = .ok v) (file' : String) :
    ∃ us e' d, scan v.code file' = .ok us ∧
      (Parse.expr .lowest (Cursor.ofTokens us file')).Yields e' d ∧ d.ahead = [] ∧
      (e' = e ↔ ∀ n ∈ e.nodes, ¬ n.IsMixed) := by
  have hback := readsBack file' e (readable_of_parse hscan hraw hc he)
  obtain ⟨us, d, hus, hyields, hd⟩ := (hback.alone.loosen (Nat.zero_le _)).reads
  rw [← Expr.lower_code e hlower] at hus
  exact ⟨us, e.reread none, d, hus, hyields, hd, e.reread_eq_iff⟩

/-- A comparison by order on the right of `==`. -/
def mixed : Expr :=
  .binary .equals (.symbol "a") (.binary .lessThan (.symbol "b") (.integer "-1"))

/-- The tokens of `a == (b < -1)`. -/
def mixedTokens : List Token :=
  [⟨.identifier, "a", ⟨0, 1, "main.lc"⟩⟩, ⟨.equals, "==", ⟨2, 4, "main.lc"⟩⟩,
    ⟨.openParen, "(", ⟨5, 6, "main.lc"⟩⟩, ⟨.identifier, "b", ⟨6, 7, "main.lc"⟩⟩,
    ⟨.less, "<", ⟨8, 9, "main.lc"⟩⟩, ⟨.dash, "-", ⟨10, 11, "main.lc"⟩⟩,
    ⟨.number, "1", ⟨11, 12, "main.lc"⟩⟩, ⟨.closeParen, ")", ⟨12, 13, "main.lc"⟩⟩,
    ⟨.eof, "EOF", ⟨13, 13, "main.lc"⟩⟩]

theorem printed_reads_back_mixed :
    let start := Cursor.ofTokens mixedTokens "main.lc"
    let scope := (Scope.root.bind "a" (.value .bool)).bind "b" (.value .i32)
    scan "a == (b < -1)" "main.lc" = .ok mixedTokens ∧ (∀ t ∈ mixedTokens, t.kind ≠ .rawCode) ∧
      (Parse.expr .lowest start).result = .ok mixed ∧
      mixed.lower scope = .ok ⟨"a == b < -1", .bool⟩ ∧
      ∃ us e' d, scan "a == b < -1" "out.lc" = .ok us ∧
        (Parse.expr .lowest (Cursor.ofTokens us "out.lc")).Yields e' d ∧ d.ahead = [] ∧
        e' ≠ mixed := by
  intro start scope
  have hscan : scan "a == (b < -1)" "main.lc" = .ok mixedTokens := by cbv
  have hraw : ∀ t ∈ mixedTokens, t.kind ≠ .rawCode := by simp [mixedTokens]
  have hparse : (Parse.expr .lowest start).result = .ok mixed := by cbv
  have hlower : mixed.lower scope = .ok ⟨"a == b < -1", .bool⟩ := by rfl
  obtain ⟨us, e', d, hus, hyields, hd, hiff⟩ := printed_reads_back _ _ mixedTokens start mixed
    hscan hraw (.refl start) hparse scope _ hlower "out.lc"
  have hmixed : mixed.IsMixed := ⟨_, _, _, _, .inl rfl, rfl⟩
  refine ⟨hscan, hraw, hparse, hlower, us, e', d, hus, hyields, hd, fun hsame => ?_⟩
  exact hiff.mp hsame mixed (List.mem_cons_self ..) hmixed

end LittleC
