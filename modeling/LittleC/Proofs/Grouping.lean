import LittleC.Proofs.CGrammar
import LittleC.Proofs.ExprText

/-! Grouping is kept in C.

The text of a well-shaped expression is read back by C as that expression: it splits into
tokens in one way, the tokens have one parse, and the parse without its parentheses is
the expression (`lower_keeps_grouping`). Parentheses go around an operand exactly where
its level is too loose for its place, and the spaces around operators keep a minus sign
away from the minus before it. -/
namespace LittleC.C

/-! ### Texts of tokens -/

/-- The text is these tokens, whatever follows that does not carry on the last of them. -/
def Written (cs : List Char) (ts : List Token) : Prop :=
  ∀ rest us, Delimited rest → Lexed rest us → Lexed (cs ++ rest) (ts ++ us)

theorem Written.lexed {cs : List Char} {ts : List Token} (h : Written cs ts) : Lexed cs ts := by
  have := h [] [] (by simp [Delimited]) .nil
  simpa using this

theorem delimited_cons {c : Char} (h : isPart c = false) (cs : List Char) : Delimited (c :: cs) := by
  intro d hd
  obtain rfl : c = d := by simpa using hd
  exact h

theorem written_word {x : String} (h : IsWord x.toList) : Written x.toList [.word x] := by
  intro rest us hr hl
  have hx : (Token.word x).IsLexeme := h
  exact .token hx (Token.longest_of_delimited hx (.inl rfl) hr) hl

theorem written_number {x : String} (h : IsNumber x.toList) : Written x.toList [.number x] := by
  intro rest us hr hl
  have hx : (Token.number x).IsLexeme := h
  exact .token hx (Token.longest_of_delimited hx (.inr rfl) hr) hl

theorem written_string {x : String} (h : IsStringBody x.toList) :
    Written ("\"" ++ x ++ "\"").toList [.string x] := by
  intro rest us _ hl
  have hx : (Token.string x).IsLexeme := h
  have := Lexed.token hx (Token.longest_string hx rest) hl
  simpa [Token.spelling] using this

/-- A sign goes with the number after it. -/
theorem written_negative {x : String} (h : IsNumber x.toList) :
    Written ("-" ++ x).toList [.mark "-", .number x] := by
  intro rest us hr hl
  have hnumber := written_number h rest us hr hl
  obtain ⟨c, cs, hc, hd⟩ := h.head
  have hs : "-" ∈ punctuators := by decide
  have hm : (Token.mark "-").IsLexeme := hs
  have := Lexed.token hm (Token.longest_mark_of_plain hs (by simp [hc, hd])) hnumber
  simpa [Token.spelling] using this

theorem lexed_spaced {s : String} (hs : s ∈ punctuators) {cs : List Char} {ts : List Token}
    (h : Lexed cs ts) : Lexed (' ' :: (s.toList ++ ' ' :: cs)) (.mark s :: ts) := by
  have hm : (Token.mark s).IsLexeme := hs
  have hl : (Token.mark s).Longest (' ' :: cs) :=
    Token.longest_mark_of_plain hs (by simp [isBlank])
  exact .blank rfl (.token hm hl (.blank rfl h))

theorem lexed_single {s : String} (hs : s ∈ ["(", ")", ","]) {cs : List Char} {ts : List Token}
    (h : Lexed cs ts) : Lexed (s.toList ++ cs) (.mark s :: ts) := by
  have hm : (Token.mark s).IsLexeme := Token.singles_punctuators s hs
  exact .token hm (Token.longest_single hs cs) h

/-- Two texts around a mark with a space on either side. -/
theorem Written.around {ls rs : List Char} {ts us : List Token} {s : String} (hl : Written ls ts)
    (hs : s ∈ punctuators) (hr : Written rs us) :
    Written (ls ++ ' ' :: (s.toList ++ ' ' :: rs)) (ts ++ .mark s :: us) := by
  intro rest ws hrest hw
  have hright := lexed_spaced hs (hr rest ws hrest hw)
  have := hl _ _ (delimited_cons (by decide) _) hright
  simpa using this

theorem Written.comma {ls rs : List Char} {ts us : List Token} (hl : Written ls ts)
    (hr : Written rs us) : Written (ls ++ ',' :: ' ' :: rs) (ts ++ .mark "," :: us) := by
  intro rest ws hrest hw
  have hright : Lexed (',' :: ' ' :: (rs ++ rest)) (.mark "," :: (us ++ ws)) :=
    lexed_single (s := ",") (by decide) (.blank rfl (hr rest ws hrest hw))
  have := hl _ _ (delimited_cons (by decide) _) hright
  simpa using this

theorem Written.wrap {cs : List Char} {ts : List Token} (h : Written cs ts) :
    Written ('(' :: (cs ++ [')'])) (.mark "(" :: (ts ++ [.mark ")"])) := by
  intro rest us _ hl
  have hclose : Lexed (')' :: rest) (.mark ")" :: us) := lexed_single (s := ")") (by decide) hl
  have hinner := h _ _ (delimited_cons (by decide) _) hclose
  have : Lexed ('(' :: (cs ++ ')' :: rest)) (.mark "(" :: (ts ++ .mark ")" :: us)) :=
    lexed_single (s := "(") (by decide) hinner
  simpa using this

theorem written_nil : Written [] [] :=
  fun _ _ _ hl => hl

theorem Written.call {f : String} (hf : IsWord f.toList) {cs : List Char} {ts : List Token}
    (h : Written cs ts) :
    Written (f.toList ++ '(' :: (cs ++ [')'])) (.word f :: .mark "(" :: (ts ++ [.mark ")"])) := by
  intro rest us hrest hl
  have := written_word hf _ _ (delimited_cons (by decide) _) (h.wrap rest us hrest hl)
  simpa using this

/-! ### Texts of expressions -/

/-- The text is a parse of the expression at a level. -/
def Renders (k : Nat) (text : String) (e : Expr) : Prop :=
  ∃ ts t, t.erase = e ∧ Derives k ts t ∧ Written text.toList ts

theorem Derives.loosen {j k : Nat} {ts : List Token} {t : Tree} (hk : k ≤ j) (hj : j ≤ 5)
    (h : Derives j ts t) : Derives k ts t := by
  induction j with
  | zero =>
    obtain rfl := Nat.le_zero.mp hk
    exact h
  | succ j ih =>
    rcases Nat.lt_or_eq_of_le hk with hlt | rfl
    · exact ih (Nat.le_of_lt_succ hlt) (Nat.le_of_succ_le hj) (.tighter hj h)
    · exact h

theorem Renders.loosen {j k : Nat} {text : String} {e : Expr} (hk : k ≤ j) (hj : j ≤ 5)
    (h : Renders j text e) : Renders k text e := by
  obtain ⟨ts, t, he, hd, hw⟩ := h
  exact ⟨ts, t, he, hd.loosen hk hj, hw⟩

theorem Renders.group {text : String} {e : Expr} (h : Renders 0 text e) :
    Renders 5 ("(" ++ text ++ ")") e := by
  obtain ⟨ts, t, he, hd, hw⟩ := h
  exact ⟨_, .group t, by simpa [Tree.erase] using he, .primary (.group hd), by simpa using hw.wrap⟩

theorem operator_of_precedence (op : BinaryOp) : Operator op.precedence op.symbol op := by
  cases op <;> decide

theorem symbol_punctuators (op : BinaryOp) : op.symbol ∈ punctuators := by
  cases op <;> decide

theorem isIdentifier_of_isName {x : String} (h : IsName x) : IsIdentifier x := by
  refine ⟨h.1, ?_⟩
  rintro b rfl
  cases b
  · exact absurd h.2 (by decide)
  · exact absurd h.2 (by decide)

/-- The level at which the text of an expression stands. -/
def levelOf : Expr → Nat
  | .binary op _ _ => op.precedence
  | .assign _ _ => 0
  | _ => 5

theorem precedence_le (op : BinaryOp) : op.precedence ≤ 5 := by
  cases op <;> decide

theorem levelOf_le (e : Expr) : levelOf e ≤ 5 := by
  cases e with
  | binary op _ _ => exact precedence_le op
  | assign _ _ => exact Nat.zero_le 5
  | _ => exact Nat.le_refl 5

/-- An operand in its place is at a level of that place: too loose a one is put in
parentheses. -/
theorem Renders.operand {e : Expr} {text : String} {loose : Nat → Bool} {k : Nat} (hk : k ≤ 5)
    (hloose : ∀ q, loose q = false → k ≤ q) (h : Renders (levelOf e) text e) :
    Renders k (Expr.operandCode loose e text) e := by
  cases e with
  | binary op l r =>
    have hop := precedence_le op
    cases hq : loose op.precedence with
    | true =>
      simp only [Expr.operandCode, hq, if_true]
      exact (h.loosen (Nat.zero_le _) hop).group.loosen hk (Nat.le_refl 5)
    | false =>
      simp only [Expr.operandCode, hq, Bool.false_eq_true, if_false]
      exact h.loosen (hloose _ hq) hop
  | assign x v => exact h.group.loosen hk (Nat.le_refl 5)
  | _ => exact h.loosen hk (Nat.le_refl 5)

theorem Renders.binary {op : BinaryOp} {l r : Expr} {lt rt : String}
    (hl : Renders op.precedence lt l) (hr : Renders (op.precedence + 1) rt r) :
    Renders op.precedence (lt ++ " " ++ op.symbol ++ " " ++ rt) (.binary op l r) := by
  obtain ⟨ts, t, rfl, hd, hw⟩ := hl
  obtain ⟨us, u, rfl, hd', hw'⟩ := hr
  exact ⟨_, .binary op t u, rfl, .binary (operator_of_precedence op) hd hd',
    by simpa using hw.around (symbol_punctuators op) hw'⟩

theorem Renders.assign {x : String} {v : Expr} {vt : String} (hx : IsName x) (hv : Renders 0 vt v) :
    Renders 0 (x ++ " = " ++ vt) (.assign x v) := by
  obtain ⟨ts, t, rfl, hd, hw⟩ := hv
  have hs : "=" ∈ punctuators := by decide
  exact ⟨_, .assign x t, rfl, .assign (isIdentifier_of_isName hx) hd,
    by simpa using (written_word hx.1).around hs hw⟩

/-- A literal of a number, with its sign if it has one. -/
theorem renders_numeral {shape : List Char → Prop} {leaf : String → Expr} {node : String → Tree}
    (hn : ∀ sign text, shape text.toList → Numeral sign text (node (sign ++ text)))
    (hleaf : ∀ text, (node text).erase = leaf text) (hshape : ∀ cs, shape cs → IsNumber cs)
    {text : String} (h : Signed shape text.toList) : Renders 5 text (leaf text) := by
  rcases h with h | ⟨rest, hrest, h⟩
  · have hnum := hn "" text h
    rw [String.empty_append] at hnum
    exact ⟨_, node text, hleaf text, .primary (.number hnum), written_number (hshape _ h)⟩
  · obtain rfl : text = "-" ++ String.ofList rest := by
      rw [← String.toList_inj, hrest]
      simp
    have h' : shape (String.ofList rest).toList := by simpa using h
    exact ⟨_, _, hleaf _, .primary (.negative (hn "-" _ h')), written_negative (hshape _ h')⟩

mutual
theorem renders_text : (e : Expr) → e.WellShaped → Renders (levelOf e) e.text e
  | .binary op l r, h => by
    have hop : op.precedence + 1 ≤ 5 := by cases op <;> decide
    have hl : Renders op.precedence (Expr.operandCode (· < op.precedence) l l.text) l :=
      (renders_text l h.1).operand (Nat.le_of_succ_le hop) fun q hq => by simpa using hq
    have hr : Renders (op.precedence + 1) (Expr.operandCode (· ≤ op.precedence) r r.text) r :=
      (renders_text r h.2).operand hop fun q hq => Nat.lt_of_not_le (by simpa using hq)
    exact hl.binary hr
  | .symbol x, h =>
    ⟨_, .name x, rfl, .primary (.name (isIdentifier_of_isName h)), written_word h.1⟩
  | .float _, h => renders_numeral (fun _ _ => .float) (fun _ => rfl) (fun _ h => .inr (.inr h)) h
  | .double _, h => renders_numeral (fun _ _ => .double) (fun _ => rfl) (fun _ h => .inr (.inl h)) h
  | .integer _, h => renders_numeral (fun _ _ => .integer) (fun _ => rfl) (fun _ h => .inl h) h
  | .string body, h => ⟨_, .string body, rfl, .primary (.string body), written_string h⟩
  | .boolean b, _ => by
    have hw : IsWord (truth b).toList := by cases b <;> simp [truth, IsWord] <;> decide
    refine ⟨_, .boolean b, rfl, .primary (.boolean b), ?_⟩
    cases b
    · exact written_word hw
    · exact written_word hw
  | .call f args, h => by
    have hf := isIdentifier_of_isName h.1
    cases args with
    | nil =>
      exact ⟨_, .call f [], rfl, .primary (.callNone hf),
        by simpa [Expr.text, Expr.textAll, Layout.commaList] using written_nil.call h.1.1⟩
    | cons e rest =>
      obtain ⟨ts, us, he, hd, hw⟩ := renders_arguments (e :: rest) (by simp) h.2
      exact ⟨_, .call f us, by rw [Tree.erase, he], .primary (.call hf hd),
        by simpa [Expr.text] using hw.call h.1.1⟩
  | .assign x v, h => by
    exact Renders.assign h.1 ((renders_text v h.2).loosen (Nat.zero_le _) (levelOf_le v))
  | .raw _, h => h.elim
  | .unrecognized _, h => h.elim

theorem renders_arguments : (es : List Expr) → es ≠ [] → Expr.WellShapedAll es →
    ∃ ts args, Tree.eraseAll args = es ∧ Arguments ts args ∧
      Written (Layout.commaList (Expr.textAll es)).toList ts
  | [], hne, _ => absurd rfl hne
  | [e], _, h => by
    obtain ⟨ts, t, he, hd, hw⟩ := (renders_text e h.1).loosen (Nat.zero_le _) (levelOf_le e)
    exact ⟨ts, [t], by rw [Tree.eraseAll, he]; rfl, .one hd,
      by simpa [Expr.textAll, Layout.commaList] using hw⟩
  | e :: e' :: es, _, h => by
    obtain ⟨ts, t, he, hd, hw⟩ := (renders_text e h.1).loosen (Nat.zero_le _) (levelOf_le e)
    obtain ⟨us, args, hes, hds, hws⟩ := renders_arguments (e' :: es) (by simp) h.2
    refine ⟨_, t :: args, by rw [Tree.eraseAll, he, hes], .more hd hds, ?_⟩
    have := hw.comma hws
    simpa [Expr.textAll, Layout.commaList] using this
end

/-- **Grouping is kept.** The text that a well-shaped expression is lowered to, in any
scope where it has a meaning, has exactly one parse in C, which is the expression. -/
theorem lower_keeps_grouping (e : Expr) (he : e.WellShaped) (scope : Scope) (v : Lowered)
    (h : e.lower scope = .ok v) : ∃ t : Tree, t.erase = e ∧ ∀ u, Parses v.code u ↔ u = t := by
  obtain ⟨ts, t, herase, hd, hw⟩ := (renders_text e he).loosen (Nat.zero_le _) (levelOf_le e)
  have hparse : Parses v.code t := ⟨ts, by rw [Expr.lower_code e h]; exact hw.lexed, hd⟩
  refine ⟨t, herase, fun u => ⟨fun hu => hu.unique hparse, ?_⟩⟩
  rintro rfl
  exact hparse

/-- A difference on the right of another, a sign after a parenthesis, and an assignment
as an operand. -/
def nestedDifference : Expr :=
  .binary .minus (.symbol "x")
    (.binary .minus (.double "-1.5") (.assign "x" (.call "f" [.integer "2", .string "a, b"])))

theorem nestedDifference_wellShaped : nestedDifference.WellShaped := by
  have hx : IsName "x" := ⟨⟨by decide, List.forall_mem_nil _⟩, by decide⟩
  have hf : IsName "f" := ⟨⟨by decide, List.forall_mem_nil _⟩, by decide⟩
  have hdouble : Signed IsDecimal "-1.5".toList :=
    .inr ⟨['1', '.', '5'], by decide, ['1'], ['5'], by decide, ⟨by decide, by simp⟩,
      by decide, by simp⟩
  have hinteger : Signed IsDigits "2".toList :=
    .inl ⟨by decide, List.forall_mem_singleton.mpr (by decide)⟩
  have hstring : IsStringBody "a, b".toList :=
    .plain (by decide) (by decide) (.plain (by decide) (by decide) (.plain (by decide) (by decide)
      (.plain (by decide) (by decide) .nil)))
  exact ⟨hx, hdouble, hx, hf, hinteger, hstring, trivial⟩

theorem lower_keeps_grouping_nestedDifference :
    let scope := (Scope.root.bind "x" (.value .f64)).bind "f"
      (.function ⟨[⟨"n", .i32⟩, ⟨"s", .string⟩], .f64⟩)
    let code := "x - (-1.5 - (x = f(2, \"a, b\")))"
    nestedDifference.WellShaped ∧ nestedDifference.lower scope = .ok ⟨code, .f64⟩ ∧
      ∃ t : Tree, t.erase = nestedDifference ∧ ∀ u, Parses code u ↔ u = t := by
  intro scope code
  have h : nestedDifference.lower scope = .ok ⟨code, .f64⟩ := by rfl
  exact ⟨nestedDifference_wellShaped, h,
    lower_keeps_grouping nestedDifference nestedDifference_wellShaped scope ⟨code, .f64⟩ h⟩

end LittleC.C
