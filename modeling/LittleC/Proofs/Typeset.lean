import LittleC.Proofs.Scanning

/-! What scanning makes of the text of an expression. Operators stand between spaces there,
but parentheses, commas and the sign of a number touch what is next to them, so here a token
ends where a character stands that cannot go on with it.

A text is `Typeset` as some tokens if scanning takes it as these, whatever follows it of what
can follow an expression: a space, a comma, a closing parenthesis or nothing. The lemmas
follow the ways in which such texts are put together. -/
namespace LittleC

/-- Scanning the text gives these tokens, wherever it stands in its file. -/
def Scans (file : String) (cs : List Char) (ts : List (TokenKind × String)) : Prop :=
  ∀ offset, (scanFrom file offset cs).map (List.map Token.content) = .ok ts

namespace Scans

variable {file : String} {rest : List Char} {ts : List (TokenKind × String)}

theorem nil : Scans file [] [(.eof, "EOF")] := by
  intro offset
  rw [scanFrom]
  rfl

theorem space (h : Scans file rest ts) : Scans file (' ' :: rest) ts := by
  intro offset
  rw [scanFrom_blank file offset (by decide)]
  exact h _

/-- The first rule that matches takes a token off the text. -/
theorem token {w : List Char} {rule : ScanRule} {t : TokenKind × String} (hw : w ≠ [])
    (hfirst : ScanRule.first? (w ++ rest) = some (rule, w.length)) (htoken : rule.token? w = some t)
    (h : Scans file rest ts) : Scans file (w ++ rest) (t :: ts) := by
  intro offset
  rw [scanFrom_match file offset hw hfirst, htoken]
  have hrest := h (offset + Text.byteLength w)
  cases hscan : scanFrom file (offset + Text.byteLength w) rest with
  | error e =>
    rw [hscan] at hrest
    cases hrest
  | ok tokens =>
    rw [hscan] at hrest
    have hts : tokens.map Token.content = ts := Except.ok.inj hrest
    simp [Except.map, hts, Token.content]

/-- A sign ends where no longer one goes on. -/
theorem sign {t : TokenKind × String} (ht : t ∈ punctuation)
    (hr : ∀ c ∈ rest.head?, c ≠ '=' ∧ c ≠ '>' ∧ c ≠ '/') (h : Scans file rest ts) :
    Scans file (t.2.toList ++ rest) (t :: ts) :=
  token (Lexeme.fixed ht).ne_nil (ScanRule.first?_fixed ht hr) (by simp [ScanRule.fixed]) h

end Scans

/-! ### What can follow -/

/-- What follows, if anything, ends the expression in front of it. -/
def Ends (rest : List Char) : Prop :=
  ∀ c ∈ rest.head?, c ∈ [' ', ',', ')']

theorem ends_cons {c : Char} (h : c ∈ [' ', ',', ')']) (rest : List Char) : Ends (c :: rest) := by
  intro d hd
  cases hd
  exact h

theorem ends_nil : Ends [] := by
  intro c hc
  cases hc

theorem Ends.delimited {rest : List Char} (h : Ends rest) : C.Delimited rest := by
  have hparts : [' ', ',', ')'].all (fun c => !isPart c) = true := by decide
  intro c hc
  simpa using List.all_eq_true.mp hparts c (h c hc)

/-- No sign goes on with the character. -/
def Opens (cs : List Char) : Prop :=
  ∀ c ∈ cs.head?, c ≠ '=' ∧ c ≠ '>' ∧ c ≠ '/'

theorem Ends.opens {rest : List Char} (h : Ends rest) : Opens rest := by
  have hsigns : [' ', ',', ')'].all (fun c => c ≠ '=' ∧ c ≠ '>' ∧ c ≠ '/') = true := by decide
  intro c hc
  simpa using List.all_eq_true.mp hsigns c (h c hc)

theorem Opens.append {cs rest : List Char} (hcs : Opens cs) (hrest : Opens rest) :
    Opens (cs ++ rest) := by
  cases cs with
  | nil => exact hrest
  | cons c cs => exact hcs

/-- The text is scanned as these tokens, whatever follows that ends it. -/
structure Typeset (file : String) (cs : List Char) (ts : List (TokenKind × String)) : Prop where
  opens : Opens cs
  scans : ∀ rest us, Ends rest → Scans file rest us → Scans file (cs ++ rest) (ts ++ us)

namespace Typeset

variable {file : String} {ls rs cs : List Char} {ts us : List (TokenKind × String)}

/-! ### Single tokens -/

theorem opens_word {cs : List Char} (h : IsWord cs) : Opens cs := by
  cases cs with
  | nil => exact h.elim
  | cons c rest =>
    intro d hd
    cases hd
    refine ⟨?_, ?_, ?_⟩
    all_goals
      intro hc
      rw [IsWord, hc] at h
      exact absurd h.1 (by decide)

theorem opens_number {cs : List Char} (h : IsNumber cs) : Opens cs := by
  obtain ⟨c, rest, rfl, hdigit⟩ := h.head
  intro d hd
  cases hd
  refine ⟨?_, ?_, ?_⟩
  all_goals
    intro hc
    rw [hc] at hdigit
    exact absurd hdigit (by decide)

theorem name {x : String} (hword : IsWord x.toList) (hfree : x ∉ keywords.map Prod.snd) :
    Typeset file x.toList [(.identifier, x)] where
  opens := opens_word hword
  scans _ _ hrest h := h.token (Lexeme.name hword hfree).ne_nil
    (ScanRule.first?_word hword hrest.delimited) (by simp [ScanRule.word, reserved?_eq_none hfree])

theorem keyword {t : TokenKind × String} (ht : t ∈ keywords) : Typeset file t.2.toList [t] where
  opens := opens_word (isWord_keyword t ht)
  scans _ _ hrest h := h.token (Lexeme.keyword ht).ne_nil
    (ScanRule.first?_word (isWord_keyword t ht) hrest.delimited)
    (by simp [ScanRule.word, reserved?_keyword t ht])

theorem number {x : String} (hx : IsNumber x.toList) : Typeset file x.toList [(.number, x)] where
  opens := opens_number hx
  scans _ _ hrest h := h.token (Lexeme.number hx).ne_nil
    (ScanRule.first?_number hx hrest.delimited) (by simp [ScanRule.number])

/-- A sign touches the number after it. -/
theorem negative {x : String} (hx : IsNumber x.toList) :
    Typeset file ("-" ++ x).toList [(.dash, "-"), (.number, x)] where
  opens := by
    rw [String.toList_append]
    intro c hc
    cases hc
    decide
  scans rest us hrest h := by
    have hnumber := (number hx).scans rest us hrest h
    have hnext : Opens (x.toList ++ rest) := (opens_number hx).append hrest.opens
    rw [String.toList_append, List.append_assoc]
    exact Scans.sign (t := (.dash, "-")) (by decide) hnext hnumber

theorem string {x : String} (hx : IsStringBody x.toList) :
    Typeset file ("\"" ++ x ++ "\"").toList [(.string, x)] where
  opens := by
    simp only [String.toList_append]
    intro c hc
    cases hc
    decide
  scans rest us _ h := by
    have hfirst := ScanRule.first?_string hx rest
    have hlexeme : Scans file (('"' :: (x.toList ++ ['"'])) ++ rest) ((.string, x) :: us) :=
      h.token (Lexeme.string hx).ne_nil (by simpa using hfirst) (by simp [ScanRule.string])
    simpa using hlexeme

/-! ### Texts of several tokens -/

theorem nil : Typeset file [] [] where
  opens := by
    intro c hc
    cases hc
  scans _ _ _ h := h

/-- Two texts around a sign with a space on either side. -/
theorem around {t : TokenKind × String} (hl : Typeset file ls ts) (ht : t ∈ punctuation)
    (hr : Typeset file rs us) :
    Typeset file (ls ++ ' ' :: (t.2.toList ++ ' ' :: rs)) (ts ++ t :: us) where
  opens := hl.opens.append (ends_cons (by decide) _).opens
  scans rest ws hrest h := by
    have hright := (hr.scans rest ws hrest h).space
    have hsign := (Scans.sign ht (ends_cons (by decide) _).opens hright).space
    have := hl.scans _ _ (ends_cons (by decide) _) hsign
    simpa using this

theorem comma (hl : Typeset file ls ts) (hr : Typeset file rs us) :
    Typeset file (ls ++ ',' :: ' ' :: rs) (ts ++ (.comma, ",") :: us) where
  opens := hl.opens.append (ends_cons (by decide) _).opens
  scans rest ws hrest h := by
    have hright := (hr.scans rest ws hrest h).space
    have hsign : Scans file (',' :: ' ' :: (rs ++ rest)) ((.comma, ",") :: (us ++ ws)) :=
      Scans.sign (t := (.comma, ",")) (by decide) (ends_cons (by decide) _).opens hright
    have := hl.scans _ _ (ends_cons (by decide) _) hsign
    simpa using this

theorem wrap (h : Typeset file cs ts) :
    Typeset file ('(' :: (cs ++ [')'])) ((.openParen, "(") :: (ts ++ [(.closeParen, ")")])) where
  opens := by
    intro c hc
    cases hc
    decide
  scans rest us hrest hscans := by
    have hclose : Scans file (')' :: rest) ((.closeParen, ")") :: us) :=
      Scans.sign (t := (.closeParen, ")")) (by decide) hrest.opens hscans
    have hinner := h.scans _ _ (ends_cons (by decide) rest) hclose
    have hnext : Opens (cs ++ ')' :: rest) := h.opens.append (ends_cons (by decide) _).opens
    have : Scans file ('(' :: (cs ++ ')' :: rest))
        ((.openParen, "(") :: (ts ++ (.closeParen, ")") :: us)) :=
      Scans.sign (t := (.openParen, "(")) (by decide) hnext hinner
    simpa using this

/-- A name touches the parenthesis after it. -/
theorem call {f : String} (hword : IsWord f.toList) (hfree : f ∉ keywords.map Prod.snd)
    (h : Typeset file cs ts) :
    Typeset file (f.toList ++ '(' :: (cs ++ [')']))
      ((.identifier, f) :: (.openParen, "(") :: (ts ++ [(.closeParen, ")")])) where
  opens := (opens_word hword).append h.wrap.opens
  scans rest us hrest hscans := by
    have hparens := h.wrap.scans rest us hrest hscans
    have hdelimited : C.Delimited ('(' :: (cs ++ [')']) ++ rest) := by
      intro c hc
      cases hc
      decide
    have := hparens.token (Lexeme.name hword hfree).ne_nil (ScanRule.first?_word hword hdelimited)
      (t := (.identifier, f)) (by simp [ScanRule.word, reserved?_eq_none hfree])
    simpa using this

end Typeset
end LittleC
