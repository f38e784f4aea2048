import LittleC.Proofs.CToken

/-! What scanning makes of a text whose tokens stand apart. A token is written with its
delimiters, and a separator is white space and comments, beginning with white space so
that it ends the token in front of it.

`Lexeme.first?`: at the start of a written token, followed by white space or nothing, the
first rule that matches takes exactly that token. `scan_laidOut`: a text of tokens with
separators between them scans to these tokens and the end of file, whatever the
separators. -/
namespace LittleC

/-! ### Written tokens -/

/-- The reserved words. -/
def keywords : List (TokenKind × String) :=
  [(.kwLet, "let"), (.kwVar, "var"), (.kwFn, "fn"), (.kwReturn, "return"), (.kwIf, "if"),
   (.kwElse, "else"), (.kwFor, "for"), (.kwTrue, "true"), (.kwFalse, "false")]

/-- Operators and punctuation: the tokens with one text. -/
def punctuation : List (TokenKind × String) :=
  [(.openCurly, "\x7b"), (.closeCurly, "\x7d"), (.openParen, "("), (.closeParen, ")"),
   (.equals, "=="), (.assignment, "="), (.less, "<"), (.greater, ">"), (.semicolon, ";"),
   (.colon, ":"), (.comma, ","), (.arrow, "->"), (.plus, "+"), (.dash, "-"), (.slash, "/"),
   (.star, "*")]

/-- A token of this kind and value is written with these characters. -/
inductive Lexeme : TokenKind → String → List Char → Prop where
  | name {v : String} : IsWord v.toList → v ∉ keywords.map Prod.snd →
      Lexeme .identifier v v.toList
  | keyword {k : TokenKind} {v : String} : (k, v) ∈ keywords → Lexeme k v v.toList
  | number {v : String} : IsNumber v.toList → Lexeme .number v v.toList
  | string {v : String} : IsStringBody v.toList → Lexeme .string v ('"' :: (v.toList ++ ['"']))
  | raw {v : String} : '\x60' ∉ v.toList → Lexeme .rawCode v ('\x60' :: (v.toList ++ ['\x60']))
  | fixed {k : TokenKind} {v : String} : (k, v) ∈ punctuation → Lexeme k v v.toList

/-- White space and comments, each of which ends with its line. -/
inductive Gap : List Char → Prop where
  | nil : Gap []
  | blank {c : Char} {cs : List Char} : Text.isBlank c = true → Gap cs → Gap (c :: cs)
  | comment {body cs : List Char} : '\n' ∉ body → Gap cs →
      Gap ('/' :: '/' :: (body ++ '\n' :: cs))

/-- What comes next, if anything, is white space. -/
def StartsBlank (cs : List Char) : Prop :=
  ∀ c ∈ cs.head?, Text.isBlank c = true

/-- A gap that begins with white space. -/
structure Separator (cs : List Char) : Prop where
  gap : Gap cs
  begins : ∃ c rest, cs = c :: rest ∧ Text.isBlank c = true

/-- Tokens written one after the other, with a separator between any two. -/
inductive LaidOut : List (TokenKind × String) → List Char → Prop where
  | nil : LaidOut [] []
  | last {k : TokenKind} {v : String} {w : List Char} : Lexeme k v w → LaidOut [(k, v)] w
  | cons {k : TokenKind} {v : String} {w gap cs : List Char} {t : TokenKind × String}
      {ts : List (TokenKind × String)} : Lexeme k v w → Separator gap → LaidOut (t :: ts) cs →
      LaidOut ((k, v) :: t :: ts) (w ++ (gap ++ cs))

theorem isWord_keyword : ∀ t ∈ keywords, IsWord t.2.toList := by
  simp [keywords, IsWord, ScanRule.isWordStart, ScanRule.isWordPart]

theorem reserved?_keyword : ∀ t ∈ keywords, TokenKind.reserved? t.2 = some t.1 := by
  decide

theorem reserved?_eq_none {w : String} (h : w ∉ keywords.map Prod.snd) :
    TokenKind.reserved? w = none := by
  simp only [keywords, List.map_cons, List.map_nil, List.mem_cons, List.not_mem_nil, or_false,
    not_or] at h
  simp [TokenKind.reserved?, h]

/-! ### Characters -/

theorem isWordPart_bounds {c : Char} (h : ScanRule.isWordPart c = true) :
    48 ≤ c.toNat ∧ c.toNat ≤ 122 := by
  have hbounds : ∀ lo hi : Char, 48 ≤ lo.toNat → hi.toNat ≤ 122 →
      lo.val ≤ c.val ∧ c.val ≤ hi.val → 48 ≤ c.toNat ∧ c.toNat ≤ 122 := by
    intro lo hi hlo hhi hc
    have hlow : lo.toNat ≤ c.toNat := UInt32.le_iff_toNat_le.mp hc.1
    have hhigh : c.toNat ≤ hi.toNat := UInt32.le_iff_toNat_le.mp hc.2
    omega
  have hclasses : (((c.isUpper || c.isLower) || c.isDigit) || c == '_') = true := h
  simp only [Bool.or_eq_true, beq_iff_eq] at hclasses
  rcases hclasses with ((hupper | hlower) | hdigit) | rfl
  · exact hbounds 'A' 'Z' (by decide) (by decide) (of_decide_eq_true hupper)
  · obtain ⟨hlow, hhigh⟩ := Bool.and_eq_true_iff.mp hlower
    exact hbounds 'a' 'z' (by decide) (by decide) ⟨of_decide_eq_true hlow, of_decide_eq_true hhigh⟩
  · obtain ⟨hlow, hhigh⟩ := Bool.and_eq_true_iff.mp hdigit
    exact hbounds '0' '9' (by decide) (by decide) ⟨of_decide_eq_true hlow, of_decide_eq_true hhigh⟩
  · decide

/-- White space is below all letters and digits or above them. -/
theorem isBlank_bounds {c : Char} (h : Text.isBlank c = true) : c.toNat ≤ 32 ∨ 133 ≤ c.toNat := by
  simp only [Text.isBlank, Text.inRanges, Text.blankRanges, List.any_cons, List.any_nil,
    Bool.or_eq_true, Bool.and_eq_true, decide_eq_true_eq, Bool.or_false] at h
  omega

theorem isPart_of_isBlank {c : Char} (h : Text.isBlank c = true) : isPart c = false := by
  have hb := isBlank_bounds h
  cases hp : isPart c with
  | false => rfl
  | true =>
    simp only [isPart, Bool.or_eq_true, beq_iff_eq] at hp
    rcases hp with hw | rfl
    · have := isWordPart_bounds hw
      omega
    · exact absurd hb (by decide)

theorem StartsBlank.delimited {cs : List Char} (h : StartsBlank cs) : C.Delimited cs :=
  fun c hc => isPart_of_isBlank (h c hc)

namespace ScanRule

/-! ### How far a rule reaches -/

/-- A run of characters ends where the text does or where a character of another class
stands. -/
theorem takeWhile_append {p : Char → Bool} {w rest : List Char} (hw : ∀ c ∈ w, p c = true)
    (hr : ∀ c ∈ rest.head?, p c = false) : (w ++ rest).takeWhile p = w := by
  rw [List.takeWhile_append_of_pos hw]
  cases rest with
  | nil => simp
  | cons c cs => simp [hr c rfl]

theorem wordLength?_append {w rest : List Char} (hw : IsWord w)
    (hr : ∀ c ∈ rest.head?, isWordPart c = false) : wordLength? (w ++ rest) = some w.length := by
  cases w with
  | nil => exact hw.elim
  | cons c cs => simp [wordLength?, hw.1, takeWhile_append hw.2 hr, Nat.add_comm]

theorem takeWhile_digits {w rest : List Char} (hw : IsDigits w)
    (hr : ∀ c ∈ rest.head?, c.isDigit = false) : (w ++ rest).takeWhile Char.isDigit = w :=
  takeWhile_append hw.2 hr

theorem numberLength?_digits {whole rest : List Char} (hw : IsDigits whole)
    (hr : ∀ c ∈ rest.head?, c.isDigit = false) :
    numberLength? (whole ++ rest) = some (whole.length + fractionLength rest) := by
  have hne : whole.length ≠ 0 := by simpa using hw.1
  simp [numberLength?, takeWhile_digits hw hr, hne]

theorem fractionLength_digits {fraction rest : List Char} (hf : IsDigits fraction)
    (hr : ∀ c ∈ rest.head?, c.isDigit = false) :
    fractionLength ('.' :: (fraction ++ rest)) =
      if rest.head? = some 'f' then fraction.length + 2 else fraction.length + 1 := by
  have hne : fraction.length ≠ 0 := by simpa using hf.1
  simp [fractionLength, takeWhile_digits hf hr, hne]

theorem isDigit_of_isPart {c : Char} (h : isPart c = false) : c.isDigit = false := by
  cases hd : c.isDigit with
  | false => rfl
  | true => exact absurd (isPart_of_isDigit hd) (by simp [h])

theorem numberLength?_whole {w rest : List Char} (hw : IsDigits w)
    (hr : ∀ c ∈ rest.head?, c.isDigit = false) (hnone : fractionLength rest = 0) :
    numberLength? (w ++ rest) = some w.length := by
  rw [numberLength?_digits hw hr, hnone, Nat.add_zero]

theorem numberLength?_decimal {w rest : List Char} (hw : IsDecimal w)
    (hr : ∀ c ∈ rest.head?, c.isDigit = false) (hsuffix : rest.head? ≠ some 'f') :
    numberLength? (w ++ rest) = some w.length := by
  obtain ⟨whole, fraction, rfl, hw, hf⟩ := hw
  have hpoint : ('.' : Char).isDigit = false := by decide
  rw [List.append_assoc, List.cons_append, numberLength?_digits hw (by simp [hpoint]),
    fractionLength_digits hf hr, if_neg hsuffix]
  simp

theorem numberLength?_suffixed {w : List Char} (hw : IsSuffixed w) (rest : List Char) :
    numberLength? (w ++ rest) = some w.length := by
  obtain ⟨_, rfl, whole, fraction, rfl, hw, hf⟩ := hw
  have hpoint : ('.' : Char).isDigit = false := by decide
  have hsuffix : ∀ c ∈ ('f' :: rest).head?, c.isDigit = false := by simp
  rw [show whole ++ '.' :: fraction ++ ['f'] ++ rest = whole ++ '.' :: (fraction ++ 'f' :: rest) by
      simp, numberLength?_digits hw (by simp [hpoint]), fractionLength_digits hf hsuffix]
  simp

theorem numberLength?_append {w rest : List Char} (hw : IsNumber w) (hr : C.Delimited rest) :
    numberLength? (w ++ rest) = some w.length := by
  have hdigit : ∀ c ∈ rest.head?, c.isDigit = false := fun c hc => isDigit_of_isPart (hr c hc)
  rcases hw with hw | hw | hw
  · have hnone : fractionLength rest = 0 := by
      cases rest with
      | nil => rfl
      | cons c cs =>
        have hc : c ≠ '.' := by
          rintro rfl
          exact absurd (hr '.' rfl) (by decide)
        rw [fractionLength]
        simpa using hc
    exact numberLength?_whole hw hdigit hnone
  · refine numberLength?_decimal hw hdigit fun hf => ?_
    exact absurd (hr 'f' hf) (by decide)
  · exact numberLength?_suffixed hw rest

theorem stringTail?_append {body rest : List Char} (h : IsStringBody body) :
    stringTail? (body ++ '"' :: rest) = some (body.length + 1) := by
  induction h with
  | nil => rfl
  | escape hc _ ih => simp [stringTail?, hc, ih]
  | plain hq hs _ ih => simp [stringTail?, hs, ih]

theorem rawTail?_append {body rest : List Char} (h : '\x60' ∉ body) :
    rawTail? (body ++ '\x60' :: rest) = some (body.length + 1) := by
  induction body with
  | nil => rfl
  | cons c cs ih =>
    obtain ⟨hc, hcs⟩ : '\x60' ≠ c ∧ '\x60' ∉ cs := by simpa using h
    simp [rawTail?, hc.symm, ih hcs]

/-! ### The first rule that matches -/

theorem first?_word {w rest : List Char} (hw : IsWord w) (hr : C.Delimited rest) :
    first? (w ++ rest) = some (word, w.length) := by
  have hparts : ∀ c ∈ rest.head?, isWordPart c = false := by
    intro c hc
    have := hr c hc
    simp only [isPart, Bool.or_eq_false_iff] at this
    exact this.1
  simp [first?, all, word, wordLength?_append hw hparts]

theorem first?_number {w rest : List Char} (hw : IsNumber w) (hr : C.Delimited rest) :
    first? (w ++ rest) = some (number, w.length) := by
  have hword : wordLength? (w ++ rest) = none := by
    obtain ⟨c, cs, rfl, hc⟩ := hw.head
    simp [wordLength?, C.not_isWordStart_of_isDigit hc]
  simp [first?, all, word, number, hword, numberLength?_append hw hr]

theorem first?_blank {c : Char} (hc : Text.isBlank c = true) (cs : List Char) :
    first? (c :: cs) = some (blanks, 1 + (cs.takeWhile Text.isBlank).length) := by
  have hpart := isPart_of_isBlank hc
  have hdigit := isDigit_of_isPart hpart
  have hword : isWordStart c = false := by
    cases hw : isWordStart c with
    | false => rfl
    | true => simp [isPart, isWordPart_of_isWordStart hw] at hpart
  simp [first?, all, word, number, blanks, wordLength?, numberLength?, blankLength?, hword, hdigit,
    hc, Nat.add_comm]

theorem first?_string {body : List Char} (h : IsStringBody body) (rest : List Char) :
    first? ('"' :: (body ++ '"' :: rest)) = some (string, body.length + 2) := by
  have hword : isWordStart '"' = false := by decide
  have hdigit : Char.isDigit '"' = false := by decide
  have hblank : Text.isBlank '"' = false := by decide
  simp [first?, all, word, number, blanks, string, wordLength?, numberLength?, blankLength?,
    stringLength?, hword, hdigit, hblank, stringTail?_append h]

theorem first?_raw {body : List Char} (h : '\x60' ∉ body) (rest : List Char) :
    first? ('\x60' :: (body ++ '\x60' :: rest)) = some (raw, body.length + 2) := by
  have hword : isWordStart '\x60' = false := by decide
  have hdigit : Char.isDigit '\x60' = false := by decide
  have hblank : Text.isBlank '\x60' = false := by decide
  simp [first?, all, word, number, blanks, string, raw, wordLength?, numberLength?, blankLength?,
    stringLength?, rawLength?, hword, hdigit, hblank, rawTail?_append h]

theorem first?_comment {body rest : List Char} (h : '\n' ∉ body) :
    first? ('/' :: '/' :: (body ++ '\n' :: rest)) = some (comment, body.length + 2) := by
  have hword : isWordStart '/' = false := by decide
  have hdigit : Char.isDigit '/' = false := by decide
  have hblank : Text.isBlank '/' = false := by decide
  have hline : (body ++ '\n' :: rest).takeWhile (· != '\n') = body := by
    refine takeWhile_append (fun c hc => ?_) (by simp)
    simp only [bne_iff_ne, ne_eq]
    rintro rfl
    exact h hc
  simp [first?, all, word, number, blanks, string, raw, comment, wordLength?, numberLength?,
    blankLength?, stringLength?, rawLength?, commentLength?, hword, hdigit, hblank, hline,
    Nat.add_comm]

/-- No word, number, string or raw text and no white space begins with the character. -/
def isSign (c : Char) : Bool :=
  !isWordStart c && !c.isDigit && !Text.isBlank c && c != '"' && c != '\x60'

/-- The rules are six of their own and the signs. -/
theorem all_eq : all = [word, number, blanks, string, raw, comment] ++
    punctuation.map fun t => fixed t.1 t.2 := rfl

theorem first?_sign {c : Char} (hc : isSign c = true) {cs : List Char}
    (hcomment : commentLength? (c :: cs) = none) :
    first? (c :: cs) = punctuation.findSome? fun t =>
      (fixedLength? t.2.toList (c :: cs)).map (Prod.mk (fixed t.1 t.2)) := by
  simp only [isSign, Bool.and_eq_true, Bool.not_eq_true', bne_iff_ne, ne_eq] at hc
  obtain ⟨⟨⟨⟨hword, hdigit⟩, hblank⟩, hquote⟩, htick⟩ := hc
  have hnone : [word, number, blanks, string, raw, comment].findSome?
      (fun rule => (rule.length? (c :: cs)).map (Prod.mk rule)) = none := by
    simp [word, number, blanks, string, raw, comment, wordLength?, numberLength?, blankLength?,
      stringLength?, rawLength?, hword, hdigit, hblank, hquote, htick, hcomment]
  rw [first?, all_eq, List.findSome?_append, hnone, Option.none_or, List.findSome?_map]
  rfl

/-- Of the signs that begin a sign, the first in the list is that sign itself. -/
theorem find?_punctuation : ∀ t ∈ punctuation,
    punctuation.find? (fun u => u.2.toList.isPrefixOf t.2.toList) = some t := by
  decide

theorem isSign_punctuation : ∀ t ∈ punctuation, t.2.toList.head?.any isSign = true := by
  decide

/-- Texts that a sign could run into: the signs and the opening of a comment. -/
def openings : List String :=
  "//" :: punctuation.map Prod.snd

/-- The characters with which an opening goes on after a sign. -/
theorem openings_goOn : ∀ t ∈ punctuation, ∀ q ∈ openings,
    (q.toList.all fun c => !(t.2.toList ++ [c]).isPrefixOf q.toList || ['=', '>', '/'].elem c) =
      true := by
  decide

/-- Before a character with which no opening goes on, a sign contains all openings that
begin there. -/
theorem prefix_of_opening {t : TokenKind × String} (ht : t ∈ punctuation) {q : String}
    (hq : q ∈ openings) {rest : List Char} (hr : ∀ c ∈ rest.head?, c ≠ '=' ∧ c ≠ '>' ∧ c ≠ '/')
    (h : q.toList <+: t.2.toList ++ rest) : q.toList <+: t.2.toList := by
  rcases C.Token.length_le_or_next h with hle | ⟨c, hc, hgo⟩
  · exact List.prefix_of_prefix_length_le h (List.prefix_append _ _) hle
  · obtain ⟨heq, harrow, hslash⟩ := hr c hc
    have hnext := List.all_eq_true.mp (openings_goOn t ht q hq) c (hgo.subset (by simp))
    rw [List.isPrefixOf_iff_prefix.mpr hgo] at hnext
    simp [heq, harrow, hslash] at hnext

theorem commentLength?_eq_none {cs : List Char} (h : ¬ ['/', '/'] <+: cs) :
    commentLength? cs = none := by
  unfold commentLength?
  split
  · exact absurd ⟨_, rfl⟩ h
  · rfl

theorem not_comment_punctuation : ∀ t ∈ punctuation, ¬ ['/', '/'] <+: t.2.toList := by
  decide

/-- A sign ends before a character that no longer sign, and no comment, has there. -/
theorem first?_fixed {k : TokenKind} {v : String} (h : (k, v) ∈ punctuation) {rest : List Char}
    (hr : ∀ c ∈ rest.head?, c ≠ '=' ∧ c ≠ '>' ∧ c ≠ '/') :
    first? (v.toList ++ rest) = some (fixed k v, v.toList.length) := by
  have hcomment : commentLength? (v.toList ++ rest) = none := by
    apply commentLength?_eq_none
    intro hpre
    exact not_comment_punctuation _ h (prefix_of_opening h (q := "//") (by simp [openings]) hr hpre)
  have hfirst : first? (v.toList ++ rest) = punctuation.findSome? fun t =>
      (fixedLength? t.2.toList (v.toList ++ rest)).map (Prod.mk (fixed t.1 t.2)) := by
    obtain ⟨c, hc, hsign⟩ := Option.any_eq_true _ _ |>.mp (isSign_punctuation _ h)
    obtain ⟨cs, hcs⟩ := List.head?_eq_some_iff.mp hc
    rw [hcs] at hcomment ⊢
    exact first?_sign hsign hcomment
  obtain ⟨_, before, after, hlist, hbefore⟩ :=
    List.find?_eq_some_iff_append.mp (find?_punctuation _ h)
  rw [hfirst, List.findSome?_eq_some_iff]
  refine ⟨before, (k, v), after, hlist, by simp [fixedLength?], fun t ht => ?_⟩
  have hmem : t.2 ∈ openings := by
    rw [openings, hlist]
    simp only [List.map_append, List.mem_cons, List.mem_append, List.mem_map]
    exact .inr (.inl ⟨t, ht, rfl⟩)
  have hnot : t.2.toList.isPrefixOf (v.toList ++ rest) = false := by
    cases hpre : t.2.toList.isPrefixOf (v.toList ++ rest) with
    | false => rfl
    | true =>
      have hself := prefix_of_opening h hmem hr (List.isPrefixOf_iff_prefix.mp hpre)
      have hother := hbefore t ht
      rw [List.isPrefixOf_iff_prefix.mpr hself] at hother
      cases hother
  simp [fixedLength?, hnot]

end ScanRule

/-- **The first rule takes the whole token and nothing else**, if white space follows it
or the text ends with it. -/
theorem Lexeme.first? {k : TokenKind} {v : String} {w rest : List Char} (h : Lexeme k v w)
    (hr : StartsBlank rest) : ∃ rule : ScanRule,
      ScanRule.first? (w ++ rest) = some (rule, w.length) ∧ rule.token? w = some (k, v) := by
  cases h with
  | name hv hfree =>
    exact ⟨_, ScanRule.first?_word hv hr.delimited,
      by simp [ScanRule.word, reserved?_eq_none hfree]⟩
  | keyword hv =>
    exact ⟨_, ScanRule.first?_word (isWord_keyword _ hv) hr.delimited,
      by simp [ScanRule.word, reserved?_keyword _ hv]⟩
  | number hv => exact ⟨_, ScanRule.first?_number hv hr.delimited, by simp [ScanRule.number]⟩
  | string hv =>
    exact ⟨_, by simpa using ScanRule.first?_string hv rest, by simp [ScanRule.string]⟩
  | raw hv =>
    exact ⟨_, by simpa using ScanRule.first?_raw hv rest, by simp [ScanRule.raw]⟩
  | fixed hv =>
    refine ⟨_, ScanRule.first?_fixed hv fun c hc => ?_, by simp [ScanRule.fixed]⟩
    have hblank := hr c hc
    refine ⟨?_, ?_, ?_⟩ <;> rintro rfl <;> exact absurd hblank (by decide)

theorem Lexeme.ne_nil {k : TokenKind} {v : String} {w : List Char} (h : Lexeme k v w) : w ≠ [] := by
  cases h with
  | name hv _ =>
    intro hnil
    rw [hnil] at hv
    exact hv
  | keyword hv =>
    intro hnil
    have hword := isWord_keyword _ hv
    rw [hnil] at hword
    exact hword
  | number hv =>
    obtain ⟨c, cs, hcs, _⟩ := hv.head
    simp [hcs]
  | string _ | raw _ => simp
  | fixed hv =>
    intro hnil
    have hsign := ScanRule.isSign_punctuation _ hv
    simp [hnil] at hsign

/-! ### Scanning on -/

section
variable (file : String) (offset : Nat)

/-- Scanning takes the match of the first rule and goes on behind it. -/
theorem scanFrom_match {w rest : List Char} {rule : ScanRule} (hw : w ≠ [])
    (h : ScanRule.first? (w ++ rest) = some (rule, w.length)) :
    scanFrom file offset (w ++ rest) =
      (scanFrom file (offset + Text.byteLength w) rest).map fun tokens =>
        match rule.token? w with
        | some (kind, value) =>
          ⟨kind, value, ⟨offset, offset + Text.byteLength w, file⟩⟩ :: tokens
        | none => tokens := by
  cases w with
  | nil => exact absurd rfl hw
  | cons c cs =>
    have htake : (c :: (cs ++ rest)).take (c :: cs).length = c :: cs := by simp
    have hdrop : (cs ++ rest).drop ((c :: cs).length - 1) = rest := by simp
    rw [List.cons_append] at h ⊢
    rw [scanFrom]
    simp only [h, htake, hdrop]
    cases scanFrom file (offset + Text.byteLength (c :: cs)) rest with
    | error e => rfl
    | ok tokens => cases rule.token? (c :: cs) <;> rfl

theorem scanFrom_lexeme {k : TokenKind} {v : String} {w rest : List Char} (h : Lexeme k v w)
    (hr : StartsBlank rest) :
    scanFrom file offset (w ++ rest) =
      (scanFrom file (offset + Text.byteLength w) rest).map
        (⟨k, v, ⟨offset, offset + Text.byteLength w, file⟩⟩ :: ·) := by
  obtain ⟨rule, hfirst, htoken⟩ := h.first? hr
  rw [scanFrom_match file offset h.ne_nil hfirst, htoken]

theorem scanFrom_skipped {w rest : List Char} {rule : ScanRule} (hw : w ≠ [])
    (h : ScanRule.first? (w ++ rest) = some (rule, w.length)) (hskip : rule.token? w = none) :
    scanFrom file offset (w ++ rest) = scanFrom file (offset + Text.byteLength w) rest := by
  rw [scanFrom_match file offset hw h, hskip]
  cases scanFrom file (offset + Text.byteLength w) rest <;> rfl

theorem scanFrom_blanks {c : Char} (hc : Text.isBlank c = true) (cs : List Char) :
    scanFrom file offset (c :: cs) =
      scanFrom file (offset + Text.byteLength (c :: cs.takeWhile Text.isBlank))
        (cs.dropWhile Text.isBlank) := by
  have hsplit : c :: cs = (c :: cs.takeWhile Text.isBlank) ++ cs.dropWhile Text.isBlank := by
    rw [List.cons_append, List.takeWhile_append_dropWhile]
  have hfirst := ScanRule.first?_blank hc cs
  rw [Nat.add_comm, ← List.length_cons (a := c), hsplit] at hfirst
  rw [hsplit]
  exact scanFrom_skipped file offset (List.cons_ne_nil _ _) hfirst rfl

/-- White space is skipped character by character, although one rule takes a whole run. -/
theorem scanFrom_blank {c : Char} (hc : Text.isBlank c = true) (cs : List Char) :
    scanFrom file offset (c :: cs) = scanFrom file (offset + c.utf8Size) cs := by
  rw [scanFrom_blanks file offset hc]
  cases cs with
  | nil => rfl
  | cons d ds =>
    by_cases hd : Text.isBlank d = true
    · rw [scanFrom_blanks file _ hd, List.takeWhile_cons_of_pos hd, List.dropWhile_cons_of_pos hd]
      simp only [Text.byteLength, Nat.add_assoc]
    · rw [List.takeWhile_cons_of_neg hd, List.dropWhile_cons_of_neg hd]
      rfl

/-- A comment is skipped up to the end of its line. -/
theorem scanFrom_comment {body : List Char} (h : '\n' ∉ body) (cs : List Char) :
    scanFrom file offset ('/' :: '/' :: (body ++ '\n' :: cs)) =
      scanFrom file (offset + Text.byteLength ('/' :: '/' :: body)) ('\n' :: cs) :=
  scanFrom_skipped file offset (w := '/' :: '/' :: body) (List.cons_ne_nil _ _)
    (ScanRule.first?_comment h) rfl

/-- Scanning goes on behind a gap as if it were not there. -/
theorem scanFrom_gap {gap : List Char} (h : Gap gap) (cs : List Char) :
    scanFrom file offset (gap ++ cs) = scanFrom file (offset + Text.byteLength gap) cs := by
  induction h generalizing offset with
  | nil => rfl
  | blank hc _ ih =>
    rw [List.cons_append, scanFrom_blank file offset hc, ih, Text.byteLength, Nat.add_assoc]
  | @comment body gap hbody _ ih =>
    have hbytes : Text.byteLength ('/' :: '/' :: (body ++ '\n' :: gap)) =
        Text.byteLength ('/' :: '/' :: body) + (('\n').utf8Size + Text.byteLength gap) :=
      Text.byteLength_append ('/' :: '/' :: body) ('\n' :: gap)
    have hbreak : Text.isBlank '\n' = true := by decide
    simp only [List.cons_append, List.append_assoc]
    rw [scanFrom_comment file offset hbody, scanFrom_blank file _ hbreak, ih, hbytes]
    simp only [Nat.add_assoc]

end

/-! ### Texts of tokens -/

/-- What a token says, without its place. -/
def Token.content (t : Token) : TokenKind × String :=
  (t.kind, t.value)

/-- A written token adds itself to the tokens behind it. -/
theorem map_content_lexeme {k : TokenKind} {v : String} {w rest : List Char} (h : Lexeme k v w)
    (hr : StartsBlank rest) (file : String) (offset : Nat) {ts : List (TokenKind × String)}
    (hrest : (scanFrom file (offset + Text.byteLength w) rest).map (List.map Token.content) = .ok ts) :
    (scanFrom file offset (w ++ rest)).map (List.map Token.content) = .ok ((k, v) :: ts) := by
  rw [scanFrom_lexeme file offset h hr]
  cases hscan : scanFrom file (offset + Text.byteLength w) rest with
  | error e =>
    rw [hscan] at hrest
    cases hrest
  | ok tokens =>
    rw [hscan] at hrest
    have hts : tokens.map Token.content = ts := Except.ok.inj hrest
    simp [Except.map, hts, Token.content]

theorem scanFrom_laidOut {ts : List (TokenKind × String)} {cs : List Char} (h : LaidOut ts cs)
    (file : String) (offset : Nat) :
    (scanFrom file offset cs).map (List.map Token.content) = .ok (ts ++ [(.eof, "EOF")]) := by
  induction h generalizing offset with
  | nil =>
    rw [scanFrom]
    rfl
  | @last k v w hw =>
    have hend : (scanFrom file (offset + Text.byteLength w) []).map (List.map Token.content) =
        .ok [(.eof, "EOF")] := by
      rw [scanFrom]
      rfl
    have hblank : StartsBlank [] := by simp [StartsBlank]
    have hall := map_content_lexeme hw hblank file offset hend
    rwa [List.append_nil] at hall
  | @cons k v w gap cs t ts hw hgap _ ih =>
    have hblank : StartsBlank (gap ++ cs) := by
      obtain ⟨c, rest, rfl, hc⟩ := hgap.begins
      simpa [StartsBlank] using hc
    apply map_content_lexeme hw hblank
    rw [scanFrom_gap file _ hgap.gap]
    exact ih _

/-- **Scanning finds the tokens of a text, whatever its layout.** Tokens that are written
with a separator between any two are scanned as these tokens and the end of file. -/
theorem scan_laidOut (ts : List (TokenKind × String)) (source file : String)
    (h : LaidOut ts source.toList) :
    (scan source file).map (List.map Token.content) = .ok (ts ++ [(.eof, "EOF")]) :=
  scanFrom_laidOut h file 0

/-- Signs that would run together, a comment that holds one, and an escaped quote. -/
def crowded : String :=
  "-\t> / //=\n\"\\\"\" 1.5f"

/-- The tokens of that text. -/
def crowdedTokens : List (TokenKind × String) :=
  [(.dash, "-"), (.greater, ">"), (.slash, "/"), (.string, "\\\""), (.number, "1.5f")]

theorem laidOut_crowded : LaidOut crowdedTokens crowded.toList := by
  have hspace : Separator [' '] := ⟨.blank (by decide) .nil, ' ', [], rfl, by decide⟩
  have htab : Separator ['\t'] := ⟨.blank (by decide) .nil, '\t', [], rfl, by decide⟩
  have hcomment : Separator [' ', '/', '/', '=', '\n'] :=
    ⟨.blank (by decide) (.comment (by decide : '\n' ∉ ['=']) .nil), ' ', _, rfl, by decide⟩
  have hstring : IsStringBody "\\\"".toList := .escape (by decide) .nil
  have hnumber : IsNumber "1.5f".toList :=
    .inr (.inr ⟨['1', '.', '5'], by decide, ['1'], ['5'], by decide, ⟨by decide, by simp⟩,
      by decide, by simp⟩)
  exact .cons (.fixed (by decide)) htab <| .cons (.fixed (by decide)) hspace <|
    .cons (.fixed (by decide)) hcomment <| .cons (.string hstring) hspace <| .last (.number hnumber)

theorem scan_laidOut_crowded : LaidOut crowdedTokens crowded.toList ∧
    (scan crowded "a.lc").map (List.map Token.content) = .ok (crowdedTokens ++ [(.eof, "EOF")]) :=
  ⟨laidOut_crowded, scan_laidOut crowdedTokens crowded "a.lc" laidOut_crowded⟩

end LittleC
