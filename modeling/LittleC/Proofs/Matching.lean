import LittleC.Proofs.Scanning

/-! What the rules of scanning match. `Takes rule w rest` says, without the rule's own
function, that the rule takes the characters `w` in front of `rest`: they have the shape of
the rule, and the rest does not go on with it.

`length?_eq_some_iff`: a rule takes what its function counts. What a rule takes is written as
a token or is skipped (`Takes.lexeme_or_skipped`), and it depends on the text only up to where
the match ends: `first?_cut` says that the first rule takes the same characters from a text
that is cut off anywhere behind them. -/
namespace LittleC
namespace ScanRule

/-- The rule takes these characters in front of a rest. -/
inductive Takes : ScanRule → List Char → List Char → Prop where
  | word {w rest : List Char} : IsWord w → (∀ c ∈ rest.head?, isWordPart c = false) →
      Takes word w rest
  | whole {w rest : List Char} : IsDigits w → (∀ c ∈ rest.head?, c.isDigit = false) →
      fractionLength rest = 0 → Takes number w rest
  | decimal {w rest : List Char} : IsDecimal w → (∀ c ∈ rest.head?, c.isDigit = false) →
      rest.head? ≠ some 'f' → Takes number w rest
  | suffixed {w rest : List Char} : IsSuffixed w → Takes number w rest
  | blanks {w rest : List Char} : w ≠ [] → (∀ c ∈ w, Text.isBlank c = true) →
      (∀ c ∈ rest.head?, Text.isBlank c = false) → Takes blanks w rest
  | string {body rest : List Char} : IsStringBody body → Takes string ('"' :: (body ++ ['"'])) rest
  | raw {body rest : List Char} : '\x60' ∉ body → Takes raw ('\x60' :: (body ++ ['\x60'])) rest
  | comment {body rest : List Char} : '\n' ∉ body → (∀ c ∈ rest.head?, c = '\n') →
      Takes comment ('/' :: '/' :: body) rest
  | fixed {t : TokenKind × String} {rest : List Char} : t ∈ punctuation →
      Takes (fixed t.1 t.2) t.2.toList rest

/-! ### What is taken is counted -/

theorem takeWhile_line {body rest : List Char} (h : '\n' ∉ body) (hr : ∀ c ∈ rest.head?, c = '\n') :
    (body ++ rest).takeWhile (· != '\n') = body := by
  refine takeWhile_append (fun c hc => ?_) fun c hc => ?_
  · simp only [bne_iff_ne, ne_eq]
    rintro rfl
    exact h hc
  · rw [hr c hc]
    rfl

theorem Takes.length?_eq {rule : ScanRule} {w rest : List Char} (h : Takes rule w rest) :
    rule.length? (w ++ rest) = some w.length := by
  cases h with
  | word hw hr => exact wordLength?_append hw hr
  | whole hw hr hnone => exact numberLength?_whole hw hr hnone
  | decimal hw hr hsuffix => exact numberLength?_decimal hw hr hsuffix
  | suffixed hw => exact numberLength?_suffixed hw rest
  | blanks hne hw hr =>
    show blankLength? (w ++ rest) = _
    simp [blankLength?, takeWhile_append hw hr, hne]
  | string hbody => simp [ScanRule.string, stringLength?, stringTail?_append hbody]
  | raw hbody => simp [ScanRule.raw, rawLength?, rawTail?_append hbody]
  | comment hbody hr =>
    simp [ScanRule.comment, commentLength?, takeWhile_line hbody hr]
    omega
  | fixed ht => simp [ScanRule.fixed, fixedLength?]

/-! ### What is counted is taken -/

/-- A text is a run of characters of a class, and a rest that does not go on with it. -/
theorem exists_run (p : Char → Bool) (cs : List Char) : ∃ w rest, cs = w ++ rest ∧
    cs.takeWhile p = w ∧ (∀ c ∈ w, p c = true) ∧ ∀ c ∈ rest.head?, p c = false := by
  refine ⟨cs.takeWhile p, cs.dropWhile p, List.takeWhile_append_dropWhile.symm, rfl,
    List.all_eq_true.mp List.all_takeWhile, fun c hc => ?_⟩
  have hhead := List.head?_dropWhile_not p cs
  rwa [Option.mem_def.mp hc] at hhead

/-- The rule takes characters of this number at the start of a text. -/
def Counts (rule : ScanRule) (cs : List Char) (n : Nat) : Prop :=
  ∃ w rest, cs = w ++ rest ∧ w.length = n ∧ Takes rule w rest

theorem counts_word {cs : List Char} {n : Nat} (h : wordLength? cs = some n) :
    Counts word cs n := by
  cases cs with
  | nil => cases h
  | cons c cs =>
    obtain ⟨w, rest, hcs, hrun, hw, hr⟩ := exists_run isWordPart cs
    simp only [wordLength?, hrun, Option.ite_none_right_eq_some, Option.some.injEq] at h
    obtain ⟨hc, rfl⟩ := h
    exact ⟨c :: w, rest, by rw [hcs, List.cons_append], Nat.add_comm .., .word ⟨hc, hw⟩ hr⟩

/-- There is no fraction, or it has digits. -/
theorem fractionLength_cases (cs : List Char) : fractionLength cs = 0 ∨
    ∃ fraction rest, cs = '.' :: (fraction ++ rest) ∧ IsDigits fraction ∧
      ∀ c ∈ rest.head?, c.isDigit = false := by
  unfold fractionLength
  split
  · rename_i cs
    obtain ⟨w, rest, hcs, hrun, hw, hr⟩ := exists_run Char.isDigit cs
    by_cases hne : w = []
    · simp [hrun, hne]
    · exact .inr ⟨w, rest, by rw [hcs], ⟨hne, hw⟩, hr⟩
  · exact .inl rfl

theorem counts_number {cs : List Char} {n : Nat} (h : numberLength? cs = some n) :
    Counts number cs n := by
  obtain ⟨w, rest, hcs, hrun, hw, hr⟩ := exists_run Char.isDigit cs
  have hne : w ≠ [] := by
    intro hnil
    simp [numberLength?, hrun, hnil] at h
  have hdigits : IsDigits w := ⟨hne, hw⟩
  rw [hcs, numberLength?_digits hdigits hr] at h
  rw [hcs]
  rcases fractionLength_cases rest with hnone | ⟨fraction, rest, rfl, hf, hr'⟩
  · exact ⟨w, rest, rfl, by simpa [hnone] using h, .whole hdigits hr hnone⟩
  · rw [fractionLength_digits hf hr'] at h
    have hdecimal : IsDecimal (w ++ '.' :: fraction) := ⟨w, fraction, rfl, hdigits, hf⟩
    by_cases hsuffix : rest.head? = some 'f'
    · obtain ⟨rest, rfl⟩ := List.head?_eq_some_iff.mp hsuffix
      refine ⟨w ++ '.' :: fraction ++ ['f'], rest, by simp, ?_, .suffixed ⟨_, rfl, hdecimal⟩⟩
      simpa [Nat.add_assoc] using h
    · refine ⟨w ++ '.' :: fraction, rest, by simp, ?_, .decimal hdecimal hr' hsuffix⟩
      simpa [hsuffix, Nat.add_assoc] using h

theorem counts_blanks {cs : List Char} {n : Nat} (h : blankLength? cs = some n) :
    Counts blanks cs n := by
  obtain ⟨w, rest, hcs, hrun, hw, hr⟩ := exists_run Text.isBlank cs
  have hne : w ≠ [] := by
    intro hnil
    simp [blankLength?, hrun, hnil] at h
  exact ⟨w, rest, hcs, by simpa [blankLength?, hrun, hne] using h, .blanks hne hw hr⟩

theorem stringTail?_eq_some {cs : List Char} {n : Nat} (h : stringTail? cs = some n) :
    ∃ body rest, cs = body ++ '"' :: rest ∧ body.length + 1 = n ∧ IsStringBody body := by
  fun_induction stringTail? cs generalizing n with
  | case1 => cases h
  | case2 rest => exact ⟨[], rest, rfl, Option.some.inj h, .nil⟩
  | case3 => cases h
  | case4 => cases h
  | case5 c cs hc ih =>
    obtain ⟨m, hm, rfl⟩ := Option.map_eq_some_iff.mp h
    obtain ⟨body, rest, rfl, rfl, hbody⟩ := ih hm
    exact ⟨'\\' :: c :: body, rest, rfl, rfl, .escape hc hbody⟩
  | case6 c cs hquote hlast hescape ih =>
    obtain ⟨m, hm, rfl⟩ := Option.map_eq_some_iff.mp h
    have hslash : c ≠ '\\' := by
      intro hc
      cases cs with
      | nil => exact hlast hc rfl
      | cons d ds => exact hescape d ds hc rfl
    obtain ⟨body, rest, rfl, rfl, hbody⟩ := ih hm
    exact ⟨c :: body, rest, rfl, rfl, .plain hquote hslash hbody⟩

theorem counts_string {cs : List Char} {n : Nat} (h : stringLength? cs = some n) :
    Counts string cs n := by
  unfold stringLength? at h
  split at h
  · obtain ⟨m, hm, rfl⟩ := Option.map_eq_some_iff.mp h
    obtain ⟨body, rest, rfl, rfl, hbody⟩ := stringTail?_eq_some hm
    exact ⟨'"' :: (body ++ ['"']), rest, by simp, by simp, .string hbody⟩
  · cases h

theorem rawTail?_eq_some {cs : List Char} {n : Nat} (h : rawTail? cs = some n) :
    ∃ body rest, cs = body ++ '\x60' :: rest ∧ body.length + 1 = n ∧ '\x60' ∉ body := by
  fun_induction rawTail? cs generalizing n with
  | case1 => cases h
  | case2 rest => exact ⟨[], rest, rfl, Option.some.inj h, by simp⟩
  | case3 c cs hc ih =>
    obtain ⟨m, hm, rfl⟩ := Option.map_eq_some_iff.mp h
    obtain ⟨body, rest, rfl, rfl, hbody⟩ := ih hm
    exact ⟨c :: body, rest, rfl, rfl, by simpa using ⟨fun h => hc h.symm, hbody⟩⟩

theorem counts_raw {cs : List Char} {n : Nat} (h : rawLength? cs = some n) :
    Counts raw cs n := by
  unfold rawLength? at h
  split at h
  · obtain ⟨m, hm, rfl⟩ := Option.map_eq_some_iff.mp h
    obtain ⟨body, rest, rfl, rfl, hbody⟩ := rawTail?_eq_some hm
    exact ⟨'\x60' :: (body ++ ['\x60']), rest, by simp, by simp, .raw hbody⟩
  · cases h

theorem counts_comment {cs : List Char} {n : Nat} (h : commentLength? cs = some n) :
    Counts comment cs n := by
  unfold commentLength? at h
  split at h
  · rename_i cs
    obtain ⟨body, rest, hcs, hrun, hbody, hr⟩ := exists_run (· != '\n') cs
    rw [hrun] at h
    refine ⟨'/' :: '/' :: body, rest, by rw [hcs]; rfl, ?_, .comment ?_ fun c hc => ?_⟩
    · have hn : 2 + body.length = n := Option.some.inj h
      simp only [List.length_cons]
      omega
    · intro hmem
      simpa using hbody '\n' hmem
    · simpa using hr c hc
  · cases h

theorem counts_fixed {t : TokenKind × String} (ht : t ∈ punctuation) {cs : List Char} {n : Nat}
    (h : fixedLength? t.2.toList cs = some n) : Counts (fixed t.1 t.2) cs n := by
  simp only [fixedLength?, Option.ite_none_right_eq_some, Option.some.injEq] at h
  obtain ⟨hpre, hn⟩ := h
  obtain ⟨rest, hrest⟩ := List.isPrefixOf_iff_prefix.mp hpre
  exact ⟨t.2.toList, rest, hrest.symm, hn, .fixed ht⟩

/-- A rule of the list counts the characters that it takes. -/
theorem length?_eq_some_iff {rule : ScanRule} (hrule : rule ∈ all) {cs : List Char} {n : Nat} :
    rule.length? cs = some n ↔ Counts rule cs n := by
  constructor
  · intro h
    rw [all_eq, List.mem_append, List.mem_map] at hrule
    simp only [List.mem_cons, List.not_mem_nil, or_false] at hrule
    rcases hrule with (rfl | rfl | rfl | rfl | rfl | rfl) | ⟨t, ht, rfl⟩
    · exact counts_word h
    · exact counts_number h
    · exact counts_blanks h
    · exact counts_string h
    · exact counts_raw h
    · exact counts_comment h
    · exact counts_fixed ht h
  · rintro ⟨w, rest, rfl, rfl, h⟩
    exact h.length?_eq

/-! ### What becomes of a match -/

/-- Text in front of a rest that makes no token: white space, or a comment up to the end of
its line. -/
inductive Skipped (rest : List Char) : List Char → Prop where
  | blanks {w : List Char} : w ≠ [] → (∀ c ∈ w, Text.isBlank c = true) → Skipped rest w
  | comment {body : List Char} : '\n' ∉ body → (∀ c ∈ rest.head?, c = '\n') →
      Skipped rest ('/' :: '/' :: body)

theorem reserved?_eq_some {v : String} {k : TokenKind} (h : TokenKind.reserved? v = some k) :
    (k, v) ∈ keywords := by
  by_cases hv : v ∈ keywords.map Prod.snd
  · obtain ⟨t, ht, rfl⟩ := List.mem_map.mp hv
    rw [reserved?_keyword t ht] at h
    exact Option.some.inj h ▸ ht
  · rw [reserved?_eq_none hv] at h
    cases h

theorem not_mem_keywords {v : String} (h : TokenKind.reserved? v = none) :
    v ∉ keywords.map Prod.snd := by
  intro hv
  obtain ⟨t, ht, rfl⟩ := List.mem_map.mp hv
  rw [reserved?_keyword t ht] at h
  cases h

theorem lexeme_word {w : List Char} (hw : IsWord w) :
    ∃ k v, word.token? w = some (k, v) ∧ Lexeme k v w := by
  refine ⟨_, String.ofList w, rfl, ?_⟩
  have hword : IsWord (String.ofList w).toList := by rwa [String.toList_ofList]
  cases h : TokenKind.reserved? (String.ofList w) with
  | none =>
    have := Lexeme.name hword (not_mem_keywords h)
    rwa [String.toList_ofList] at this
  | some k =>
    have := Lexeme.keyword (reserved?_eq_some h)
    rwa [String.toList_ofList] at this

/-- A match is written as a token, or it is skipped. -/
theorem Takes.lexeme_or_skipped {rule : ScanRule} {w rest : List Char} (h : Takes rule w rest) :
    (∃ k v, rule.token? w = some (k, v) ∧ Lexeme k v w) ∨
      rule.token? w = none ∧ Skipped rest w := by
  have hnumber : ∀ w, IsNumber w → ∃ k v, number.token? w = some (k, v) ∧ Lexeme k v w := by
    intro w hw
    have := Lexeme.number (v := String.ofList w) (by rwa [String.toList_ofList])
    rw [String.toList_ofList] at this
    exact ⟨_, _, rfl, this⟩
  cases h with
  | word hw _ => exact .inl (lexeme_word hw)
  | whole hw _ _ => exact .inl (hnumber w (.inl hw))
  | decimal hw _ _ => exact .inl (hnumber w (.inr (.inl hw)))
  | suffixed hw => exact .inl (hnumber w (.inr (.inr hw)))
  | blanks hne hw _ => exact .inr ⟨rfl, .blanks hne hw⟩
  | @string body _ hbody =>
    have := Lexeme.string (v := String.ofList body) (by rwa [String.toList_ofList])
    rw [String.toList_ofList] at this
    exact .inl ⟨.string, String.ofList body, by simp [ScanRule.string], this⟩
  | @raw body _ hbody =>
    have := Lexeme.raw (v := String.ofList body) (by rwa [String.toList_ofList])
    rw [String.toList_ofList] at this
    exact .inl ⟨.rawCode, String.ofList body, by simp [ScanRule.raw], this⟩
  | comment hbody hr => exact .inr ⟨rfl, .comment hbody hr⟩
  | @fixed t _ ht => exact .inl ⟨t.1, t.2, by simp [ScanRule.fixed], .fixed ht⟩

/-! ### Texts that are cut off -/

theorem head?_cut {a b : List Char} (h : a <+: b) {c : Char} (hc : c ∈ a.head?) :
    c ∈ b.head? := by
  obtain ⟨more, rfl⟩ := h
  obtain ⟨cs, rfl⟩ := List.head?_eq_some_iff.mp hc
  rfl

theorem fractionLength_pos {c : Char} (hc : c.isDigit = true) (cs : List Char) :
    0 < fractionLength ('.' :: c :: cs) := by
  simp only [fractionLength, List.takeWhile_cons_of_pos hc, List.length_cons]
  split
  · omega
  · split <;> omega

/-- Where a longer text has no fraction, a shorter one has none. -/
theorem fractionLength_cut {a b : List Char} (h : a <+: b) (hb : fractionLength b = 0) :
    fractionLength a = 0 := by
  rcases fractionLength_cases a with ha | ⟨fraction, rest, rfl, hf, _⟩
  · exact ha
  · obtain ⟨more, rfl⟩ := h
    obtain ⟨c, cs, rfl, hc⟩ := hf.head
    have hpos := fractionLength_pos hc (cs ++ rest ++ more)
    exact absurd hb (Nat.ne_of_gt hpos)

/-- A rule takes the same characters if less of the rest is there. -/
theorem Takes.cut {rule : ScanRule} {w rest short : List Char} (h : Takes rule w rest)
    (hshort : short <+: rest) : Takes rule w short := by
  cases h with
  | word hw hr => exact .word hw fun c hc => hr c (head?_cut hshort hc)
  | whole hw hr hnone =>
    exact .whole hw (fun c hc => hr c (head?_cut hshort hc)) (fractionLength_cut hshort hnone)
  | decimal hw hr hsuffix =>
    exact .decimal hw (fun c hc => hr c (head?_cut hshort hc)) fun hf =>
      hsuffix (head?_cut hshort hf)
  | suffixed hw => exact .suffixed hw
  | blanks hne hw hr => exact .blanks hne hw fun c hc => hr c (head?_cut hshort hc)
  | string hbody => exact .string hbody
  | raw hbody => exact .raw hbody
  | comment hbody hr => exact .comment hbody fun c hc => hr c (head?_cut hshort hc)
  | fixed ht => exact .fixed ht

theorem numberLength?_isSome {w : List Char} (hw : IsNumber w) (more : List Char) :
    (numberLength? (w ++ more)).isSome := by
  obtain ⟨c, cs, rfl, hc⟩ := hw.head
  simp [numberLength?, hc]

/-- Whatever follows what a rule takes, the rule matches something there. -/
theorem Takes.isSome {rule : ScanRule} {w rest : List Char} (h : Takes rule w rest)
    (more : List Char) : (rule.length? (w ++ more)).isSome := by
  cases h with
  | word hw _ =>
    cases w with
    | nil => exact hw.elim
    | cons c cs => simp [ScanRule.word, wordLength?, hw.1]
  | whole hw _ _ => exact numberLength?_isSome (.inl hw) more
  | decimal hw _ _ => exact numberLength?_isSome (.inr (.inl hw)) more
  | suffixed hw => exact numberLength?_isSome (.inr (.inr hw)) more
  | blanks hne hw _ =>
    cases w with
    | nil => exact absurd rfl hne
    | cons c cs => simp [ScanRule.blanks, blankLength?, hw c (List.mem_cons_self ..)]
  | string hbody =>
    have hany : Takes ScanRule.string _ more := .string hbody
    rw [hany.length?_eq]
    rfl
  | raw hbody =>
    have hany : Takes ScanRule.raw _ more := .raw hbody
    rw [hany.length?_eq]
    rfl
  | comment _ _ => simp [ScanRule.comment, commentLength?]
  | fixed ht =>
    have hany : Takes _ _ more := .fixed ht
    rw [hany.length?_eq]
    rfl

/-- A rule that matches nothing at the start of a text matches nothing in front of where the
text is cut off. -/
theorem length?_cut {rule : ScanRule} (hrule : rule ∈ all) {a b : List Char} (h : a <+: b)
    (hb : rule.length? b = none) : rule.length? a = none := by
  cases ha : rule.length? a with
  | none => rfl
  | some n =>
    obtain ⟨more, rfl⟩ := h
    obtain ⟨w, rest, rfl, _, htakes⟩ := (length?_eq_some_iff hrule).mp ha
    have hsome := htakes.isSome (rest ++ more)
    rw [← List.append_assoc, hb] at hsome
    cases hsome

/-! ### The first rule -/

/-- The first rule that matches, with what it takes; the rules before it match nothing. -/
theorem first?_eq_some_iff {cs : List Char} {rule : ScanRule} {n : Nat} :
    first? cs = some (rule, n) ↔ ∃ before after, all = before ++ rule :: after ∧
      rule.length? cs = some n ∧ ∀ other ∈ before, other.length? cs = none := by
  unfold first?
  rw [List.findSome?_eq_some_iff]
  constructor
  · rintro ⟨before, found, after, hall, hmatch, hbefore⟩
    obtain ⟨m, hm, heq⟩ := Option.map_eq_some_iff.mp hmatch
    cases heq
    exact ⟨before, after, hall, hm, fun other ho => Option.map_eq_none_iff.mp (hbefore other ho)⟩
  · rintro ⟨before, after, hall, hm, hbefore⟩
    exact ⟨before, rule, after, hall, by rw [hm]; rfl, fun other ho => by rw [hbefore other ho]; rfl⟩

theorem first?_eq_none_iff {cs : List Char} :
    first? cs = none ↔ ∀ rule ∈ all, rule.length? cs = none := by
  simp [first?]

theorem first?_takes {cs : List Char} {rule : ScanRule} {n : Nat} (h : first? cs = some (rule, n)) :
    ∃ w rest, cs = w ++ rest ∧ w.length = n ∧ Takes rule w rest := by
  obtain ⟨before, after, hall, hmatch, _⟩ := first?_eq_some_iff.mp h
  exact (length?_eq_some_iff (by simp [hall])).mp hmatch

/-- **A match does not depend on what is far behind it.** From a text that is cut off behind
the match, the first rule takes the same characters. -/
theorem first?_cut {w rest short : List Char} {rule : ScanRule}
    (h : first? (w ++ rest) = some (rule, w.length)) (hshort : short <+: rest) :
    first? (w ++ short) = some (rule, w.length) := by
  obtain ⟨before, after, hall, hmatch, hbefore⟩ := first?_eq_some_iff.mp h
  have hrule : rule ∈ all := by simp [hall]
  have hmem : ∀ other ∈ before, other ∈ all := fun other ho => by simp [hall, ho]
  refine first?_eq_some_iff.mpr ⟨before, after, hall, ?_, fun other ho => ?_⟩
  · obtain ⟨w', rest', hsplit, hlen, htakes⟩ :=
      (length?_eq_some_iff hrule).mp hmatch
    obtain ⟨rfl, rfl⟩ := List.append_inj hsplit hlen.symm
    exact (htakes.cut hshort).length?_eq
  · exact length?_cut (hmem other ho) ((List.prefix_append_right_inj w).mpr hshort)
      (hbefore other ho)

end ScanRule
end LittleC
