import LittleC.Proofs.Tiling

/-! The first match is the longest. Scanning takes the match of the first rule in the list that
has one, and never compares lengths; the list is in such an order that this makes no difference.

`all_outrun`: of two rules that match at the start of the same text, the one that stands first
in the list always takes more. So the first match is longer than any other
(`longest_iff_first?`), and scanning is the tokenization that takes, again and again, the longest
text at hand that has the shape of some rule (`scan_munches`). -/
namespace LittleC
namespace ScanRule

/-! ### What a match begins with -/

/-- The classes of characters that matches begin with. A comment begins with a sign. -/
inductive Lead where
  | letter
  | digit
  | blank
  | quote
  | tick
  | sign
  deriving DecidableEq

def lead (c : Char) : Lead :=
  if isWordStart c then .letter
  else if c.isDigit then .digit
  else if Text.isBlank c then .blank
  else if c = '"' then .quote
  else if c = '\x60' then .tick
  else .sign

theorem lead_digit {c : Char} (h : c.isDigit = true) : lead c = .digit := by
  simp [lead, C.not_isWordStart_of_isDigit h, h]

theorem lead_blank {c : Char} (h : Text.isBlank c = true) : lead c = .blank := by
  have hpart := isPart_of_isBlank h
  have hword : isWordStart c = false := by
    cases hw : isWordStart c with
    | false => rfl
    | true => simp [isPart, isWordPart_of_isWordStart hw] at hpart
  simp [lead, hword, isDigit_of_isPart hpart, h]

theorem lead_sign {c : Char} (h : isSign c = true) : lead c = .sign := by
  simp only [isSign, Bool.and_eq_true, Bool.not_eq_true', bne_iff_ne, ne_eq] at h
  obtain ⟨⟨⟨⟨hword, hdigit⟩, hblank⟩, hquote⟩, htick⟩ := h
  simp [lead, hword, hdigit, hblank, hquote, htick]

/-- The rule matches only where a character of this class stands. -/
def LedBy (rule : ScanRule) (k : Lead) : Prop :=
  ∀ cs n, rule.length? cs = some n → cs.head?.map lead = some k

theorem ledBy_word : word.LedBy .letter := by
  intro cs n h
  replace h : wordLength? cs = some n := h
  cases cs with
  | nil => cases h
  | cons c cs =>
    simp only [wordLength?, Option.ite_none_right_eq_some] at h
    simp [lead, h.1]

theorem ledBy_number : number.LedBy .digit := by
  intro cs n h
  replace h : numberLength? cs = some n := h
  cases cs with
  | nil => cases h
  | cons c cs =>
    have hc : c.isDigit = true := by
      cases hc : c.isDigit with
      | true => rfl
      | false => simp [numberLength?, hc] at h
    simp [lead_digit hc]

theorem ledBy_blanks : blanks.LedBy .blank := by
  intro cs n h
  replace h : blankLength? cs = some n := h
  cases cs with
  | nil => cases h
  | cons c cs =>
    have hc : Text.isBlank c = true := by
      cases hc : Text.isBlank c with
      | true => rfl
      | false => simp [blankLength?, hc] at h
    simp [lead_blank hc]

theorem ledBy_string : string.LedBy .quote := by
  intro cs n h
  replace h : stringLength? cs = some n := h
  unfold stringLength? at h
  split at h
  · have hlead : lead '"' = .quote := by decide
    simp [hlead]
  · cases h

theorem ledBy_raw : raw.LedBy .tick := by
  intro cs n h
  replace h : rawLength? cs = some n := h
  unfold rawLength? at h
  split at h
  · have hlead : lead '\x60' = .tick := by decide
    simp [hlead]
  · cases h

theorem ledBy_comment : comment.LedBy .sign := by
  intro cs n h
  replace h : commentLength? cs = some n := h
  unfold commentLength? at h
  split at h
  · have hlead : lead '/' = .sign := by decide
    simp [hlead]
  · cases h

/-- A sign matches where its text stands. -/
theorem fixedLength?_eq_some_iff {text cs : List Char} {n : Nat} :
    fixedLength? text cs = some n ↔ text <+: cs ∧ text.length = n := by
  simp [fixedLength?]

theorem ledBy_fixed {t : TokenKind × String} (ht : t ∈ punctuation) :
    (fixed t.1 t.2).LedBy .sign := by
  intro cs n h
  obtain ⟨⟨rest, rfl⟩, _⟩ := fixedLength?_eq_some_iff.mp h
  obtain ⟨c, hc, hsign⟩ := Option.any_eq_true _ _ |>.mp (isSign_punctuation t ht)
  obtain ⟨cs, hcs⟩ := List.head?_eq_some_iff.mp hc
  rw [hcs]
  simp [lead_sign hsign]

/-! ### The order of the rules -/

/-- Where both rules match, the first takes more. -/
def Outruns (rule other : ScanRule) : Prop :=
  ∀ cs n m, rule.length? cs = some n → other.length? cs = some m → m < n

/-- Rules with different first characters never match in the same place. -/
theorem LedBy.outruns {rule other : ScanRule} {k k' : Lead} (h : rule.LedBy k)
    (h' : other.LedBy k') (hne : k ≠ k') : rule.Outruns other := by
  intro cs n m hn hm
  have hlead := (h cs n hn).symm.trans (h' cs m hm)
  exact absurd (Option.some.inj hlead) hne

/-- The opening of a comment is longer than a sign that begins with it. -/
theorem comment_outruns {t : TokenKind × String} (ht : t ∈ punctuation) :
    comment.Outruns (fixed t.1 t.2) := by
  intro cs n m hn hm
  obtain ⟨hpre, rfl⟩ := fixedLength?_eq_some_iff.mp hm
  replace hn : commentLength? cs = some n := hn
  unfold commentLength? at hn
  split at hn
  · have hshort : t.2.toList.length < 2 := by
      apply Nat.lt_of_not_le
      intro hle
      exact not_comment_punctuation t ht
        (List.prefix_of_prefix_length_le (List.prefix_append ['/', '/'] _) hpre hle)
    cases hn
    omega
  · cases hn

/-- No sign begins with one before it in the list. -/
theorem punctuation_ordered :
    punctuation.Pairwise fun t u => ¬ t.2.toList <+: u.2.toList := by
  decide

theorem fixed_outruns {t u : TokenKind × String} (h : ¬ t.2.toList <+: u.2.toList) :
    (fixed t.1 t.2).Outruns (fixed u.1 u.2) := by
  intro cs n m hn hm
  obtain ⟨ht, rfl⟩ := fixedLength?_eq_some_iff.mp hn
  obtain ⟨hu, rfl⟩ := fixedLength?_eq_some_iff.mp hm
  apply Nat.lt_of_not_le
  intro hle
  exact h (List.prefix_of_prefix_length_le ht hu hle)

/-- The rules of their own, with the class of their first characters. -/
def leads : List (ScanRule × Lead) :=
  [(word, .letter), (number, .digit), (blanks, .blank), (string, .quote), (raw, .tick),
   (comment, .sign)]

theorem leads_led : ∀ p ∈ leads, LedBy p.1 p.2 := by
  simp only [leads, List.forall_mem_cons, List.not_mem_nil, false_implies, implies_true, and_true]
  exact ⟨ledBy_word, ledBy_number, ledBy_blanks, ledBy_string, ledBy_raw, ledBy_comment⟩

theorem leads_apart : leads.Pairwise fun p q => p.2 ≠ q.2 := by
  decide

/-- **The list of rules is in order**: of two rules that match in one place, the first takes
more. -/
theorem all_outrun : all.Pairwise Outruns := by
  have hsplit : all = leads.map Prod.fst ++ punctuation.map fun t => fixed t.1 t.2 := rfl
  rw [hsplit, List.pairwise_append, List.pairwise_map, List.pairwise_map]
  refine ⟨?_, punctuation_ordered.imp fixed_outruns, fun rule hrule other hother => ?_⟩
  · exact leads_apart.imp_of_mem fun hp hq hne =>
      (leads_led _ hp).outruns (leads_led _ hq) hne
  · obtain ⟨p, hp, rfl⟩ := List.mem_map.mp hrule
    obtain ⟨t, ht, rfl⟩ := List.mem_map.mp hother
    by_cases hsign : p.2 = .sign
    · have hcomment : ∀ p ∈ leads, p.2 = .sign → p.1 = comment := by simp [leads]
      rw [hcomment p hp hsign]
      exact comment_outruns ht
    · exact (leads_led p hp).outruns (ledBy_fixed ht) hsign

/-- Another rule that matches where the first one does takes less. -/
theorem first?_outruns {cs : List Char} {rule other : ScanRule} {n m : Nat}
    (h : first? cs = some (rule, n)) (hother : other ∈ all) (hm : other.length? cs = some m) :
    (other = rule ∧ m = n) ∨ m < n := by
  obtain ⟨before, after, hall, hmatch, hbefore⟩ := first?_eq_some_iff.mp h
  have hordered := all_outrun
  rw [hall] at hother hordered
  rcases List.mem_append.mp hother with hin | hin
  · rw [hbefore other hin] at hm
    cases hm
  · rcases List.mem_cons.mp hin with rfl | hin
    · rw [hmatch] at hm
      exact .inl ⟨rfl, (Option.some.inj hm).symm⟩
    · have hrule := (List.pairwise_cons.mp (List.pairwise_append.mp hordered).2.1).1 other hin
      exact .inr (hrule cs n m hmatch hm)

/-! ### The shapes of matches -/

/-- The texts that a rule is for, each as a whole. -/
inductive Matches : ScanRule → List Char → Prop where
  | word {w : List Char} : IsWord w → Matches word w
  | number {w : List Char} : IsNumber w → Matches number w
  | blanks {w : List Char} : w ≠ [] → (∀ c ∈ w, Text.isBlank c = true) → Matches blanks w
  | string {body : List Char} : IsStringBody body → Matches string ('"' :: (body ++ ['"']))
  | raw {body : List Char} : '\x60' ∉ body → Matches raw ('\x60' :: (body ++ ['\x60']))
  | comment {body : List Char} : '\n' ∉ body → Matches comment ('/' :: '/' :: body)
  | fixed {t : TokenKind × String} : t ∈ punctuation → Matches (fixed t.1 t.2) t.2.toList

theorem Takes.isMatch {rule : ScanRule} {w rest : List Char} (h : Takes rule w rest) :
    Matches rule w := by
  cases h with
  | word hw _ => exact .word hw
  | whole hw _ _ => exact .number (.inl hw)
  | decimal hw _ _ => exact .number (.inr (.inl hw))
  | suffixed hw => exact .number (.inr (.inr hw))
  | blanks hne hw _ => exact .blanks hne hw
  | string hbody => exact .string hbody
  | raw hbody => exact .raw hbody
  | comment hbody _ => exact .comment hbody
  | fixed ht => exact .fixed ht

variable {rule : ScanRule} {w rest cs : List Char}

theorem Matches.mem_all (h : Matches rule w) : rule ∈ all := by
  cases h with
  | fixed ht =>
    rw [all_eq]
    exact List.mem_append_right _ (List.mem_map_of_mem ht)
  | _ => simp [all]

theorem Matches.ne_nil (h : Matches rule w) : w ≠ [] := by
  intro hnil
  cases h with
  | word hw =>
    rw [hnil] at hw
    exact hw
  | number hw =>
    obtain ⟨_, _, hcs, _⟩ := hw.head
    simp [hnil] at hcs
  | blanks hne _ => exact hne hnil
  | string _ | raw _ | comment _ => cases hnil
  | @fixed t ht =>
    have hsign := isSign_punctuation t ht
    simp [hnil] at hsign

theorem length_le_takeWhile {p : Char → Bool} (hw : ∀ c ∈ w, p c = true) (more : List Char) :
    w.length ≤ ((w ++ more).takeWhile p).length := by
  simp [List.takeWhile_append_of_pos hw]

theorem numberLength?_reaches (hw : IsNumber w) (more : List Char) :
    ∃ m, numberLength? (w ++ more) = some m ∧ w.length ≤ m := by
  rcases hw with hw | ⟨whole, fraction, rfl, hwhole, hfraction⟩ | hw
  · have hlen := length_le_takeWhile hw.2 more
    have hpos := List.length_pos_iff.mpr hw.1
    refine ⟨_, if_neg (by omega), by omega⟩
  · have hlen := length_le_takeWhile hfraction.2 more
    have hpos := List.length_pos_iff.mpr hfraction.1
    have hpoint : ∀ c ∈ ('.' :: (fraction ++ more)).head?, c.isDigit = false := by simp
    rw [List.append_assoc, List.cons_append, numberLength?_digits hwhole hpoint]
    refine ⟨_, rfl, ?_⟩
    simp only [fractionLength, List.length_append, List.length_cons]
    split
    · omega
    · split <;> omega
  · exact ⟨_, numberLength?_suffixed hw more, Nat.le_refl _⟩

/-- Where a text of its shape stands, a rule takes at least that text. -/
theorem Matches.reaches (h : Matches rule w) (more : List Char) :
    ∃ m, rule.length? (w ++ more) = some m ∧ w.length ≤ m := by
  cases h with
  | word hw =>
    cases w with
    | nil => exact hw.elim
    | cons c cs =>
      have hlen := length_le_takeWhile hw.2 more
      refine ⟨1 + ((cs ++ more).takeWhile isWordPart).length, if_pos hw.1, ?_⟩
      rw [List.length_cons]
      omega
  | number hw => exact numberLength?_reaches hw more
  | blanks hne hw =>
    have hlen := length_le_takeWhile hw more
    have hpos := List.length_pos_iff.mpr hne
    exact ⟨_, if_neg (by omega), hlen⟩
  | string hbody => exact ⟨_, (Takes.string hbody).length?_eq, Nat.le_refl _⟩
  | raw hbody => exact ⟨_, (Takes.raw hbody).length?_eq, Nat.le_refl _⟩
  | @comment body hbody =>
    have hline : ∀ c ∈ body, (c != '\n') = true := by
      intro c hc
      simp only [bne_iff_ne, ne_eq]
      rintro rfl
      exact hbody hc
    have hlen := length_le_takeWhile hline more
    refine ⟨2 + ((body ++ more).takeWhile (· != '\n')).length, rfl, ?_⟩
    rw [List.length_cons, List.length_cons]
    omega
  | fixed ht => exact ⟨_, (Takes.fixed ht).length?_eq, Nat.le_refl _⟩

/-! ### The longest match -/

/-- The rule is for this text, and no rule is for a longer one that begins there. -/
structure Longest (rule : ScanRule) (w rest : List Char) : Prop where
  isMatch : Matches rule w
  longest : ∀ other v, Matches other v → v <+: w ++ rest → v.length ≤ w.length

/-- **The first rule that matches has the longest match**, and no other rule has one as
long. -/
theorem longest_iff_first? : Longest rule w rest ↔ first? (w ++ rest) = some (rule, w.length) := by
  constructor
  · intro h
    obtain ⟨m, hm, hle⟩ := h.isMatch.reaches rest
    cases hfirst : first? (w ++ rest) with
    | none =>
      rw [first?_eq_none_iff.mp hfirst rule h.isMatch.mem_all] at hm
      cases hm
    | some found =>
      obtain ⟨picked, n⟩ := found
      obtain ⟨v, rest', hsplit, rfl, htakes⟩ := first?_takes hfirst
      have hshort := h.longest picked v htakes.isMatch (hsplit ▸ List.prefix_append v rest')
      rcases first?_outruns hfirst h.isMatch.mem_all hm with ⟨rfl, rfl⟩ | hless
      · rw [Nat.le_antisymm hshort hle]
      · omega
  · intro h
    obtain ⟨w', rest', hsplit, hlen, htakes⟩ := first?_takes h
    obtain ⟨rfl, rfl⟩ := List.append_inj hsplit hlen.symm
    refine ⟨htakes.isMatch, fun other v hv hpre => ?_⟩
    obtain ⟨more, hmore⟩ := hpre
    obtain ⟨m, hm, hle⟩ := hv.reaches more
    rw [hmore] at hm
    rcases first?_outruns h hv.mem_all hm with ⟨_, rfl⟩ | hless
    · exact hle
    · omega

/-- No rule matches where no text of any rule begins. -/
theorem first?_eq_none_iff_matches :
    first? cs = none ↔ ∀ rule w, Matches rule w → ¬ w <+: cs := by
  constructor
  · rintro h rule w hw ⟨more, rfl⟩
    obtain ⟨m, hm, _⟩ := hw.reaches more
    rw [first?_eq_none_iff.mp h rule hw.mem_all] at hm
    cases hm
  · intro h
    cases hfirst : first? cs with
    | none => rfl
    | some found =>
      obtain ⟨w, rest, rfl, _, htakes⟩ := first?_takes hfirst
      exact absurd (List.prefix_append w rest) (h _ w htakes.isMatch)

/-- The tokens with that of a match in front of them, if the match makes one. -/
def emit (rule : ScanRule) (file : String) (offset : Nat) (w : List Char) (tokens : List Token) :
    List Token :=
  match rule.token? w with
  | some (kind, value) => ⟨kind, value, ⟨offset, offset + Text.byteLength w, file⟩⟩ :: tokens
  | none => tokens

end ScanRule

open ScanRule (Matches Longest)

/-! ### Tokenization by longest matches -/

/-- What becomes of a text, which begins at an offset, if the longest match is taken until
nothing is left or nothing matches. The order of the rules has no part in it. -/
inductive Munched (file : String) : Nat → List Char → Except Error (List Token) → Prop where
  | finished {offset : Nat} : Munched file offset [] (.ok [Token.endOfFile offset file])
  | stuck {offset : Nat} {c : Char} {cs : List Char} :
      (∀ rule w, Matches rule w → ¬ w <+: c :: cs) → Munched file offset (c :: cs)
        (.error (.located (.unrecognisedToken c.toString) ⟨offset, file⟩))
  | taken {offset : Nat} {rule : ScanRule} {w rest : List Char} {r : Except Error (List Token)} :
      Longest rule w rest → Munched file (offset + Text.byteLength w) rest r →
      Munched file offset (w ++ rest) (r.map (rule.emit file offset w))

/-- There is one way to take the longest match, and scanning goes it. -/
theorem Munched.scanFrom_eq {file : String} {offset : Nat} {cs : List Char}
    {r : Except Error (List Token)} (h : Munched file offset cs r) :
    scanFrom file offset cs = r := by
  induction h with
  | finished => exact scanFrom_nil file _
  | stuck hnone => exact scanFrom_stuck file _ (ScanRule.first?_eq_none_iff_matches.mpr hnone)
  | @taken offset rule w rest r hlongest _ ih =>
    have hfirst := ScanRule.longest_iff_first?.mp hlongest
    rw [scanFrom_match file offset hlongest.isMatch.ne_nil hfirst, ih]
    rfl

/-- Every text is scanned by longest matches, to its end or to where nothing matches. -/
theorem munched_scanFrom (file : String) (offset : Nat) (cs : List Char) :
    Munched file offset cs (scanFrom file offset cs) := by
  cases hfirst : ScanRule.first? cs with
  | none =>
    cases cs with
    | nil =>
      rw [scanFrom_nil]
      exact .finished
    | cons c cs =>
      rw [scanFrom_stuck file offset hfirst]
      exact .stuck (ScanRule.first?_eq_none_iff_matches.mp hfirst)
  | some found =>
    obtain ⟨rule, n⟩ := found
    obtain ⟨w, rest, rfl, rfl, htakes⟩ := ScanRule.first?_takes hfirst
    have hne := htakes.isMatch.ne_nil
    have hshort := length_lt_append hne rest
    rw [scanFrom_match file offset hne hfirst]
    exact .taken (ScanRule.longest_iff_first?.mpr hfirst) (munched_scanFrom file _ rest)
termination_by cs.length

/-- **The first match is the longest.** At the start of any text, the match of the first rule
that has one is not empty, and every other match there is shorter. So scanning a source is
tokenization by longest matches: this comes to an end on every source, with the result of
`scan` and no other. -/
theorem scan_munches :
    (∀ cs rule n, ScanRule.first? cs = some (rule, n) → 0 < n ∧
      ∀ other ∈ ScanRule.all, ∀ m, other.length? cs = some m → other = rule ∧ m = n ∨ m < n) ∧
    ∀ source file r, Munched file 0 source.toList r ↔ scan source file = r := by
  refine ⟨fun cs rule n h => ⟨?_, fun other ho m hm => ScanRule.first?_outruns h ho hm⟩,
    fun source file r => ⟨Munched.scanFrom_eq, fun h => h ▸ munched_scanFrom file 0 _⟩⟩
  obtain ⟨w, rest, _, rfl, htakes⟩ := ScanRule.first?_takes h
  exact List.length_pos_iff.mpr htakes.isMatch.ne_nil

end LittleC
