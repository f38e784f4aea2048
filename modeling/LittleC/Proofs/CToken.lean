import LittleC.Proofs.Shape

/-! How C splits a text into tokens. A word, a number, a string or a punctuator is read
as long as it goes, and white space stands between tokens or not. `Lexed.unique`: a text
has at most one list of tokens. The punctuators are all those of C and the two openings
of a comment, so that a text in which two of them run together has the tokens that C
sees. -/
namespace LittleC.C

inductive Token where
  | word (name : String)
  | number (text : String)
  /-- A string without its quotes. -/
  | string (body : String)
  | mark (text : String)
  deriving DecidableEq, Repr

/-- The punctuators, and what a comment opens with. -/
def punctuators : List String :=
  ["(", ")", "[", "]", "\x7b", "\x7d", ".", "...", "->", "++", "--", "&", "*", "+", "-", "~", "!",
   "/", "%", "<<", ">>", "<", ">", "<=", ">=", "==", "!=", "^", "|", "&&", "||", "?", ":", ";",
   "=", "*=", "/=", "%=", "+=", "-=", "<<=", ">>=", "&=", "^=", "|=", ",", "#", "##", "<:", ":>",
   "<%", "%>", "%:", "%:%:", "//", "/*"]

def isBlank (c : Char) : Bool :=
  c == ' ' || c == '\t' || c == '\n' || c == '\x0b' || c == '\x0c' || c == '\r'

namespace Token

def spelling : Token → List Char
  | word name => name.toList
  | number text => text.toList
  | string body => '"' :: (body.toList ++ ['"'])
  | mark text => text.toList

/-- Whether the token is written as one of its kind. -/
def IsLexeme : Token → Prop
  | word name => IsWord name.toList
  | number text => IsNumber text.toList
  | string body => IsStringBody body.toList
  | mark text => text ∈ punctuators

/-- No token longer than this one begins its text and what follows. -/
def Longest (t : Token) (rest : List Char) : Prop :=
  ∀ u : Token, u.IsLexeme → u.spelling <+: t.spelling ++ rest →
    u.spelling.length ≤ t.spelling.length

end Token

/-- The text is made of these tokens, each as long as it can be, and of white space. -/
inductive Lexed : List Char → List Token → Prop where
  | nil : Lexed [] []
  | blank {c : Char} {cs : List Char} {ts : List Token} :
      isBlank c = true → Lexed cs ts → Lexed (c :: cs) ts
  | token {t : Token} {cs : List Char} {ts : List Token} :
      t.IsLexeme → t.Longest cs → Lexed cs ts → Lexed (t.spelling ++ cs) (t :: ts)

/-- Neither a word nor a number goes on. -/
def Delimited (rest : List Char) : Prop :=
  ∀ c ∈ rest.head?, isPart c = false

/-! ### The first character of a token -/

inductive Kind where
  | word
  | number
  | string
  | mark
  deriving DecidableEq

def Token.kind : Token → Kind
  | .word _ => .word
  | .number _ => .number
  | .string _ => .string
  | .mark _ => .mark

/-- The kind of the tokens that begin with a character, if it is not white space. -/
def kindOf? (c : Char) : Option Kind :=
  if ScanRule.isWordStart c then some .word
  else if c.isDigit then some .number
  else if c = '"' then some .string
  else if isBlank c then none
  else some .mark

theorem not_isWordStart_of_isDigit {c : Char} (h : c.isDigit = true) :
    ScanRule.isWordStart c = false := by
  cases hw : ScanRule.isWordStart c
  · rfl
  · have hrange : (decide (c.val ≥ 'A'.val ∧ c.val ≤ 'Z'.val) ||
        (decide (c.val ≥ 'a'.val) && decide (c.val ≤ 'z'.val)) || c == '_') = true := hw
    simp only [Char.isDigit, Bool.or_eq_true, Bool.and_eq_true, decide_eq_true_eq, beq_iff_eq,
      UInt32.le_iff_toNat_le, ge_iff_le] at h hrange
    have : 'A'.val.toNat = 65 := rfl
    have : 'a'.val.toNat = 97 := rfl
    have : '9'.val.toNat = 57 := rfl
    rcases hrange with (hupper | hlower) | rfl
    · omega
    · omega
    · exact absurd h (by decide)

theorem kindOf?_blank {c : Char} (h : isBlank c = true) : kindOf? c = none := by
  simp only [isBlank, Bool.or_eq_true, beq_iff_eq] at h
  rcases h with ((((rfl | rfl) | rfl) | rfl) | rfl) | rfl <;> decide

theorem kindOf?_mark : ∀ s ∈ punctuators, s.toList.head?.bind kindOf? = some .mark := by
  decide

namespace Token

theorem IsLexeme.kindOf? {t : Token} (h : t.IsLexeme) :
    ∃ c cs, t.spelling = c :: cs ∧ C.kindOf? c = some t.kind := by
  cases t with
  | word name =>
    cases hcs : name.toList with
    | nil => simp [IsLexeme, hcs, IsWord] at h
    | cons c cs =>
      simp only [IsLexeme, hcs, IsWord] at h
      exact ⟨c, cs, hcs, by simp [C.kindOf?, h.1, kind]⟩
  | number text =>
    obtain ⟨c, cs, hcs, hc⟩ := IsNumber.head h
    exact ⟨c, cs, hcs, by simp [C.kindOf?, not_isWordStart_of_isDigit hc, hc, kind]⟩
  | string body =>
    have hq : C.kindOf? '"' = some .string := by decide
    exact ⟨'"', _, rfl, hq⟩
  | mark text =>
    obtain ⟨c, hc, hk⟩ := Option.bind_eq_some_iff.mp (kindOf?_mark text h)
    obtain ⟨cs, hcs⟩ := List.head?_eq_some_iff.mp hc
    exact ⟨c, cs, hcs, hk⟩

/-- Two tokens that begin the same text are of one kind. -/
theorem kind_eq_of_begins {t u : Token} (ht : t.IsLexeme) (hu : u.IsLexeme) {rest : List Char}
    (h : u.spelling <+: t.spelling ++ rest) : u.kind = t.kind := by
  obtain ⟨c, cs, hc, hk⟩ := ht.kindOf?
  obtain ⟨d, ds, hd, hk'⟩ := hu.kindOf?
  obtain ⟨tail, htail⟩ := h
  rw [hc, hd] at htail
  have : d = c := (List.cons.inj htail).1
  rw [this, hk] at hk'
  exact (Option.some.inj hk').symm

/-! ### Where a token ends -/

/-- Of two prefixes of one text, the second is no longer than the first, or it goes on
with the character after it. -/
theorem length_le_or_next {a b rest : List Char} (h : b <+: a ++ rest) :
    b.length ≤ a.length ∨ ∃ c ∈ rest.head?, a ++ [c] <+: b := by
  obtain ⟨tail, htail⟩ := h
  rcases List.append_eq_append_iff.mp htail with ⟨more, rfl, _⟩ | ⟨more, rfl, hrest⟩
  · exact .inl (by simp)
  · cases more with
    | nil => exact .inl (by simp)
    | cons c more => exact .inr ⟨c, by simp [hrest], more, by simp⟩

theorem IsLexeme.isPart {t : Token} (h : t.IsLexeme) (hk : t.kind = .word ∨ t.kind = .number) :
    ∀ c ∈ t.spelling, LittleC.isPart c = true := by
  cases t with
  | word name => exact IsWord.isPart h
  | number text => exact IsNumber.isPart h
  | string _ => simp [kind] at hk
  | mark _ => simp [kind] at hk

theorem longest_of_delimited {t : Token} (ht : t.IsLexeme) (hk : t.kind = .word ∨ t.kind = .number)
    {rest : List Char} (hr : Delimited rest) : t.Longest rest := by
  intro u hu hpre
  have hk' : u.kind = .word ∨ u.kind = .number := by rwa [kind_eq_of_begins ht hu hpre]
  rcases length_le_or_next hpre with h | ⟨c, hc, hgo⟩
  · exact h
  · have hin : c ∈ u.spelling := hgo.subset (by simp)
    have := hu.isPart hk' c hin
    rw [hr c hc] at this
    cases this

theorem longest_string {body : String} (h : (string body).IsLexeme) (rest : List Char) :
    (string body).Longest rest := by
  intro u hu hpre
  have hk := kind_eq_of_begins h hu hpre
  cases u with
  | string other =>
    obtain ⟨tail, htail⟩ := hpre
    have heq : other.toList ++ '"' :: tail = body.toList ++ '"' :: rest := by
      simpa [spelling] using htail
    simp [spelling, IsStringBody.unique hu h heq]
  | word _ => cases hk
  | number _ => cases hk
  | mark _ => cases hk

/-- A punctuator ends before a character that no longer one has in that place. -/
theorem longest_mark {s : String} (hs : s ∈ punctuators) {rest : List Char}
    (h : ∀ c ∈ rest.head?, ∀ q ∈ punctuators, ¬ (s.toList ++ [c] <+: q.toList)) :
    (mark s).Longest rest := by
  intro u hu hpre
  have hk := kind_eq_of_begins (t := mark s) hs hu hpre
  cases u with
  | mark q =>
    rcases length_le_or_next hpre with hle | ⟨c, hc, hgo⟩
    · exact hle
    · exact absurd hgo (h c hc q hu)
  | word _ => cases hk
  | number _ => cases hk
  | string _ => cases hk

theorem punctuators_plain : ∀ q ∈ punctuators, ∀ c ∈ q.toList, isBlank c = false ∧ c.isDigit = false := by
  have hall : punctuators.all (fun q => q.toList.all fun c => !isBlank c && !c.isDigit) = true := by
    decide
  simpa [List.all_eq_true] using hall

/-- No punctuator goes on with white space or a digit. -/
theorem longest_mark_of_plain {s : String} (hs : s ∈ punctuators) {rest : List Char}
    (h : ∀ c ∈ rest.head?, isBlank c = true ∨ c.isDigit = true) : (mark s).Longest rest := by
  refine longest_mark hs fun c hc q hq hgo => ?_
  obtain ⟨hb, hd⟩ := punctuators_plain q hq c (hgo.subset (by simp))
  rcases h c hc with h | h
  · rw [hb] at h; cases h
  · rw [hd] at h; cases h

theorem punctuators_single : ∀ q ∈ punctuators, ∀ s ∈ ["(", ")", ","], s.toList <+: q.toList →
    q.toList.length = 1 := by
  decide

theorem singles_punctuators : ∀ s ∈ ["(", ")", ","], s ∈ punctuators := by
  decide

/-- Parentheses and the comma are no beginning of a longer punctuator. -/
theorem longest_single {s : String} (hs : s ∈ ["(", ")", ","]) (rest : List Char) :
    (mark s).Longest rest := by
  have hmem := singles_punctuators s hs
  refine longest_mark hmem fun c _ q hq hgo => ?_
  have hlen := punctuators_single q hq s hs ((List.prefix_append _ _).trans hgo)
  have hle := hgo.length_le
  obtain ⟨d, ds, hd, _⟩ := IsLexeme.kindOf? (t := mark s) hmem
  rw [show s.toList = d :: ds from hd, hlen] at hle
  simp at hle

end Token

/-! ### One list of tokens -/

theorem Token.eq_of_spelling {t u : Token} (hk : t.kind = u.kind) (h : t.spelling = u.spelling) :
    t = u := by
  cases t <;> cases u <;> simp_all [Token.kind, Token.spelling, String.toList_inj]

/-- The first token of a text is the longest one that begins it. -/
theorem Token.eq_of_longest {t u : Token} (ht : t.IsLexeme) (hu : u.IsLexeme) {r s : List Char}
    (hl : t.Longest r) (hl' : u.Longest s) (h : t.spelling ++ r = u.spelling ++ s) :
    t = u ∧ r = s := by
  have hpre : u.spelling <+: t.spelling ++ r := ⟨s, h.symm⟩
  have hpre' : t.spelling <+: u.spelling ++ s := ⟨r, h⟩
  have hlen : t.spelling.length = u.spelling.length :=
    Nat.le_antisymm (hl' t ht hpre') (hl u hu hpre)
  obtain ⟨heq, hrest⟩ := List.append_inj h hlen
  exact ⟨eq_of_spelling (kind_eq_of_begins hu ht hpre') heq, hrest⟩

/-- **A text has one list of tokens** at most. -/
theorem Lexed.unique {cs : List Char} {ts us : List Token} (h : Lexed cs ts) (h' : Lexed cs us) :
    ts = us := by
  induction h generalizing us with
  | nil =>
    generalize hcs : ([] : List Char) = cs at h'
    cases h' with
    | nil => rfl
    | blank _ _ => cases hcs
    | token ht _ _ =>
      obtain ⟨c, rest, hc, _⟩ := ht.kindOf?
      rw [hc] at hcs
      cases hcs
  | @blank c cs ts hb _ ih =>
    generalize hcs : c :: cs = all at h'
    cases h' with
    | nil => cases hcs
    | blank _ h' =>
      obtain ⟨_, rfl⟩ := List.cons.inj hcs
      exact ih h'
    | token ht _ _ =>
      obtain ⟨d, rest, hd, hk⟩ := ht.kindOf?
      rw [hd] at hcs
      rw [← (List.cons.inj hcs).1, kindOf?_blank hb] at hk
      cases hk
  | @token t cs ts ht hl _ ih =>
    generalize hcs : t.spelling ++ cs = all at h'
    cases h' with
    | nil =>
      obtain ⟨c, rest, hc, _⟩ := ht.kindOf?
      rw [hc] at hcs
      cases hcs
    | blank hb _ =>
      obtain ⟨d, rest, hd, hk⟩ := ht.kindOf?
      rw [hd] at hcs
      rw [(List.cons.inj hcs).1, kindOf?_blank hb] at hk
      cases hk
    | token hu hl' h' =>
      obtain ⟨rfl, rfl⟩ := Token.eq_of_longest ht hu hl hl' hcs
      rw [ih h']

end LittleC.C
