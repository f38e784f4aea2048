import LittleC.Ast.Expr
import LittleC.Token.Scan

/-! The shapes that tokens are written in, as sets of texts: words, numbers with and
without a fraction, and what may stand between the quotes of a string. An expression is
well shaped when each name in it is a word that is not reserved and each literal has the
shape of its own kind; text passed through and nodes nobody could read have no shape. -/
namespace LittleC

/-- A letter or underscore, then letters, digits and underscores. -/
def IsWord : List Char → Prop
  | [] => False
  | c :: rest => ScanRule.isWordStart c = true ∧ ∀ d ∈ rest, ScanRule.isWordPart d = true

/-- One digit or more. -/
def IsDigits (cs : List Char) : Prop :=
  cs ≠ [] ∧ ∀ c ∈ cs, c.isDigit = true

/-- Digits, a point and digits. -/
def IsDecimal (cs : List Char) : Prop :=
  ∃ whole fraction, cs = whole ++ '.' :: fraction ∧ IsDigits whole ∧ IsDigits fraction

/-- A decimal with the suffix of a float. -/
def IsSuffixed (cs : List Char) : Prop :=
  ∃ decimal, cs = decimal ++ ['f'] ∧ IsDecimal decimal

/-- A number without a sign. -/
def IsNumber (cs : List Char) : Prop :=
  IsDigits cs ∨ IsDecimal cs ∨ IsSuffixed cs

/-- A text of a shape, or a minus sign and one. -/
def Signed (shape : List Char → Prop) (cs : List Char) : Prop :=
  shape cs ∨ ∃ rest, cs = '-' :: rest ∧ shape rest

/-- The inside of a string: a backslash goes with the character after it, which is not a
line break, and no quote stands alone. -/
inductive IsStringBody : List Char → Prop where
  | nil : IsStringBody []
  | escape {c : Char} {cs : List Char} : c ≠ '\n' → IsStringBody cs → IsStringBody ('\\' :: c :: cs)
  | plain {c : Char} {cs : List Char} : c ≠ '"' → c ≠ '\\' → IsStringBody cs → IsStringBody (c :: cs)

/-- A word that is free to name something. -/
def IsName (name : String) : Prop :=
  IsWord name.toList ∧ TokenKind.reserved? name = none

namespace Expr

mutual
/-- Names are names, and literals have the shape of their kind. -/
def WellShaped : Expr → Prop
  | binary _ left right => left.WellShaped ∧ right.WellShaped
  | symbol name => IsName name
  | float text => Signed IsSuffixed text.toList
  | double text => Signed IsDecimal text.toList
  | integer text => Signed IsDigits text.toList
  | string text => IsStringBody text.toList
  | boolean _ => True
  | call callee arguments => IsName callee ∧ WellShapedAll arguments
  | assign target value => IsName target ∧ value.WellShaped
  | raw _ | unrecognized _ => False

def WellShapedAll : List Expr → Prop
  | [] => True
  | e :: rest => e.WellShaped ∧ WellShapedAll rest
end

end Expr

/-! ### Characters of a shape -/

/-- A character that a word or a number can go on with. -/
def isPart (c : Char) : Bool :=
  ScanRule.isWordPart c || c == '.'

theorem isWordPart_of_isWordStart {c : Char} (h : ScanRule.isWordStart c = true) :
    ScanRule.isWordPart c = true := by
  simp only [ScanRule.isWordStart, ScanRule.isWordPart, Char.isAlphanum, Bool.or_eq_true] at h ⊢
  rcases h with h | h
  · exact .inl (.inl h)
  · exact .inr h

theorem isPart_of_isDigit {c : Char} (h : c.isDigit = true) : isPart c = true := by
  simp [isPart, ScanRule.isWordPart, Char.isAlphanum, h]

theorem IsWord.isPart {cs : List Char} (h : IsWord cs) : ∀ c ∈ cs, isPart c = true := by
  cases cs with
  | nil => exact h.elim
  | cons c rest =>
    intro d hd
    rcases List.mem_cons.mp hd with rfl | hd
    · simp [LittleC.isPart, isWordPart_of_isWordStart h.1]
    · simp [LittleC.isPart, h.2 d hd]

theorem IsDecimal.isPart {cs : List Char} (h : IsDecimal cs) : ∀ c ∈ cs, isPart c = true := by
  obtain ⟨whole, fraction, rfl, hw, hf⟩ := h
  intro c hc
  rcases List.mem_append.mp hc with hc | hc
  · exact isPart_of_isDigit (hw.2 c hc)
  · rcases List.mem_cons.mp hc with rfl | hc
    · rfl
    · exact isPart_of_isDigit (hf.2 c hc)

theorem IsNumber.isPart {cs : List Char} (h : IsNumber cs) : ∀ c ∈ cs, isPart c = true := by
  rcases h with h | h | ⟨decimal, rfl, h⟩
  · exact fun c hc => isPart_of_isDigit (h.2 c hc)
  · exact h.isPart
  · intro c hc
    rcases List.mem_append.mp hc with hc | hc
    · exact h.isPart c hc
    · rw [List.mem_singleton.mp hc]
      rfl

theorem IsDigits.head {cs : List Char} (h : IsDigits cs) :
    ∃ c rest, cs = c :: rest ∧ c.isDigit = true := by
  cases cs with
  | nil => exact absurd rfl h.1
  | cons c rest => exact ⟨c, rest, rfl, h.2 c (List.mem_cons_self ..)⟩

theorem IsDecimal.head {cs : List Char} (h : IsDecimal cs) :
    ∃ c rest, cs = c :: rest ∧ c.isDigit = true := by
  obtain ⟨whole, fraction, rfl, hw, _⟩ := h
  obtain ⟨c, rest, rfl, hc⟩ := hw.head
  exact ⟨c, _, rfl, hc⟩

theorem IsNumber.head {cs : List Char} (h : IsNumber cs) :
    ∃ c rest, cs = c :: rest ∧ c.isDigit = true := by
  rcases h with h | h | ⟨decimal, rfl, h⟩
  · exact h.head
  · exact h.head
  · obtain ⟨c, rest, rfl, hc⟩ := h.head
    exact ⟨c, _, rfl, hc⟩

/-! ### The shapes of numbers are apart -/

theorem IsDecimal.not_isDigits {cs : List Char} (h : IsDecimal cs) : ¬ IsDigits cs := by
  obtain ⟨whole, fraction, rfl, _, _⟩ := h
  intro hd
  exact absurd (hd.2 '.' (by simp)) (by decide)

theorem IsSuffixed.not_isDigits {cs : List Char} (h : IsSuffixed cs) : ¬ IsDigits cs := by
  obtain ⟨decimal, rfl, _⟩ := h
  intro hd
  exact absurd (hd.2 'f' (by simp)) (by decide)

theorem IsSuffixed.not_isDecimal {cs : List Char} (h : IsSuffixed cs) : ¬ IsDecimal cs := by
  obtain ⟨decimal, rfl, _⟩ := h
  rintro ⟨whole, fraction, heq, _, hne, hd⟩
  obtain ⟨init, c, rfl⟩ := List.eq_nil_or_concat fraction |>.resolve_left hne
  have heq' : decimal ++ ['f'] = (whole ++ '.' :: init) ++ [c] := by simpa using heq
  obtain rfl : 'f' = c := by simpa using (List.append_inj' heq' rfl).2
  exact absurd (hd 'f' (by simp)) (by decide)

/-- A string ends at its first quote that stands alone, so one text has one body. -/
theorem IsStringBody.unique {a b : List Char} (ha : IsStringBody a) (hb : IsStringBody b)
    {r s : List Char} (h : a ++ '"' :: r = b ++ '"' :: s) : a = b := by
  induction ha generalizing b with
  | nil =>
    cases hb with
    | nil => rfl
    | escape _ _ => simp at h
    | plain hq _ _ => exact absurd (List.cons.inj h).1.symm hq
  | escape _ _ ih =>
    cases hb with
    | nil => simp at h
    | escape _ hb =>
      simp only [List.cons_append, List.cons.injEq, true_and] at h
      rw [h.1, ih hb h.2]
    | plain _ hs _ => exact absurd (List.cons.inj h).1.symm hs
  | plain hq hs _ ih =>
    cases hb with
    | nil => exact absurd (List.cons.inj h).1 hq
    | escape _ _ => exact absurd (List.cons.inj h).1 hs
    | plain _ _ hb =>
      simp only [List.cons_append, List.cons.injEq] at h
      rw [h.1, ih hb h.2]

end LittleC
