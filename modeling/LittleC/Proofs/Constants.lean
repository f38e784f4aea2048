import Mathlib
import LittleC.Lowering.Stmt
import LittleC.Proofs.ReadBack

/-! Integer literals as constants of C. A literal is written as it was read, with the digits of
its token and perhaps a sign. It denotes a decimal number, while C takes digits behind a leading
zero as octal (`C.constant?`).

`integers_keep_value`: both denote the same number unless there is a leading zero and the number
is eight or more. Then an octal constant is too small, if it is a constant at all: digits count
for less in the smaller base (`C.valueIn_octal_iff`). -/
namespace LittleC

namespace C

/-- The number that digits denote in a base. -/
def valueIn (base : Nat) (cs : List Char) : Nat :=
  cs.foldl (fun n c => n * base + (c.toNat - '0'.toNat)) 0

def isOctalDigit (c : Char) : Bool :=
  c.isDigit && c.toNat - '0'.toNat < 8

/-- What an integer constant denotes. Behind a leading zero the digits are octal. -/
def constant? : List Char → Option Nat
  | [] => none
  | '0' :: rest => if rest.all isOctalDigit then some (valueIn 8 rest) else none
  | cs => if cs.all Char.isDigit then some (valueIn 10 cs) else none

/-- What an integer constant denotes, perhaps with a minus in front. -/
def integer? : List Char → Option Int
  | '-' :: rest => (constant? rest).map fun n => -(n : Int)
  | cs => (constant? cs).map Int.ofNat

/-! ### Values of digits -/

theorem valueIn_concat (base : Nat) (cs : List Char) (c : Char) :
    valueIn base (cs ++ [c]) = valueIn base cs * base + (c.toNat - '0'.toNat) := by
  rw [valueIn, List.foldl_append]
  rfl

/-- A leading zero does not count. -/
theorem valueIn_zero (base : Nat) (cs : List Char) : valueIn base ('0' :: cs) = valueIn base cs := by
  rw [valueIn, List.foldl_cons, Nat.zero_mul]
  rfl

theorem valueIn_octal_le (cs : List Char) : valueIn 8 cs ≤ valueIn 10 cs := by
  induction cs using List.reverseRecOn with
  | nil => exact Nat.le_refl _
  | append_singleton cs c ih =>
    rw [valueIn_concat, valueIn_concat]
    omega

theorem digit_le_valueIn {c : Char} {cs : List Char} (hc : c ∈ cs) :
    c.toNat - '0'.toNat ≤ valueIn 10 cs := by
  induction cs using List.reverseRecOn with
  | nil => exact absurd hc List.not_mem_nil
  | append_singleton cs d ih =>
    rw [valueIn_concat]
    rcases List.mem_append.mp hc with hc | hc
    · have hle := ih hc
      omega
    · rw [List.mem_singleton.mp hc]
      omega

/-- Octal digits denote the same number in both bases exactly if only the last one counts. -/
theorem valueIn_octal_iff {cs : List Char} (hcs : cs.all isOctalDigit = true) :
    valueIn 8 cs = valueIn 10 cs ↔ valueIn 10 cs < 8 := by
  rcases List.eq_nil_or_concat cs with rfl | ⟨front, c, rfl⟩
  · decide
  · have hle := valueIn_octal_le front
    have hdigit : c.toNat - '0'.toNat < 8 := by
      have hc := List.all_eq_true.mp hcs c (by simp)
      simp only [isOctalDigit, Bool.and_eq_true, decide_eq_true_eq] at hc
      exact hc.2
    rw [List.concat_eq_append, valueIn_concat, valueIn_concat]
    omega

/-- Decimal digits are a constant of the same value unless an octal reading changes it. -/
theorem constant?_eq_iff {cs : List Char} (hcs : IsDigits cs) :
    constant? cs = some (valueIn 10 cs) ↔ ¬ (cs.head? = some '0' ∧ 8 ≤ valueIn 10 cs) := by
  obtain ⟨c, rest, rfl, _⟩ := hcs.head
  by_cases hzero : c = '0'
  · subst hzero
    rw [valueIn_zero, constant?]
    by_cases hoctal : rest.all isOctalDigit = true
    · rw [if_pos hoctal, Option.some_inj, valueIn_octal_iff hoctal]
      simp
    · rw [if_neg hoctal]
      -- a digit that is not octal is eight or nine
      have hlarge : 8 ≤ valueIn 10 rest := by
        simp only [List.all_eq_true, not_forall] at hoctal
        obtain ⟨d, hd, hnot⟩ := hoctal
        have hdigit := hcs.2 d (List.mem_cons_of_mem _ hd)
        have hle := digit_le_valueIn hd
        simp only [isOctalDigit, hdigit, Bool.true_and, decide_eq_true_eq] at hnot
        omega
      simp [hlarge]
  · have hall : (c :: rest).all Char.isDigit = true := List.all_eq_true.mpr hcs.2
    have hread : constant? (c :: rest) = some (valueIn 10 (c :: rest)) := by
      rw [constant?, if_pos hall]
      · simp
      · intro _ heq
        exact hzero (List.cons.inj heq).1
    simp [hread, hzero]

/-- With or without a sign, a constant denotes what its digits do or nothing of the kind. -/
theorem integer?_eq_iff {cs : List Char} (hcs : IsDigits cs) :
    (integer? cs = some (valueIn 10 cs : Int) ↔ constant? cs = some (valueIn 10 cs)) ∧
      (integer? ('-' :: cs) = some (-(valueIn 10 cs : Int)) ↔
        constant? cs = some (valueIn 10 cs)) := by
  obtain ⟨c, rest, rfl, hc⟩ := hcs.head
  have hplain : integer? (c :: rest) = (constant? (c :: rest)).map Int.ofNat := by
    rw [integer?]
    intro _ heq
    rw [(List.cons.inj heq).1] at hc
    cases hc
  rw [hplain, integer?]
  constructor
  · cases constant? (c :: rest) <;> simp
  · cases constant? (c :: rest) <;> simp

end C

/-! ### Literals -/

namespace Literal

theorem isDigits_iff {cs : List Char} : isDigits cs = true ↔ IsDigits cs := by
  cases cs <;> simp [isDigits, IsDigits]

/-- What begins with a digit has no sign. -/
theorem unsigned_digit {c : Char} {rest : List Char} (hc : c.isDigit = true) :
    unsigned (c :: rest) = (false, c :: rest) := by
  unfold unsigned
  split
  · next heq =>
    rw [(List.cons.inj heq).1] at hc
    cases hc
  · next heq =>
    rw [(List.cons.inj heq).1] at hc
    cases hc
  · rfl

/-- An integer that begins with a digit has no sign. -/
theorem integer?_digits {c : Char} {rest : List Char} {n : Int} (hc : c.isDigit = true)
    (h : integer? (c :: rest) = some n) :
    IsDigits (c :: rest) ∧ n = (C.valueIn 10 (c :: rest) : Int) := by
  simp only [integer?, unsigned_digit hc] at h
  split at h
  · next hdigits => exact ⟨isDigits_iff.mp hdigits, (Option.some.inj h).symm⟩
  · cases h

theorem integer?_minus {cs : List Char} {n : Int} (h : integer? ('-' :: cs) = some n) :
    IsDigits cs ∧ n = -(C.valueIn 10 cs : Int) := by
  simp only [integer?, unsigned] at h
  split at h
  · next hdigits => exact ⟨isDigits_iff.mp hdigits, (Option.some.inj h).symm⟩
  · cases h

/-- An integer literal keeps its text, which is an integer of 32 bits. -/
theorem ofText?_integer {text text' : String} (h : ofText? text = some (.integer text')) :
    text' = text ∧ ∃ n, integer? text.toList = some n ∧ -2147483648 ≤ n ∧ n ≤ 2147483647 := by
  have htext : text' = text := by
    rcases Grammar.ofText?_eq_some h with heq | heq | heq <;> cases heq
    rfl
  have hint : isInt32 text.toList = true := by
    unfold ofText? at h
    dsimp only at h
    split at h
    · split at h <;> cases h
    · split at h
      · split at h <;> cases h
      · split at h
        · next hint => exact hint
        · cases h
  unfold isInt32 at hint
  split at hint
  · next n hn =>
    simp only [Bool.and_eq_true, decide_eq_true_eq] at hint
    exact ⟨htext, n, hn, hint⟩
  · cases hint

end Literal

/-- What a number is read as, with or without a minus in front. -/
theorem Parse.number_read {t : Token} {d : Cursor} {e : Expr} (hkind : t.kind = .number) :
    (operand (d.push t)).Yields e d → Literal.ofText? t.value = some e := by
  intro h
  rcases yields_operand.mp h with ⟨hdash, _⟩ | ⟨hopen, _⟩ | ⟨hprimary, _⟩
  · rw [hkind] at hdash
    cases hdash
  · rw [hkind] at hopen
    cases hopen
  · rw [primaryOf, hkind] at hprimary
    exact ofToken_eq_ok.mp hprimary

theorem Parse.negative_read {t minus : Token} {d : Cursor} {e : Expr} (hminus : minus.kind = .dash) :
    (operand ((d.push t).push minus)).Yields e d → Literal.ofText? ("-" ++ t.value) = some e := by
  intro h
  rcases yields_operand.mp h with ⟨_, h⟩ | ⟨hopen, _⟩ | ⟨hprimary, _⟩
  · obtain ⟨u, hpush, _, htext⟩ := yields_afterMinus.mp h
    have hu : t = u := by simpa [Cursor.push] using hpush
    rw [hu]
    exact htext
  · rw [hminus] at hopen
    cases hopen
  · rw [primaryOf, hminus] at hprimary
    cases hprimary

/-- **Integer literals keep their value** unless they begin with a zero and denote eight or more.
A number of a source text that is read as an integer literal, with or without a minus in front,
is an integer of 32 bits. The text that the literal is lowered to is a constant in C, perhaps
with a minus in front, that denotes the same integer, exactly if the digits have no leading zero
or the integer is less than eight. -/
theorem integers_keep_value (source file : String) (tokens : List Token) (t : Token) (d : Cursor)
    (text : String) (scope : Scope) (hscan : scan source file = .ok tokens) (ht : t ∈ tokens)
    (hkind : t.kind = .number)
    (hread : (Parse.operand (d.push t)).Yields (.integer text) d ∨
      ∃ minus, minus.kind = .dash ∧
        (Parse.operand ((d.push t).push minus)).Yields (.integer text) d) :
    ∃ n v, Literal.integer? text.toList = some n ∧ -2147483648 ≤ n ∧ n ≤ 2147483647 ∧
      (Expr.integer text).lower scope = .ok v ∧
      (C.integer? v.code.toList = some n ↔
        ¬ (t.value.toList.head? = some '0' ∧ 8 ≤ n.natAbs)) := by
  have hscanned := scanned_of_mem hscan ht (by simp [hkind])
  obtain ⟨c, rest, hchars, hc⟩ := (hscanned.isNumber hkind).head
  rcases hread with hread | ⟨minus, hminus, hread⟩
  · obtain ⟨rfl, n, hn, hlow, hhigh⟩ := Literal.ofText?_integer (Parse.number_read hkind hread)
    refine ⟨n, _, hn, hlow, hhigh, rfl, ?_⟩
    obtain ⟨hdigits, rfl⟩ := Literal.integer?_digits hc (hchars ▸ hn)
    rw [hchars, (C.integer?_eq_iff hdigits).1, C.constant?_eq_iff hdigits, Int.natAbs_natCast]
  · obtain ⟨rfl, n, hn, hlow, hhigh⟩ := Literal.ofText?_integer (Parse.negative_read hminus hread)
    refine ⟨n, _, hn, hlow, hhigh, rfl, ?_⟩
    have hsigned : ("-" ++ t.value).toList = '-' :: t.value.toList := by simp
    rw [hsigned] at hn
    obtain ⟨hdigits, rfl⟩ := Literal.integer?_minus hn
    rw [hsigned, (C.integer?_eq_iff hdigits).2, C.constant?_eq_iff hdigits, Int.natAbs_neg,
      Int.natAbs_natCast]

/-! The smallest integer, in the tokens of its text. -/

def smallestSign : Token :=
  ⟨.dash, "-", ⟨0, 1, "main.lc"⟩⟩

def smallestDigits : Token :=
  ⟨.number, "2147483648", ⟨1, 11, "main.lc"⟩⟩

def smallestEnd : Cursor :=
  ⟨[], ⟨"EOF", ⟨11, 11, "main.lc"⟩⟩⟩

theorem integers_keep_value_smallest :
    scan "-2147483648" "main.lc" =
        .ok [smallestSign, smallestDigits, .endOfFile 11 "main.lc"] ∧
      (Parse.operand ((smallestEnd.push smallestDigits).push smallestSign)).Yields
        (.integer "-2147483648") smallestEnd ∧
      (Expr.integer "-2147483648").lower .root = .ok ⟨"-2147483648", .i32⟩ ∧
      C.integer? "-2147483648".toList = some (-2147483648) := by
  have hscan : scan "-2147483648" "main.lc" =
      .ok [smallestSign, smallestDigits, .endOfFile 11 "main.lc"] := by cbv
  have hread : (Parse.operand ((smallestEnd.push smallestDigits).push smallestSign)).Yields
      (.integer "-2147483648") smallestEnd :=
    Parse.yields_operand.mpr
      (.inl ⟨rfl, Parse.yields_afterMinus.mpr ⟨smallestDigits, rfl, rfl, by rfl⟩⟩)
  obtain ⟨n, v, hn, _, _, hlower, hvalue⟩ := integers_keep_value "-2147483648" "main.lc" _
    smallestDigits smallestEnd _ .root hscan (by simp) rfl (.inr ⟨smallestSign, rfl, hread⟩)
  cases hlower
  obtain rfl : n = -2147483648 := Option.some.inj (hn.symm.trans (by rfl))
  exact ⟨hscan, hread, rfl, hvalue.mpr (by simp [smallestDigits])⟩

/-- Ten becomes eight, and eight is no constant. -/
theorem leading_zero_octal :
    parseSource "let x = 010;" "main.lc" = .ok [.declare "x" (.integer "010")] ∧
      Program.lower [.declare "x" (.integer "010")] = .ok "int x = 010;" ∧
      Literal.integer? "010".toList = some 10 ∧ C.integer? "010".toList = some 8 ∧
      Literal.integer? "08".toList = some 8 ∧ C.integer? "08".toList = none := by
  refine ⟨by cbv, by rfl, by rfl, by rfl, by rfl, by rfl⟩

end LittleC
