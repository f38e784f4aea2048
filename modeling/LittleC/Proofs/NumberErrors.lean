import Mathlib
import LittleC.Proofs.Constants
import LittleC.Proofs.Origins

/-! Numbers that cannot be read. A number of a source text has digits, and then perhaps a
fraction and a suffix. A fraction makes it a floating-point literal, and none of these is out
of range. Digits alone make an integer of 32 bits, to which a minus sign in front belongs, so
that one more is allowed behind it.

`numbers_refused_by_range`: what an operand gives that is a number, and that the parser fails
for a number exactly if it comes to an operand of digits that are out of range. -/
namespace LittleC

namespace Literal

/-! ### Texts of numbers -/

/-- The number that digits denote in base ten, the last digit counting least. -/
def decimalValue (cs : List Char) : Nat :=
  Nat.ofDigits 10 (cs.reverse.map fun c => c.toNat - '0'.toNat)

/-- What a number is written with in front. -/
def sign (negated : Bool) : String :=
  if negated then "-" else ""

/-- The largest number that fits 32 bits with its sign. -/
def limit (negated : Bool) : Nat :=
  if negated then 2147483648 else 2147483647

theorem decimalValue_concat (cs : List Char) (c : Char) :
    decimalValue (cs ++ [c]) = c.toNat - '0'.toNat + 10 * decimalValue cs := by
  rw [decimalValue, List.reverse_concat, List.map_cons, Nat.ofDigits_cons]
  rfl

theorem digitsValue_eq (cs : List Char) : digitsValue cs = decimalValue cs := by
  induction cs using List.reverseRecOn with
  | nil => rfl
  | append_singleton cs c ih =>
    have hstep : digitsValue (cs ++ [c]) = digitsValue cs * 10 + (c.toNat - '0'.toNat) :=
      C.valueIn_concat 10 cs c
    rw [hstep, ih, decimalValue_concat]
    omega

theorem unsigned_sign (negated : Bool) {c : Char} {rest : List Char} (hc : c.isDigit = true) :
    unsigned ((sign negated).toList ++ c :: rest) = (negated, c :: rest) := by
  cases negated with
  | false => exact unsigned_digit hc
  | true => rfl

theorem isInt32_signed (negated : Bool) {cs : List Char} (hcs : IsDigits cs) :
    isInt32 ((sign negated).toList ++ cs) = true ↔ decimalValue cs ≤ limit negated := by
  have hdigits : isDigits cs = true := isDigits_iff.mpr hcs
  obtain ⟨c, rest, rfl, hc⟩ := hcs.head
  have hvalue : integer? ((sign negated).toList ++ c :: rest) =
      some (if negated then -(decimalValue (c :: rest) : Int) else decimalValue (c :: rest)) := by
    simp only [integer?, unsigned_sign negated hc, hdigits, if_true, digitsValue_eq]
  simp only [isInt32, hvalue, Bool.and_eq_true, decide_eq_true_eq]
  cases negated
  · simp only [limit, Bool.false_eq_true, if_false]
    omega
  · simp only [limit, if_true]
    omega

theorem isDecimal_of_shape {cs : List Char} (hcs : IsDecimal cs) : isDecimal cs = true := by
  obtain ⟨whole, fraction, rfl, hwhole, hfraction⟩ := hcs
  have hrest : (whole ++ '.' :: fraction).dropWhile Char.isDigit = '.' :: fraction :=
    List.dropWhile_append_of_pos hwhole.2
  have hempty : fraction.dropWhile Char.isDigit = [] :=
    List.dropWhile_eq_nil_iff.mpr hfraction.2
  have htake : fraction.takeWhile Char.isDigit = fraction :=
    List.takeWhile_eq_self_iff.mpr hfraction.2
  simp only [isDecimal, hrest, htake, hempty]
  simp [hfraction.1, isExponent]

theorem isFloating_signed (negated : Bool) {cs : List Char} (hcs : IsDecimal cs) :
    isFloating ((sign negated).toList ++ cs) = true := by
  have hdecimal := isDecimal_of_shape hcs
  obtain ⟨c, rest, rfl, hc⟩ := hcs.head
  simp only [isFloating, unsigned_sign negated hc, hdecimal, Bool.true_or]

theorem ofText?_suffixed (negated : Bool) {value : String} (h : IsSuffixed value.toList) :
    ofText? (sign negated ++ value) = some (.float (sign negated ++ value)) := by
  obtain ⟨decimal, hvalue, hdecimal⟩ := h
  have hchars : (sign negated ++ value).toList = ((sign negated).toList ++ decimal) ++ ['f'] := by
    rw [String.toList_append, hvalue, List.append_assoc]
  simp only [ofText?, hchars, List.getLast?_concat, List.dropLast_concat, if_true,
    isFloating_signed negated hdecimal]

/-- A number without a suffix ends with a digit. -/
theorem getLast?_signed (negated : Bool) {value : String}
    (h : IsDigits value.toList ∨ IsDecimal value.toList) :
    (sign negated ++ value).toList.getLast? ≠ some 'f' := by
  have hdigits : ∃ front digits, value.toList = front ++ digits ∧ IsDigits digits := by
    rcases h with h | ⟨whole, fraction, hvalue, _, h⟩
    · exact ⟨[], _, rfl, h⟩
    · exact ⟨whole ++ ['.'], fraction, by simp [hvalue], h⟩
  obtain ⟨front, digits, hvalue, hne, hdigits⟩ := hdigits
  rw [String.toList_append, hvalue, ← List.append_assoc, List.getLast?_append_of_ne_nil _ hne]
  intro hlast
  exact absurd (hdigits 'f' (List.mem_of_getLast? hlast)) (by decide)

theorem ofText?_decimal (negated : Bool) {value : String} (h : IsDecimal value.toList) :
    ofText? (sign negated ++ value) = some (.double (sign negated ++ value)) := by
  have hpoint : (sign negated ++ value).toList.contains '.' = true := by
    obtain ⟨whole, fraction, hvalue, _⟩ := h
    simp [hvalue]
  have hfloating := isFloating_signed negated h
  rw [← String.toList_append] at hfloating
  simp only [ofText?, if_neg (getLast?_signed negated (.inr h)), hpoint, hfloating, if_true]

theorem ofText?_digits (negated : Bool) {value : String} (h : IsDigits value.toList) :
    ofText? (sign negated ++ value) =
      if decimalValue value.toList ≤ limit negated then some (.integer (sign negated ++ value))
      else none := by
  have hpoint : ¬ (sign negated ++ value).toList.contains '.' = true := by
    have hvalue : '.' ∉ value.toList := fun hmem => absurd (h.2 _ hmem) (by decide)
    cases negated <;> simp [sign, hvalue]
  have hint := isInt32_signed negated h
  rw [← String.toList_append] at hint
  simp only [ofText?, if_neg (getLast?_signed negated (.inl h)), if_neg hpoint, hint]

end Literal

/-! ### Operands -/

/-- What a number gives as an operand, perhaps behind a minus sign. -/
inductive Token.Gives (t : Token) (negated : Bool) : Except Error Expr → Prop where
  | float : IsSuffixed t.value.toList → Gives t negated (.ok (.float (Literal.sign negated ++ t.value)))
  | double : IsDecimal t.value.toList → Gives t negated (.ok (.double (Literal.sign negated ++ t.value)))
  | integer : IsDigits t.value.toList → Literal.decimalValue t.value.toList ≤ Literal.limit negated →
      Gives t negated (.ok (.integer (Literal.sign negated ++ t.value)))
  | refused : IsDigits t.value.toList → Literal.limit negated < Literal.decimalValue t.value.toList →
      Gives t negated (.error (.located (.invalidNumber (Literal.sign negated ++ t.value))
        ⟨t.span.start, t.span.file⟩))

theorem Literal.ofToken_gives {t : Token} (ht : IsNumber t.value.toList) (negated : Bool) :
    t.Gives negated (ofToken t (sign negated ++ t.value)) := by
  rcases ht with h | h | h
  · rw [ofToken, ofText?_digits negated h]
    by_cases hle : decimalValue t.value.toList ≤ limit negated
    · rw [if_pos hle]
      exact .integer h hle
    · rw [if_neg hle]
      exact .refused h (Nat.lt_of_not_le hle)
  · rw [ofToken, ofText?_decimal negated h]
    exact .double h
  · rw [ofToken, ofText?_suffixed negated h]
    exact .float h

/-- At a token that is no end of file, the cursor stands in front of the next one. -/
theorem Cursor.skip_eq_push {c : Cursor} {i : Nat} {t : Token} (hi : c.tokens[i]? = some t)
    (ht : t.kind ≠ .eof) : c.skip i = (c.skip (i + 1)).push t := by
  have hlt : i < c.tokens.length := (List.getElem?_eq_some_iff.mp hi).1
  have hcurrent : (c.skip i).current = t :=
    Option.some.inj ((skip_at c hlt).getElem?_eq.symm.trans hi)
  have hnext : (c.skip i).advance = c.skip (i + 1) := by
    simp [skip, advance]
  have hpush := eq_push (c := c.skip i) rfl (by rwa [kind, hcurrent])
  rwa [hnext, hcurrent] at hpush

theorem Cursor.At.next {d : Cursor} {u : Token} {ts : List Token} {i : Nat}
    (h : (d.push u).At ts i) : d.At ts (i + 1) := by
  rw [At, ← List.tail_drop, h]
  rfl

theorem Cursor.not_refusesNumber_unexpected (c : Cursor) (message : String) :
    ¬ (c.unexpected message).RefusesNumber := by
  simp [unexpected]

namespace Parse

/-- An operand at this position is a number, perhaps behind a minus sign. -/
def NumberAt (ts : List Token) (i : Nat) (negated : Bool) (t : Token) : Prop :=
  t.kind = .number ∧
    if negated then (∃ minus, ts[i]? = some minus ∧ minus.kind = .dash) ∧ ts[i + 1]? = some t
    else ts[i]? = some t

/-- The operand at a position of the tokens. -/
def operandAt (ts : List Token) (file : String) (i : Nat) :
    Reading 1 Expr ((Cursor.ofTokens ts file).skip i) :=
  operand ((Cursor.ofTokens ts file).skip i)

/-- The parser comes to read an operand at a position of the tokens. -/
def ReadsOperand (ts : List Token) (file : String) (i : Nat) : Prop :=
  Reaches (closed ts file) Code.operand i (.body .program) 0

/-- What an operand gives that is not in parentheses. -/
theorem operand_result {d : Cursor} {t : Token} (hopen : t.kind ≠ .openParen) :
    (operand (d.push t)).result =
      if t.kind = .dash then (afterMinus d).result
      else if t.kind.startsExpr then primaryOf t
      else .error ((d.push t).unexpected "expected an expression") := by
  show (operand ⟨t :: d.ahead, d.final⟩).result = _
  rw [operand, if_neg hopen]
  by_cases hdash : t.kind = .dash
  · rw [if_pos hdash, if_pos hdash]
    rfl
  · rw [if_neg hdash, if_neg hdash]
    by_cases hstarts : t.kind.startsExpr
    · rw [if_pos hstarts, if_pos hstarts, primary]
      cases primaryOf t <;> rfl
    · rw [if_neg hstarts, if_neg hstarts]
      rfl

theorem operand_end {c : Cursor} (h : c.ahead = []) :
    (operand c).result = .error (c.unexpected "expected an expression") := by
  obtain ⟨ahead, final⟩ := c
  obtain rfl : ahead = [] := h
  rw [operand]
  rfl

theorem afterMinus_result (d : Cursor) :
    (afterMinus d).result =
      if d.kind = .number then Literal.ofToken d.current ("-" ++ d.current.value)
      else .error (d.unexpected "only numeric literals can be negated") := by
  unfold afterMinus
  split <;> rfl

theorem operandAt_result {ts : List Token} {file : String} {i : Nat} {negated : Bool} {t : Token}
    (h : NumberAt (closed ts file) i negated t) :
    (operandAt ts file i).result = Literal.ofToken t (Literal.sign negated ++ t.value) := by
  obtain ⟨ht, h⟩ := h
  cases negated with
  | false =>
    have hcursor := Cursor.skip_eq_push h (by simp [ht])
    rw [operandAt, hcursor, operand_result (by simp [ht])]
    simp [primaryOf, ht, TokenKind.startsExpr, Literal.sign]
  | true =>
    obtain ⟨⟨minus, hi, hminus⟩, hnext⟩ := h
    have hcursor := Cursor.skip_eq_push hi (by simp [hminus])
    have hcursor' := Cursor.skip_eq_push hnext (by simp [ht])
    rw [operandAt, hcursor, hcursor', operand_result (by simp [hminus]), if_pos hminus,
      afterMinus_result, Cursor.kind_push, if_pos ht]
    rfl

theorem primaryOf_refused {t : Token} {e : Error} (he : primaryOf t = .error e)
    (href : e.RefusesNumber) : t.kind = .number := by
  obtain ⟨_, hcause⟩ := href
  unfold primaryOf at he
  split at he
  · assumption
  all_goals cases he
  cases hcause

/-- An operand is refused for a number only if it is one. -/
theorem numberAt_of_refused {ts : List Token} {file : String} {i : Nat} {t : Token} {e : Error}
    (he : (operandAt ts file i).result = .error e) (href : e.RefusesNumber)
    (ht : (closed ts file)[i]? = some t) (hopen : t.kind ≠ .openParen) :
    ∃ negated u, NumberAt (closed ts file) i negated u := by
  have hi : i < (closed ts file).length := (List.getElem?_eq_some_iff.mp ht).1
  have hat : ((Cursor.ofTokens ts file).skip i).At (closed ts file) i := Cursor.skip_at _ hi
  rw [operandAt] at he
  rcases Cursor.cases_push ((Cursor.ofTokens ts file).skip i) with hnil | ⟨u, d, hc⟩
  · rw [operand_end hnil] at he
    cases he
    exact absurd href (Cursor.not_refusesNumber_unexpected _ _)
  · rw [hc] at hat he
    obtain rfl : t = u := Option.some.inj (ht.symm.trans hat.getElem?_eq)
    rw [operand_result hopen] at he
    by_cases hdash : t.kind = .dash
    · rw [if_pos hdash, afterMinus_result] at he
      by_cases hnumber : d.kind = .number
      · exact ⟨true, d.current, hnumber, ⟨t, ht, hdash⟩, hat.next.getElem?_eq⟩
      · rw [if_neg hnumber] at he
        cases he
        exact absurd href (Cursor.not_refusesNumber_unexpected _ _)
    · rw [if_neg hdash] at he
      by_cases hstarts : t.kind.startsExpr
      · rw [if_pos hstarts] at he
        exact ⟨false, t, primaryOf_refused he href, ht⟩
      · rw [if_neg hstarts] at he
        cases he
        exact absurd href (Cursor.not_refusesNumber_unexpected _ _)

theorem operandAt_runs {ts : List Token} {file : String} {i : Nat} {r : Except Error Expr}
    (hi : i < (closed ts file).length) :
    (∃ es j, Runs (closed ts file) Code.operand i es r j) ↔ (operandAt ts file i).result = r := by
  have htraced : (operandAt ts file i).Traced False (closed ts file) Code.operand :=
    operand_traced _
  obtain ⟨es, j, hrun, _⟩ := htraced i (Cursor.skip_at _ hi)
  constructor
  · rintro ⟨es', j', hrun'⟩
    exact (hrun'.unique hrun).2.1
  · rintro rfl
    exact ⟨es, j, hrun⟩

theorem NumberAt.mem {ts : List Token} {i : Nat} {negated : Bool} {t : Token}
    (h : NumberAt ts i negated t) : t ∈ ts := by
  cases negated with
  | false => exact List.mem_of_getElem? h.2
  | true => exact List.mem_of_getElem? h.2.2

theorem NumberAt.lt_length {ts : List Token} {i : Nat} {negated : Bool} {t : Token}
    (h : NumberAt ts i negated t) : i < ts.length := by
  cases negated with
  | false => exact (List.getElem?_eq_some_iff.mp h.2).1
  | true => exact Nat.lt_of_succ_lt (List.getElem?_eq_some_iff.mp h.2.2).1

/-! ### The parser -/

/-- If an operand fails that the parser comes to, then so does the parser. -/
theorem parse_of_operandAt {ts : List Token} {file : String} {i : Nat} {e : Error}
    (hreach : ReadsOperand ts file i) (hi : i < (closed ts file).length)
    (he : (operandAt ts file i).result = .error e) : parse ts file = .error e := by
  obtain ⟨es, j, hfail⟩ := (operandAt_runs hi).mpr he
  obtain ⟨fs, hrun⟩ := hreach.broken hfail
  obtain ⟨gs, hparse, _⟩ := parse_runs ts file
  exact (hrun.unique hparse).2.1

/-- If the parser fails for a number, it has come to an operand that is one and that fails. -/
theorem operandAt_of_parse {ts : List Token} {file : String} {e : Error}
    (hparse : parse ts file = .error e) (he : e.RefusesNumber) :
    ∃ i negated t, ReadsOperand ts file i ∧ NumberAt (closed ts file) i negated t ∧
      (operandAt ts file i).result = .error e := by
  obtain ⟨es, hrun, _⟩ := parse_runs ts file
  rw [hparse] at hrun
  obtain ⟨i, t, fs, n, hreach, hfail, ht, hopen⟩ :=
    hrun.number_origin (Code.lenient_body .program rfl) rfl he
  have hi : i < (closed ts file).length := (List.getElem?_eq_some_iff.mp ht).1
  have hresult := (operandAt_runs hi).mp ⟨fs, n, hfail⟩
  obtain ⟨negated, u, hu⟩ := numberAt_of_refused hresult he ht hopen
  exact ⟨i, negated, u, hreach, hu, hresult⟩

theorem closed_of_scan {source file : String} {tokens : List Token}
    (h : scan source file = .ok tokens) : closed tokens file = tokens := by
  obtain ⟨us, rfl, _⟩ := (tiling_of_scan h).ended
  exact closed_of_eof rfl file

theorem operandAt_gives {source file : String} {tokens : List Token}
    (hscan : scan source file = .ok tokens) {i : Nat} {negated : Bool} {t : Token}
    (ht : NumberAt tokens i negated t) : t.Gives negated (operandAt tokens file i).result := by
  have hnumber := (scanned_of_mem hscan ht.mem (by simp [ht.1])).isNumber ht.1
  have hat : NumberAt (closed tokens file) i negated t := by rwa [closed_of_scan hscan]
  rw [operandAt_result hat]
  exact Literal.ofToken_gives hnumber negated

/-- **Numbers are refused by their range alone.** In the tokens of a source text, an operand that is
a number gives a literal with its text, the sign in front: a float if it has the suffix, a
double if it has only the point, and an integer if it is made of digits and fits 32 bits. The
parser fails for a number exactly if it comes to an operand of digits that do not, and then it
fails with their text at their place. -/
theorem numbers_refused_by_range (source file : String) (tokens : List Token)
    (hscan : scan source file = .ok tokens) :
    (∀ i negated t, NumberAt tokens i negated t → t.Gives negated (operandAt tokens file i).result) ∧
    ∀ text position, parse tokens file = .error ⟨.invalidNumber text, position⟩ ↔
      ∃ i negated t, ReadsOperand tokens file i ∧ NumberAt tokens i negated t ∧
        IsDigits t.value.toList ∧ Literal.limit negated < Literal.decimalValue t.value.toList ∧
        text = Literal.sign negated ++ t.value ∧ position = some ⟨t.span.start, t.span.file⟩ := by
  refine ⟨fun i negated t ht => operandAt_gives hscan ht, fun text position => ⟨fun hparse => ?_, ?_⟩⟩
  · obtain ⟨i, negated, t, hreach, ht, hresult⟩ := operandAt_of_parse hparse ⟨text, rfl⟩
    rw [closed_of_scan hscan] at ht
    have hgives := operandAt_gives hscan ht
    rw [hresult] at hgives
    cases hgives with
    | refused hdigits hrange => exact ⟨i, negated, t, hreach, ht, hdigits, hrange, rfl, rfl⟩
  · rintro ⟨i, negated, t, hreach, ht, hdigits, hrange, rfl, rfl⟩
    rw [← closed_of_scan hscan] at ht
    refine parse_of_operandAt hreach ht.lt_length ?_
    rw [operandAt_result ht, Literal.ofToken, Literal.ofText?_digits negated hdigits,
      if_neg (Nat.not_le_of_lt hrange)]
    rfl

/-! The first integer below the range, in the tokens of its text. -/

def belowMinus : Token :=
  ⟨.dash, "-", ⟨7, 8, "main.lc"⟩⟩

def belowDigits : Token :=
  ⟨.number, "2147483649", ⟨8, 18, "main.lc"⟩⟩

def below : List Token :=
  [⟨.kwReturn, "return", ⟨0, 6, "main.lc"⟩⟩, belowMinus, belowDigits,
    ⟨.semicolon, ";", ⟨18, 19, "main.lc"⟩⟩, ⟨.eof, "EOF", ⟨19, 19, "main.lc"⟩⟩]

theorem numbers_refused_by_range_below :
    scan "return -2147483649;" "main.lc" = .ok below ∧ NumberAt below 1 true belowDigits ∧
      belowDigits.Gives true (operandAt below "main.lc" 1).result ∧
      ReadsOperand below "main.lc" 1 ∧
      parse below "main.lc" = .error ⟨.invalidNumber "-2147483649", some ⟨8, "main.lc"⟩⟩ := by
  have hscan : scan "return -2147483649;" "main.lc" = .ok below := by cbv
  have hnumber : NumberAt below 1 true belowDigits := ⟨rfl, ⟨belowMinus, rfl, rfl⟩, rfl⟩
  have hreach : ReadsOperand below "main.lc" 1 :=
    .next (.look rfl) (.first (.inside (.next (.look rfl) (.inside (.next (.advance rfl)
      (.next (.look rfl) (.first (.inside (.first .here)))))))))
  have hdigits : IsDigits belowDigits.value.toList := Literal.isDigits_iff.mp (by rfl)
  have hrange : Literal.limit true < Literal.decimalValue belowDigits.value.toList := by decide
  obtain ⟨hgives, hrefused⟩ := numbers_refused_by_range _ _ below hscan
  exact ⟨hscan, hnumber, hgives 1 true _ hnumber, hreach,
    (hrefused _ _).mpr ⟨1, true, belowDigits, hreach, hnumber, hdigits, hrange, rfl, rfl⟩⟩

end Parse
end LittleC
