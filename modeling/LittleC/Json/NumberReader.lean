import LittleC.Json.Basic
import LittleC.Json.Input

/-! Reading numbers. The digits, with or without a point, are collected in 64 bits;
digits that no longer fit only move the point. A number with a fraction or an
exponent is that integer, as a double, times or divided by one power of ten, each
step rounded: close to the decimal, and not always the nearest double. -/
namespace LittleC.Json

def digitValue (c : Char) : Nat :=
  c.toNat - '0'.toNat

/-- Collects digits as long as 64 bits hold the result, and returns those left. -/
def absorb (significand : Nat) : List Char → Nat × List Char
  | [] => (significand, [])
  | d :: rest =>
    let n := significand * 10 + digitValue d
    if n ≤ 18446744073709551615 then absorb n rest else (significand, d :: rest)

/-- The double nearest to a power of ten up to `10 ^ 308`. -/
def powerOfTen (n : Nat) : Double :=
  (Double.ofRatio? false (Nat.pow 10 n) 1).getD (Double.zero false)

/-- A double times `10 ^ power`, in steps of at most `10 ^ 308`. -/
def scale? (x : Double) (power : Int) : Option Double :=
  if power.natAbs ≤ 308 then
    if 0 ≤ power then x.mul? (powerOfTen power.natAbs) else x.div? (powerOfTen power.natAbs)
  else if x.mantissa = 0 then some x
  else if h : 0 ≤ power then none
  else (x.div? (powerOfTen 308)).bind fun y => scale? y (power + 308)
termination_by (-power).toNat

/-- The double for a significand, a power of ten and a sign. -/
def ofParts? (negative : Bool) (significand : Nat) (power : Int) : Option Double :=
  match Double.ofRatio? false significand 1 with
  | none => none
  | some x => (scale? x power).map fun y => { y with negative := negative }

/-- The number that digits alone denote: whole where 64 bits hold it with its sign. -/
def wholeNumber (negative : Bool) (significand : Nat) : Number :=
  if !negative then .whole significand
  else if 0 < significand ∧ significand ≤ 9223372036854775808 then .whole (-significand)
  else .double ((ofParts? true significand 0).getD (Double.zero true))

/-- The value of exponent digits, or how many were read when it passed 31 bits. -/
def exponentValue (value read : Nat) : List Char → Except Nat Nat
  | [] => .ok value
  | d :: rest =>
    let n := value * 10 + digitValue d
    if n ≤ 2147483647 then exponentValue n (read + 1) rest else .error (read + 1)

/-! ### Runs of digits -/

namespace Input

def digits (i : Input) : List Char :=
  i.rest.takeWhile Char.isDigit

def dropDigits (i : Input) : Input :=
  ⟨i.rest.dropWhile Char.isDigit, i.mark.shift i.digits.length⟩

theorem size_dropDigits_le (i : Input) : i.dropDigits.size ≤ i.size :=
  (List.dropWhile_suffix Char.isDigit).length_le

end Input

/-- A double, or the fault of a number that no double is near enough to. -/
def rangeChecked {i : Input} (x : Option Double) (j : Input) (h : j.size < i.size) :
    Parsed Number i :=
  match x with
  | some x => .ok (.double x, ⟨j, h⟩)
  | none => .fail .numberOutOfRange j.mark

/-- The exponent of a number, after its mark. -/
def exponentFrom (negative : Bool) (significand : Nat) (power : Int) (i : Input) :
    Parsed Number i :=
  let (down, j) : Bool × { j : Input // j.size ≤ i.size } :=
    match i with
    | ⟨'+' :: r, m⟩ => (false, ⟨⟨r, m.shift 1⟩, Nat.le_of_lt (Input.size_tail_lt ..)⟩)
    | ⟨'-' :: r, m⟩ => (true, ⟨⟨r, m.shift 1⟩, Nat.le_of_lt (Input.size_tail_lt ..)⟩)
    | i => (false, ⟨i, Nat.le_refl _⟩)
  match j with
  | ⟨⟨[], m⟩, _⟩ => .fail .valueEnds m
  | ⟨⟨d :: r, m⟩, hj⟩ =>
    if !d.isDigit then .fail .invalidNumber (m.afterByte d)
    else
      let rest : Input := ⟨r, m.shift 1⟩
      have hrest : rest.size < i.size := Nat.lt_of_lt_of_le (Input.size_tail_lt ..) hj
      have hdone : rest.dropDigits.size < i.size :=
        Nat.lt_of_le_of_lt rest.size_dropDigits_le hrest
      match exponentValue (digitValue d) 1 rest.digits with
      | .error n =>
        if significand != 0 && !down then .fail .numberOutOfRange (m.shift n)
        else .ok (.double (Double.zero negative), ⟨rest.dropDigits, hdone⟩)
      | .ok e =>
        let e : Int := if down then -e else e
        rangeChecked (ofParts? negative significand (power + e)) rest.dropDigits hdone

/-- Whether an exponent follows. -/
def exponentMark (c : Char) : Bool :=
  c == 'e' || c == 'E'

/-- An exponent, if one follows, and the end of the number. -/
def scaledFrom (negative : Bool) (significand : Nat) (power : Int) {i : Input} (j : Input)
    (h : j.size < i.size) : Parsed Number i :=
  match j with
  | ⟨c :: r, m⟩ =>
    if exponentMark c then
      (exponentFrom negative significand power ⟨r, m.shift 1⟩).widen
        (Nat.le_of_lt (Nat.lt_trans (Input.size_tail_lt ..) h))
    else rangeChecked (ofParts? negative significand power) ⟨c :: r, m⟩ h
  | ⟨[], m⟩ => rangeChecked (ofParts? negative significand power) ⟨[], m⟩ h

/-- The rest of a number from its point on. -/
def fractionFrom (negative : Bool) (significand : Nat) (power : Int) {i : Input} (j : Input)
    (h : j.size < i.size) : Parsed Number i :=
  let fraction := j.digits
  if fraction.isEmpty then
    .fail (if j.rest.isEmpty then .valueEnds else .invalidNumber) j.next
  else
    let (n, left) := absorb significand fraction
    let taken := fraction.length - left.length
    scaledFrom negative n (power - taken) j.dropDigits
      (Nat.lt_of_le_of_lt j.size_dropDigits_le h)

/-- A number from its first digit on. -/
def numberFrom (negative : Bool) (i : Input) : Parsed Number i :=
  match i with
  | ⟨[], m⟩ => .fail .valueEnds m
  | ⟨d :: r, m⟩ =>
    let rest : Input := ⟨r, m.shift 1⟩
    if !d.isDigit then .fail .invalidNumber (m.afterByte d)
    else if d == '0' && !rest.digits.isEmpty then .fail .invalidNumber rest.next
    else
      let (n, left) := absorb 0 (d :: rest.digits)
      have hrest : rest.dropDigits.size < (Input.mk (d :: r) m).size :=
        Nat.lt_of_le_of_lt rest.size_dropDigits_le (Input.size_tail_lt ..)
      match hj : rest.dropDigits with
      | ⟨'.' :: r', m'⟩ =>
        fractionFrom negative n left.length ⟨r', m'.shift 1⟩
          (Nat.lt_trans (Input.size_tail_lt ..) (hj ▸ hrest))
      | ⟨c :: r', m'⟩ =>
        if exponentMark c || !left.isEmpty then
          scaledFrom negative n left.length ⟨c :: r', m'⟩ (hj ▸ hrest)
        else .ok (wholeNumber negative n, ⟨⟨c :: r', m'⟩, hj ▸ hrest⟩)
      | ⟨[], m'⟩ =>
        if !left.isEmpty then
          scaledFrom negative n left.length ⟨[], m'⟩ (hj ▸ hrest)
        else .ok (wholeNumber negative n, ⟨⟨[], m'⟩, hj ▸ hrest⟩)

end LittleC.Json
