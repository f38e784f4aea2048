/-! Double-precision numbers in exact arithmetic: a finite value is a sign and
`mantissa * 2 ^ exponent`. `ofRatio?` rounds a quotient of natural numbers to the
nearest such value, and every operation here is that rounding applied to the exact
result. `shortest` goes back: the fewest decimal digits that still round to the
value, and of those the nearest. -/
namespace LittleC.Json

/-- A finite double. The mantissa has 53 bits, or fewer when the exponent is the
least one. -/
structure Double where
  negative : Bool
  mantissa : Nat
  exponent : Int
  deriving DecidableEq, Repr

namespace Double

def leastExponent : Int := -1074
def greatestExponent : Int := 971

def zero (negative : Bool) : Double :=
  ⟨negative, 0, leastExponent⟩

/-- The least magnitude with 53 bits. -/
def leastNormal : Nat := 4503599627370496

/-! ### Rounding -/

/-- The integer nearest to a quotient; a half goes to the even neighbour. -/
def roundHalfEven (num den : Nat) : Nat :=
  let q := num / den
  let r := num % den
  if 2 * r < den then q
  else if den < 2 * r then q + 1
  else if q % 2 = 0 then q
  else q + 1

/-- The quotient divided by `2 ^ e`, rounded to an integer. -/
def roundScaled (num den : Nat) (e : Int) : Nat :=
  roundHalfEven (num * Nat.pow 2 (-e).toNat) (den * Nat.pow 2 e.toNat)

/-- The exponent that leaves 53 bits of a positive quotient, or the least one. -/
def exponentOf (num den : Nat) : Int :=
  let e : Int := (num.log2 : Int) - (den.log2 : Int) - 53
  let q := num * Nat.pow 2 (-e).toNat / (den * Nat.pow 2 e.toNat)
  max leastExponent (if q < 2 * leastNormal then e else e + 1)

/-- The double nearest to a quotient, if one is near enough. -/
def ofRatio? (negative : Bool) (num den : Nat) : Option Double :=
  if num = 0 then some (zero negative)
  else
    let e := exponentOf num den
    let m := roundScaled num den e
    let (m, e) := if m = 2 * leastNormal then (leastNormal, e + 1) else (m, e)
    if e ≤ greatestExponent then some ⟨negative, m, e⟩ else none

/-- The magnitude of a double as a quotient. -/
def ratio (x : Double) : Nat × Nat :=
  (x.mantissa * Nat.pow 2 x.exponent.toNat, Nat.pow 2 (-x.exponent).toNat)

/-- The product, rounded. -/
def mul? (x y : Double) : Option Double :=
  ofRatio? (x.negative != y.negative) (x.ratio.1 * y.ratio.1) (x.ratio.2 * y.ratio.2)

/-- The quotient, rounded, for a divisor that is not zero. -/
def div? (x y : Double) : Option Double :=
  ofRatio? (x.negative != y.negative) (x.ratio.1 * y.ratio.2) (x.ratio.2 * y.ratio.1)

/-! ### Shortest decimals -/

/-- A decimal `digits * 10 ^ power`. -/
structure Decimal where
  digits : Nat
  power : Int
  deriving DecidableEq, Repr

/-- A multiple of `2 ^ (e - 2)` on the scale common with the grid `10 ^ p`. -/
def binaryScale (e p : Int) (n : Nat) : Nat :=
  n * Nat.pow 2 (e - 2).toNat * Nat.pow 10 (-p).toNat

/-- A multiple of `10 ^ p` on the same scale. -/
def decimalScale (e p : Int) (n : Nat) : Nat :=
  n * Nat.pow 10 p.toNat * Nat.pow 2 (2 - e).toNat

/-- Whether `n * 10 ^ p` rounds to the magnitude of `x`. The ends of the interval
belong to it when the mantissa is even, and the gap below a power of two is half
as wide. -/
def roundsTo (x : Double) (p : Int) (n : Nat) : Bool :=
  let m := x.mantissa
  let below := if m = leastNormal ∧ leastExponent < x.exponent then 1 else 2
  let low := binaryScale x.exponent p (4 * m - below)
  let high := binaryScale x.exponent p (4 * m + 2)
  let point := decimalScale x.exponent p n
  if m % 2 = 0 then decide (low ≤ point) && decide (point ≤ high)
  else decide (low < point) && decide (point < high)

/-- The point of the grid `10 ^ p` that stands for `x`: of its two neighbours there
the nearer that rounds to it, and of two equally near the even one. -/
def onGrid? (x : Double) (p : Int) : Option Nat :=
  let exact := binaryScale x.exponent p (4 * x.mantissa)
  let unit := decimalScale x.exponent p 1
  let n := exact / unit
  let lower := n != 0 && x.roundsTo p n
  let upper := x.roundsTo p (n + 1)
  if lower && upper then
    let r := exact % unit
    if 2 * r < unit then some n
    else if unit < 2 * r then some (n + 1)
    else if n % 2 = 0 then some n
    else some (n + 1)
  else if lower then some n
  else if upper then some (n + 1)
  else none

/-- The first grid with a point for `x`, from `10 ^ p` downwards. -/
def scanGrids (x : Double) : (steps : Nat) → (p : Int) → Option Decimal
  | 0, _ => none
  | steps + 1, p =>
    match x.onGrid? p with
    | some n => some ⟨n, p⟩
    | none => x.scanGrids steps (p - 1)

/-- A power of ten above the magnitude of `x`, by at most a factor of a thousand. -/
def topPower (x : Double) : Int :=
  ((x.mantissa.log2 : Int) + 1 + x.exponent) * 30103 / 100000 + 1

/-- The fewest digits that read back as `x`. Seventeen always do. -/
def shortest (x : Double) : Decimal :=
  (x.scanGrids 21 x.topPower).getD ⟨0, 0⟩

/-! ### Text -/

/-- The sign and the digits around the point, or in scientific form where the
magnitude is below `10 ^ -5` or from `10 ^ 16` on. A fraction is always written. -/
def text (x : Double) : String :=
  let sign := if x.negative then "-" else ""
  if x.mantissa = 0 then sign ++ "0.0"
  else
    let d := x.shortest
    let digits := Nat.toDigits 10 d.digits
    let point : Int := digits.length + d.power
    let body : List Char :=
      if -5 < point ∧ point ≤ 16 then
        if 0 ≤ d.power then digits ++ List.replicate d.power.toNat '0' ++ ['.', '0']
        else if 0 < point then
          digits.take point.toNat ++ '.' :: digits.drop point.toNat
        else '0' :: '.' :: List.replicate (-point).toNat '0' ++ digits
      else
        let e := point - 1
        let fraction := if digits.length = 1 then [] else '.' :: digits.drop 1
        let mark := if e < 0 then '-' else '+'
        digits.take 1 ++ fraction ++ 'e' :: mark :: Nat.toDigits 10 e.natAbs
    sign ++ String.ofList body

end Double
end LittleC.Json
