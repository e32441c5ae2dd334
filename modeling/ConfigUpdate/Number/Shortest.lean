import ConfigUpdate.Number.Binary64

/-!
# Shortest decimals

The decimal of fewest digits that reads back as a given double-precision number, and its text. All
reals in an interval around the number round to it; on the decimal grids of one, two, … seventeen
digits the first one with a point in that interval gives the digits, and of two such points the one
nearer to the number.
-/

namespace ConfigUpdate

/-- A positive decimal: `digits * 10 ^ exponent`. -/
structure Decimal where
  /-- The digits, as one natural number. -/
  digits : Nat
  /-- The power of ten of the last digit. -/
  exponent : Int
  deriving DecidableEq, Repr

namespace Decimal

/-- The number of decimal digits of a natural number. -/
def digitCount (n : Nat) : Nat :=
  (Nat.toDigits 10 n).length

/-- The exponent `e` with `10 ^ e ≤ num / den < 10 ^ (e + 1)`. -/
def leadingExponent (num den : Nat) : Int :=
  if den ≤ num then (digitCount (num / den) : Int) - 1
  else
    let l := digitCount (den / num)
    if den ≤ num * Nat.pow 10 (l - 1) then 1 - (l : Int) else -(l : Int)

/-- The decimal without trailing zeros among its digits; `fuel` bounds their number. -/
def dropZeros : Nat → Decimal → Decimal
  | 0, d => d
  | fuel + 1, d =>
    if d.digits ≠ 0 ∧ d.digits % 10 = 0 then dropZeros fuel ⟨d.digits / 10, d.exponent + 1⟩ else d

/-- The reals that round to `significand * 2 ^ exponent`, in quarters of `2 ^ exponent`: the lower
bound, the number and the upper bound. Below a power of two the next number is half as far away. -/
def roundingQuarters (x : Binary64) : Nat × Nat × Nat :=
  let v := 4 * x.significand
  let low := if x.significand = Nat.pow 2 52 ∧ x.exponent > Binary64.minExponent then v - 1 else v - 2
  (low, v, v + 2)

/-- The point of the grid `10 ^ k` that reads back as `x` and is nearest to it, if there is one. -/
def onGrid? (x : Binary64) (k : Int) : Option Decimal :=
  let (low, v, high) := roundingQuarters x
  -- A quarter of a unit is `qn / qd` steps of the grid.
  let (bn, bd) := Binary64.scaleFraction 1 1 (x.exponent - 2)
  let (qn, qd) := if 0 ≤ k then (bn, bd * Nat.pow 10 k.toNat) else (bn * Nat.pow 10 (-k).toNat, bd)
  let below := v * qn / qd
  let closed := x.significand % 2 == 0
  let fits (c : Nat) : Bool :=
    if closed then low * qn ≤ c * qd && c * qd ≤ high * qn
    else low * qn < c * qd && c * qd < high * qn
  let down := v * qn - below * qd
  let up := (below + 1) * qd - v * qn
  match fits below && below != 0, fits (below + 1) with
  | true, true =>
    some ⟨if down < up || (down == up && below % 2 == 0) then below else below + 1, k⟩
  | true, false => some ⟨below, k⟩
  | false, true => some ⟨below + 1, k⟩
  | false, false => none

/-- The decimal of fewest digits that reads back as the number, for one that is not zero. -/
def shortest (x : Binary64) : Decimal :=
  let (num, den) := Binary64.scaleFraction x.significand 1 x.exponent
  let e := leadingExponent num den
  let found := (List.range 17).findSome? fun n : Nat => onGrid? x (e - n)
  dropZeros 20 (found.getD ⟨x.significand, x.exponent⟩)

/-- The digits of a decimal of at least one digit, without a point. -/
def digitText (d : Decimal) : String :=
  String.ofList (Nat.toDigits 10 d.digits)

/-- A text of `n` zeros. -/
def zeros (n : Nat) : String :=
  String.ofList (List.replicate n '0')

/-- The text of a positive decimal. Leading exponents from `-5` to `15` are written positionally,
with at least one digit after the point, and the others with a signed exponent. -/
def render (d : Decimal) : String :=
  let text := digitText d
  let count := text.length
  let lead : Int := count + d.exponent - 1
  if 0 ≤ lead ∧ lead ≤ 15 then
    let whole := lead.toNat + 1
    if count ≤ whole then text ++ zeros (whole - count) ++ ".0"
    else String.ofList (text.toList.take whole) ++ "." ++ String.ofList (text.toList.drop whole)
  else if -5 ≤ lead ∧ lead < 0 then "0." ++ zeros ((-lead).toNat - 1) ++ text
  else
    let fraction := if count = 1 then "" else "." ++ String.ofList (text.toList.drop 1)
    let power := if 0 ≤ lead then "e+" ++ toString lead.toNat else "e-" ++ toString (-lead).toNat
    String.ofList (text.toList.take 1) ++ fraction ++ power

end Decimal

/-- The text of a double-precision number: the shortest decimal that reads back, a zero as `0.0`. -/
def Binary64.render (x : Binary64) : String :=
  (if x.negative then "-" else "") ++
    (if x.isZero then "0.0" else (Decimal.shortest x).render)

end ConfigUpdate
