/-!
# Double-precision numbers

Finite binary floating-point numbers with a significand of 53 bits, as exact integers: a sign, a
significand and a power of two. Rounding is done on fractions of naturals, so every operation is an
ordinary total function and its result can be computed by hand.
-/

namespace ConfigUpdate

/-- A finite double-precision number: the value is `significand * 2 ^ exponent`, with a sign that
zero has too. -/
structure Binary64 where
  /-- Whether the sign is a minus. -/
  negative : Bool
  /-- The significand, below `2 ^ 53`. -/
  significand : Nat
  /-- The exponent of two, between `-1074` and `971`. -/
  exponent : Int
  deriving DecidableEq, Repr, Inhabited

namespace Binary64

/-- The zero of a sign. -/
def zero (negative : Bool) : Binary64 :=
  ⟨negative, 0, -1074⟩

/-- Whether the number is one of the two zeros. -/
def isZero (x : Binary64) : Bool :=
  x.significand == 0

/-- Numeric equality: the two zeros are one number. -/
def same (x y : Binary64) : Bool :=
  x == y || (x.isZero && y.isZero)

/-- The 64 bits of the number: the sign, the exponent field and the significand without its leading
bit, which is carried into the exponent field. -/
def bits (x : Binary64) : UInt64 :=
  let sign : Int := if x.negative then Int.pow 2 63 else 0
  UInt64.ofInt (sign + (x.exponent + 1074) * Int.pow 2 52 + x.significand)

/-- The least exponent of two. -/
def minExponent : Int := -1074

/-- The greatest exponent of two. -/
def maxExponent : Int := 971

/-- The fraction `num / den` times `2 ^ e`, as a fraction. -/
def scaleFraction (num den : Nat) (e : Int) : Nat × Nat :=
  if 0 ≤ e then (num * Nat.pow 2 e.toNat, den) else (num, den * Nat.pow 2 (-e).toNat)

/-- The quotient of two naturals, rounded to the nearest one and from the middle to the even one. -/
def divRound (num den : Nat) : Nat :=
  let q := num / den
  let r := num % den
  if 2 * r > den || (2 * r == den && q % 2 == 1) then q + 1 else q

/-- The exponent at which the significand of `num / den` has 53 bits, but never below the least
exponent. -/
def exponentFor (num den : Nat) : Int :=
  let guess : Int := (num.log2 : Int) - den.log2 - 52
  let (n, d) := scaleFraction num den (-guess)
  max minExponent (if n < d * Nat.pow 2 52 then guess - 1 else guess)

/-- The positive fraction `num / den` as the nearest number; `none` if that is out of range. -/
def ofFraction? (num den : Nat) : Option Binary64 :=
  if num = 0 then some (zero false)
  else
    let e := exponentFor num den
    let (n, d) := scaleFraction num den (-e)
    let s := divRound n d
    let x : Binary64 := if s = Nat.pow 2 53 then ⟨false, Nat.pow 2 52, e + 1⟩ else ⟨false, s, e⟩
    if x.exponent > maxExponent then none else some x

/-- A natural number as the nearest number; `none` if that is out of range. -/
def ofNat? (n : Nat) : Option Binary64 :=
  ofFraction? n 1

/-- The rounded product of two numbers, for their absolute values. -/
def mulAbs? (x y : Binary64) : Option Binary64 :=
  let (n, d) := scaleFraction (x.significand * y.significand) 1 (x.exponent + y.exponent)
  ofFraction? n d

/-- The rounded quotient of two numbers, for their absolute values; the second one is not zero. -/
def divAbs? (x y : Binary64) : Option Binary64 :=
  let (n, d) := scaleFraction x.significand y.significand (x.exponent - y.exponent)
  ofFraction? n d

/-- The power of ten with a natural exponent up to 308, rounded. -/
def powerOfTen (k : Nat) : Binary64 :=
  (ofNat? (Nat.pow 10 k)).getD (zero false)

/-- The number times `10 ^ k`, by one rounded multiplication or division for an exponent of at most
308, after rounded divisions by `10 ^ 308` for a lower one. A product out of range is `none`. -/
def scaleTen? (x : Binary64) (k : Int) : Option Binary64 :=
  if 308 < k then if x.isZero then some x else none
  else if 0 ≤ k then mulAbs? x (powerOfTen k.toNat)
  else if -308 ≤ k then divAbs? x (powerOfTen (-k).toNat)
  else if x.isZero then some x
  else do scaleTen? (← divAbs? x (powerOfTen 308)) (k + 308)
termination_by (-k).toNat
decreasing_by omega

/-- The number that a decimal text denotes by its sign, its digits as one natural, and the power of
ten of the last digit. The digits are rounded first and scaled afterwards, so the result can lie one
unit off the nearest number. -/
def ofDecimal? (negative : Bool) (digits : Nat) (k : Int) : Option Binary64 := do
  let x ← scaleTen? (← ofNat? digits) k
  return { x with negative }

end Binary64

end ConfigUpdate
