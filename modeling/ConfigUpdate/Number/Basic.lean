import ConfigUpdate.Mix
import ConfigUpdate.Number.Shortest

/-!
# Numbers

The numbers of a configuration are integers, as far as they fit into 64 bits, and double-precision
numbers. An integer and a double are different values even where they are numerically equal, so a
configuration is read and written back unchanged. Main statement: `Number.same` is an equivalence.
-/

namespace ConfigUpdate

/-- A number of a configuration. -/
inductive Number where
  /-- An integer between `-2 ^ 63` and `2 ^ 64 - 1`. -/
  | integer (value : Int)
  /-- Any other number. -/
  | double (value : Binary64)
  deriving DecidableEq, Repr, Inhabited

namespace Number

/-- Whether an integer is kept as one: whether it fits into 64 bits, signed or unsigned. -/
def fitsInteger (i : Int) : Bool :=
  -Int.pow 2 63 ≤ i && i < Int.pow 2 64

/-- Equality of numbers: of one kind and numerically equal. -/
def same : Number → Number → Bool
  | integer i, integer j => i == j
  | double x, double y => x.same y
  | _, _ => false

/-- The text of a number. -/
def render : Number → String
  | integer i => toString i
  | double x => x.render

/-- Reads digits into a natural number as long as it stays below `2 ^ 64`: the number, how many
digits it took, and the digits that did not fit. -/
def takeDigits (n : Nat) : List Char → Nat × Nat × List Char
  | [] => (n, 0, [])
  | c :: cs =>
    let m := 10 * n + (c.toNat - '0'.toNat)
    if m < UInt64.size then
      let (m, taken, rest) := takeDigits m cs
      (m, taken + 1, rest)
    else (n, 0, c :: cs)

/-- The parts of the text of a number: the digits before and after the point and the exponent. -/
structure Literal where
  /-- Whether the text starts with a minus. -/
  negative : Bool
  /-- The digits of the whole part. -/
  whole : List Char
  /-- The digits after the point, if there is one. -/
  fraction : Option (List Char)
  /-- The exponent, if there is one. -/
  exponent : Option Int
  deriving DecidableEq, Repr

/-- The number that a literal denotes, `none` for one out of range. Only the leading digits that fit
into 64 bits count, and the others of the whole part only by their number. -/
def Literal.value? (l : Literal) : Option Number :=
  let (n, _, dropped) := takeDigits 0 l.whole
  let signed : Int := if l.negative then -n else n
  if l.fraction = none ∧ l.exponent = none ∧ dropped = [] ∧ fitsInteger signed ∧
      ¬(l.negative = true ∧ n = 0) then
    some (integer signed)
  else
    let (n, taken, _) := takeDigits n (l.fraction.getD [])
    let k : Int := dropped.length - taken + l.exponent.getD 0
    (Binary64.ofDecimal? l.negative n k).map double

/-- The 64 bits of a number. Nothing in them tells an integer from a double, and so the zeros of both
kinds are alike. -/
def bits : Number → UInt64
  | integer i => UInt64.ofInt i
  | double x => if x.isZero then 0 else x.bits

/-- A hash that equal numbers share. -/
def mix (x : Number) : UInt64 :=
  Mix.pair 3 x.bits

/-! ## Equality is an equivalence -/

theorem same_refl (x : Number) : same x x = true := by
  cases x <;> simp [same, Binary64.same]

theorem same_symm {x y : Number} (h : same x y = true) : same y x = true := by
  cases x <;> cases y <;> simp_all [same, Binary64.same]
  rcases h with h | h
  · exact .inl h.symm
  · exact .inr ⟨h.2, h.1⟩

theorem same_trans {x y z : Number} (h : same x y = true) (h' : same y z = true) :
    same x z = true := by
  cases x <;> cases y <;> cases z <;> simp_all [same, Binary64.same]
  rcases h with rfl | h
  · exact h'
  · rcases h' with rfl | h'
    · exact .inr h
    · exact .inr ⟨h.1, h'.2⟩

end Number

end ConfigUpdate
