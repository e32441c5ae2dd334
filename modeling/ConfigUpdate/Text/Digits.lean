/-!
# Natural numbers in text

Reading the decimal digits `0` to `9`. Settings, device data and pointers each allow a different
spelling, and every one of them is bounded by a machine word.
-/

namespace ConfigUpdate.Text

/-- The value of decimal digits; `none` for an empty list or another character. -/
def digits? (cs : List Char) : Option Nat :=
  if cs ≠ [] ∧ cs.all Char.isDigit then
    some (cs.foldl (fun n c => 10 * n + (c.toNat - '0'.toNat)) 0)
  else none

/-- The value of a hexadecimal digit. -/
def hexDigit? (c : Char) : Option Nat :=
  if '0' ≤ c ∧ c ≤ '9' then some (c.toNat - '0'.toNat)
  else if 'a' ≤ c ∧ c ≤ 'f' then some (c.toNat - 'a'.toNat + 10)
  else if 'A' ≤ c ∧ c ≤ 'F' then some (c.toNat - 'A'.toNat + 10)
  else none

/-- The natural number below `bound` that digits spell, after a plus sign or without one. -/
def unsigned? (bound : Nat) (s : String) : Option Nat := do
  let n ← digits? (match s.toList with
    | '+' :: cs => cs
    | cs => cs)
  if n < bound then some n else none

/-- The natural number below `bound` that digits spell, without a sign or leading zeros. -/
def index? (bound : Nat) (s : String) : Option Nat := do
  let cs := s.toList
  if cs.length > 1 ∧ cs.head? = some '0' then none
  else
    let n ← digits? cs
    if n < bound then some n else none

end ConfigUpdate.Text
