/-!
# Mixing hashes

Hashes of 64 bits as plain arithmetic. Nothing but equality of hashes is ever used, and any other good way to
mix them would do.
-/

namespace ConfigUpdate.Mix

/-- The hash of a pair from the hashes of its parts. -/
def pair (h k : UInt64) : UInt64 :=
  let x := (h ^^^ (h >>> 32)) * 0x9E3779B97F4A7C15 + k
  (x ^^^ (x >>> 29)) * 0xBF58476D1CE4E5B9

/-- The hash of a list of numbers after what came before. -/
def numbers (h : UInt64) (ns : List Nat) : UInt64 :=
  ns.foldl (fun h n => pair h n.toUInt64) (pair h ns.length.toUInt64)

/-- The hash of a text. -/
def text (s : String) : UInt64 :=
  numbers 7 (s.toList.map Char.toNat)

end ConfigUpdate.Mix
