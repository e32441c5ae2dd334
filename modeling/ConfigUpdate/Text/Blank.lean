import ConfigUpdate.Text.Split

/-!
# White space

The blank characters of Unicode (property `White_Space`) and the trimming of a text on both sides.
Operators type lists such as `" 25000 , 50000 "`, so every item is trimmed before it is compared.
-/

namespace ConfigUpdate.Text

/-- The characters with the Unicode property `White_Space`. -/
def isBlank (c : Char) : Bool :=
  let n := c.toNat
  (0x09 ≤ n && n ≤ 0x0D) || n == 0x20 || n == 0x85 || n == 0xA0 || n == 0x1680 ||
    (0x2000 ≤ n && n ≤ 0x200A) || n == 0x2028 || n == 0x2029 || n == 0x202F || n == 0x205F ||
    n == 0x3000

/-- A list of characters without its blank characters at both ends. -/
def trimChars (cs : List Char) : List Char :=
  ((cs.dropWhile isBlank).reverse.dropWhile isBlank).reverse

/-- A text without its blank characters at both ends. -/
def trim (s : String) : String :=
  String.ofList (trimChars s.toList)

/-- The items of a comma-separated list, each trimmed. -/
def commaItems (s : String) : List String :=
  (split ',' s).map trim

end ConfigUpdate.Text
