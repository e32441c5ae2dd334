import ConfigUpdate.Text.Digits

/-!
# Scanning lines of text

What the formats of settings have in common: blanks inside a line, the ends of lines, and characters
that are given by their codes.
-/

namespace ConfigUpdate.Text

/-- Reads something of type `α` from the front of a list of characters. -/
abbrev Scan (α : Type) := List Char → Option (α × List Char)

/-- Whether a character is a blank inside a line. -/
def isGap (c : Char) : Bool :=
  c == ' ' || c == '\t'

/-- The characters after a line end at the front. -/
def lineEnd? : List Char → Option (List Char)
  | '\n' :: cs => some cs
  | '\r' :: '\n' :: cs => some cs
  | _ => none

/-- The character with a code in hexadecimal digits. -/
def charOfCode? (digits : List Char) : Option Char := do
  let code ← digits.foldlM (fun n c => (hexDigit? c).map (16 * n + ·)) 0
  if code < 0xD800 ∨ (0xE000 ≤ code ∧ code < 0x110000) then some (Char.ofNat code) else none

end ConfigUpdate.Text
