import ConfigUpdate.Text.Scan
import ConfigUpdate.Toml.Basic

/-!
# TOML texts, numbers and keys

The pieces of a settings file that hold no other values. A scanner answers with what it read and the
characters after it.
-/

namespace ConfigUpdate.Toml

open Text (Scan isGap lineEnd? charOfCode? hexDigit?)

/-- Whether a character may stand in a line: all but control characters other than the tab. -/
def inLine (c : Char) : Bool :=
  c == '\t' || (0x20 ≤ c.toNat && c.toNat != 0x7F)

/-! ## Texts -/

/-- The character of a short escape. -/
def shortEscape? : Char → Option Char
  | 'b' => some (Char.ofNat 8)
  | 't' => some '\t'
  | 'n' => some '\n'
  | 'f' => some (Char.ofNat 12)
  | 'r' => some '\r'
  | '"' => some '"'
  | '\\' => some '\\'
  | _ => none

/-- Whether only blanks stand before the next line end. -/
def blankToLineEnd (cs : List Char) : Bool :=
  (lineEnd? (cs.dropWhile isGap)).isSome

/-- Adds a character in front of what is scanned. -/
def andThen (c : Char) (r : Option (List Char × List Char)) : Option (List Char × List Char) :=
  r.map fun (s, cs) => (c :: s, cs)

/-- Reads a text after its opening quotes; `fuel` bounds the number of characters. A long text has
three quotes at each end and may run over lines, and a backslash at the end of a line joins it to
the next text. Escapes count only between double quotes. -/
def quoted (quote : Char) (long : Bool) : Nat → Scan (List Char)
  | fuel + 1, c :: cs =>
    if c = quote then
      if !long then some ([], cs)
      else if cs.take 4 = List.replicate 4 quote then some ([quote, quote], cs.drop 4)
      else if cs.take 3 = List.replicate 3 quote then some ([quote], cs.drop 3)
      else if cs.take 2 = List.replicate 2 quote then some ([], cs.drop 2)
      else andThen quote (quoted quote long fuel cs)
    else if c = '\\' ∧ quote = '"' then
      match cs with
      | 'u' :: cs => do
        andThen (← charOfCode? (cs.take 4)) (if cs.length < 4 then none else
          quoted quote long fuel (cs.drop 4))
      | 'U' :: cs => do
        andThen (← charOfCode? (cs.take 8)) (if cs.length < 8 then none else
          quoted quote long fuel (cs.drop 8))
      | e :: cs' =>
        match shortEscape? e with
        | some c => andThen c (quoted quote long fuel cs')
        | none =>
          if long && blankToLineEnd cs then
            quoted quote long fuel (cs.dropWhile fun c => isGap c || c == '\n' || c == '\r')
          else none
      | [] => none
    else
      match lineEnd? (c :: cs) with
      | some cs => if long then andThen '\n' (quoted quote long fuel cs) else none
      | none => if inLine c then andThen c (quoted quote long fuel cs) else none
  | _, _ => none

/-- Reads a text in quotes of one line. -/
def shortText : Scan String
  | c :: cs =>
    if c = '"' ∨ c = '\'' then
      (quoted c false (cs.length + 1) cs).map fun (s, cs) => (String.ofList s, cs)
    else none
  | [] => none

/-- Reads a text in quotes. The line end after three opening quotes does not count. -/
def text? : Scan String := fun cs =>
  match cs with
  | c :: c' :: c'' :: rest =>
    if (c = '"' ∨ c = '\'') ∧ c = c' ∧ c = c'' then
      let rest := (lineEnd? rest).getD rest
      (quoted c true (rest.length + 1) rest).map fun (s, cs) => (String.ofList s, cs)
    else shortText cs
  | cs => shortText cs

/-! ## Keys -/

/-- Whether a character may stand in a key without quotes. -/
def inBareKey (c : Char) : Bool :=
  c.isAlphanum || c == '_' || c == '-'

/-- Reads a key without dots. -/
def simpleKey : Scan String := fun cs =>
  match cs.takeWhile inBareKey with
  | [] => shortText cs
  | key => some (String.ofList key, cs.dropWhile inBareKey)

/-- Reads a key: its names before the last dot and the one after it; `fuel` bounds the number of
names. -/
def dottedKey : Nat → Scan (List String × String)
  | 0, _ => none
  | fuel + 1, cs => do
    let (name, cs) ← simpleKey (cs.dropWhile isGap)
    match cs.dropWhile isGap with
    | '.' :: cs => do
      let ((path, last), cs) ← dottedKey fuel cs
      return ((name :: path, last), cs)
    | cs => return (([], name), cs)

/-! ## Numbers -/

/-- The digits of a number with single underscores between them. -/
def plainDigits? (isDigit : Char → Bool) : List Char → Option (List Char)
  | [] => none
  | [c] => if isDigit c then some [c] else none
  | c :: '_' :: cs => if isDigit c then (plainDigits? isDigit cs).map (c :: ·) else none
  | c :: cs => if isDigit c then (plainDigits? isDigit cs).map (c :: ·) else none

/-- The digits of a decimal number without leading zeros. -/
def decimalDigits? (cs : List Char) : Option (List Char) := do
  let ds ← plainDigits? Char.isDigit cs
  if ds.length > 1 ∧ ds.head? = some '0' then none else some ds

/-- The number that digits in a base spell. -/
def inBase (base : Nat) (ds : List Char) : Nat :=
  ds.foldl (fun n c => base * n + (hexDigit? c).getD 0) 0

/-- The bounds within which an integer has to be. -/
def integerFits (i : Int) : Bool :=
  -Int.pow 2 127 ≤ i && i < Int.pow 2 128

/-- A word without its sign, and whether it is negative. -/
def splitSign : List Char → Bool × List Char
  | '-' :: cs => (true, cs)
  | '+' :: cs => (false, cs)
  | cs => (false, cs)

/-- The integer that a word spells. -/
def integer? (word : List Char) : Option Int := do
  let i : Int ← match word with
    | '0' :: 'x' :: ds =>
      (plainDigits? (fun c => (hexDigit? c).isSome) ds).map fun ds => inBase 16 ds
    | '0' :: 'o' :: ds => (plainDigits? (fun c => '0' ≤ c && c ≤ '7') ds).map fun ds => inBase 8 ds
    | '0' :: 'b' :: ds =>
      (plainDigits? (fun c => c == '0' || c == '1') ds).map fun ds => inBase 2 ds
    | _ =>
      let (negative, ds) := splitSign word
      (decimalDigits? ds).map fun ds => if negative then -(inBase 10 ds : Int) else inBase 10 ds
  if integerFits i then some i else none

/-- Whether characters are the part of a floating-point number after its exponent mark. -/
def isExponent (cs : List Char) : Bool :=
  (plainDigits? Char.isDigit (splitSign cs).2).isSome

/-- Whether characters are what may follow the digits before the point. -/
def isFraction : List Char → Bool
  | '.' :: cs =>
    let isMark (c : Char) : Bool := c == 'e' || c == 'E'
    (plainDigits? Char.isDigit (cs.takeWhile (!isMark ·))).isSome &&
      match cs.dropWhile (!isMark ·) with
      | [] => true
      | _ :: cs => isExponent cs
  | c :: cs => (c == 'e' || c == 'E') && isExponent cs
  | [] => false

/-- Whether a word spells a floating-point number. -/
def isFloat (word : List Char) : Bool :=
  let cs := (splitSign word).2
  if cs = ['i', 'n', 'f'] ∨ cs = ['n', 'a', 'n'] then true
  else
    let isWhole (c : Char) : Bool := c.isDigit || c == '_'
    (decimalDigits? (cs.takeWhile isWhole)).isSome && isFraction (cs.dropWhile isWhole)

/-- The value of a word. -/
def ofWord? (word : List Char) : Option Toml :=
  if word = ['t', 'r', 'u', 'e'] then some (.boolean true)
  else if word = ['f', 'a', 'l', 's', 'e'] then some (.boolean false)
  else
    match integer? word with
    | some i => some (.integer i)
    | none => if isFloat word then some .float else none

/-- Whether a character may stand in a word. -/
def inWord (c : Char) : Bool :=
  inBareKey c || c == '+' || c == '.'

end ConfigUpdate.Toml
