import ConfigUpdate.Text.Digits
import ConfigUpdate.Value.Basic

/-!
# JSON tokens

The tokens of a JSON text. Scanning never fails: where the text is no JSON, the list of tokens ends
with `Token.invalid`, so a reader meets the faults of a text in the order in which they stand there.
A number out of range and a text with half a surrogate pair are tokens without a value, because a
reader that skips a member accepts them.
-/

namespace ConfigUpdate.Json

/-- A token of a JSON text. -/
inductive Token where
  | openBrace
  | closeBrace
  | openBracket
  | closeBracket
  | colon
  | comma
  /-- `null`, `true` or `false`. -/
  | word (value : Scalar)
  /-- A number, without a value if it is out of range. -/
  | number (value : Option Number)
  /-- A text, without a value if it holds half a surrogate pair. -/
  | text (value : Option String)
  /-- Here the text stops being JSON. -/
  | invalid
  deriving DecidableEq, Repr

/-! ## Numbers -/

/-- The digits at the front of a list of characters, and what follows them. -/
def spanDigits (cs : List Char) : List Char × List Char :=
  cs.span Char.isDigit

/-- The exponent at the front of a list of characters, if a letter `e` stands there: `none` for a
letter without digits. -/
def exponent? : List Char → Option (Option Int × List Char)
  | 'e' :: cs | 'E' :: cs =>
    let (negative, cs) := match cs with
      | '-' :: cs => (true, cs)
      | '+' :: cs => (false, cs)
      | cs => (false, cs)
    match spanDigits cs with
    | ([], _) => none
    | (ds, cs) =>
      let n : Nat := ds.foldl (fun n c => 10 * n + (c.toNat - '0'.toNat)) 0
      some (some (if negative then -n else n), cs)
  | cs => some (none, cs)

/-- The digits after a point at the front of a list of characters: `none` for a point without
digits. -/
def fraction? : List Char → Option (Option (List Char) × List Char)
  | '.' :: cs =>
    match spanDigits cs with
    | ([], _) => none
    | (ds, cs) => some (some ds, cs)
  | cs => some (none, cs)

/-- The literal that a whole list of characters spells: no leading zeros, digits on both sides of
the point. -/
def literal? (cs : List Char) : Option Number.Literal := do
  let (negative, cs) := match cs with
    | '-' :: cs => (true, cs)
    | cs => (false, cs)
  let (whole, cs) := spanDigits cs
  if whole = [] ∨ (whole.length > 1 ∧ whole.head? = some '0') then none
  else
    let (fraction, cs) ← fraction? cs
    let (exponent, cs) ← exponent? cs
    if cs = [] then some ⟨negative, whole, fraction, exponent⟩ else none

/-- Whether a character can stand in a number. -/
def inNumber (c : Char) : Bool :=
  c.isDigit || c == '-' || c == '+' || c == '.' || c == 'e' || c == 'E'

/-- The token of the characters of a number. -/
def numberToken (cs : List Char) : Token :=
  match literal? cs with
  | some l => .number l.value?
  | none => .invalid

/-! ## Texts -/

/-- A character of a text, or a unit of 16 bits written as an escape. -/
inductive Piece where
  | char (c : Char)
  | unit (n : Nat)
  deriving DecidableEq, Repr

/-- The characters of a list of pieces; the units of a surrogate pair stand for one character, and
half a pair for none. -/
def decode? : List Piece → Option (List Char)
  | [] => some []
  | .char c :: ps => (decode? ps).map (c :: ·)
  | .unit n :: ps =>
    if 0xD800 ≤ n ∧ n < 0xDC00 then
      match ps with
      | .unit m :: ps =>
        if 0xDC00 ≤ m ∧ m < 0xE000 then
          (decode? ps).map (Char.ofNat (0x10000 + (n - 0xD800) * 0x400 + (m - 0xDC00)) :: ·)
        else none
      | _ => none
    else if 0xDC00 ≤ n ∧ n < 0xE000 then none
    else (decode? ps).map (Char.ofNat n :: ·)

/-- The token of the pieces of a text. -/
def textToken (pieces : List Piece) : Token :=
  .text ((decode? pieces).map String.ofList)

/-- The character that a backslash and a letter stand for. -/
def shortEscape? : Char → Option Char
  | '"' => some '"'
  | '\\' => some '\\'
  | '/' => some '/'
  | 'b' => some (Char.ofNat 8)
  | 'f' => some (Char.ofNat 12)
  | 'n' => some '\n'
  | 'r' => some '\r'
  | 't' => some '\t'
  | _ => none

/-! ## Scanning -/

/-- What the scanner has begun; the characters and pieces are held last first. -/
inductive Mode where
  /-- Nothing. -/
  | idle
  /-- A number. -/
  | number (chars : List Char)
  /-- A word of which some letters are still to come. -/
  | word (letters : List Char) (token : Token)
  /-- A text. -/
  | text (pieces : List Piece)
  /-- An escape in a text. -/
  | escape (pieces : List Piece)
  /-- An escaped unit of which some digits are still to come. -/
  | unit (pieces : List Piece) (digits : Nat) (value : Nat)
  deriving DecidableEq, Repr

/-- What one character begins: the tokens it completes and the mode after it; `none` where no token
can begin. -/
def begin? (c : Char) : Option (List Token × Mode) :=
  match c with
  | ' ' | '\n' | '\t' | '\r' => some ([], .idle)
  | '\x7b' => some ([.openBrace], .idle)
  | '\x7d' => some ([.closeBrace], .idle)
  | '[' => some ([.openBracket], .idle)
  | ']' => some ([.closeBracket], .idle)
  | ':' => some ([.colon], .idle)
  | ',' => some ([.comma], .idle)
  | '"' => some ([], .text [])
  | 't' => some ([], .word ['r', 'u', 'e'] (.word (.bool true)))
  | 'f' => some ([], .word ['a', 'l', 's', 'e'] (.word (.bool false)))
  | 'n' => some ([], .word ['u', 'l', 'l'] (.word .null))
  | c => if c.isDigit || c == '-' then some ([], .number [c]) else none

/-- The tokens of a list of characters after what the scanner has begun. -/
def scan : Mode → List Char → List Token
  | .idle, [] => []
  | .number ds, [] => [numberToken ds.reverse]
  | .idle, c :: cs =>
    match begin? c with
    | some (ts, mode) => ts ++ scan mode cs
    | none => [.invalid]
  | .number ds, c :: cs =>
    if inNumber c then scan (.number (c :: ds)) cs
    else
      numberToken ds.reverse ::
        match begin? c with
        | some (ts, mode) => ts ++ scan mode cs
        | none => [.invalid]
  | .word (l :: ls) t, c :: cs =>
    if c = l then
      if ls = [] then t :: scan .idle cs else scan (.word ls t) cs
    else [.invalid]
  | .text ps, c :: cs =>
    if c = '"' then textToken ps.reverse :: scan .idle cs
    else if c = '\\' then scan (.escape ps) cs
    else if c.toNat < 0x20 then [.invalid]
    else scan (.text (.char c :: ps)) cs
  | .escape ps, c :: cs =>
    if c = 'u' then scan (.unit ps 4 0) cs
    else match shortEscape? c with
      | some e => scan (.text (.char e :: ps)) cs
      | none => [.invalid]
  | .unit ps digits value, c :: cs =>
    match Text.hexDigit? c with
    | some d =>
      let value := 16 * value + d
      if digits ≤ 1 then scan (.text (.unit value :: ps)) cs
      else scan (.unit ps (digits - 1) value) cs
    | none => [.invalid]
  | _, _ => [.invalid]

/-- The tokens of a JSON text. -/
def tokens (text : String) : List Token :=
  scan .idle text.toList

end ConfigUpdate.Json
