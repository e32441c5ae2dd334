import ConfigUpdate.Text.Split
import ConfigUpdate.Yaml.Line

/-!
# YAML scalars

The texts of a YAML document: in quotes, where a line end counts as a blank, and plain, up to what
ends them. A scanner answers with what it read and the characters after it.
-/

namespace ConfigUpdate.Yaml

open Text (Scan isGap charOfCode? splitChars)

/-- White space inside a text: what holds a line end is a blank, or a line end less than it holds.
-/
def fold (space : List Char) : List Char :=
  match space.count '\n' with
  | 0 => space
  | 1 => [' ']
  | n + 2 => List.replicate (n + 1) '\n'

/-! ## Quoted texts -/

/-- The character of a short escape. -/
def shortEscape? : Char → Option Char
  | '0' => some (Char.ofNat 0)
  | 'a' => some (Char.ofNat 7)
  | 'b' => some (Char.ofNat 8)
  | 't' => some '\t'
  | '\t' => some '\t'
  | 'n' => some '\n'
  | 'v' => some (Char.ofNat 11)
  | 'f' => some (Char.ofNat 12)
  | 'r' => some '\r'
  | 'e' => some (Char.ofNat 27)
  | ' ' => some ' '
  | '"' => some '"'
  | '/' => some '/'
  | '\\' => some '\\'
  | 'N' => some (Char.ofNat 0x85)
  | '_' => some (Char.ofNat 0xA0)
  | 'L' => some (Char.ofNat 0x2028)
  | 'P' => some (Char.ofNat 0x2029)
  | _ => none

/-- The number of digits after the letter of a long escape. -/
def longEscape? : Char → Option Nat
  | 'x' => some 2
  | 'u' => some 4
  | 'U' => some 8
  | _ => none

/-- The characters after white space in quotes, where no mark of a document may stand. -/
def afterSpace? (cs : List Char) : Option (List Char) :=
  let space := cs.takeWhile isSpace
  let rest := cs.dropWhile isSpace
  if space.getLast? == some '\n' && atMark rest then none else some rest

/-- Reads a text after its opening quote; `fuel` bounds the number of characters. Between single
quotes a quote is written twice, between double quotes there are escapes. -/
def quoted (quote : Char) : Nat → Scan (List Char)
  | fuel + 1, c :: cs =>
    let goOn (front : List Char) (cs : List Char) : Option (List Char × List Char) :=
      (quoted quote fuel cs).map fun (s, cs) => (front ++ s, cs)
    if c = quote then
      if quote = '\'' ∧ cs.head? = some '\'' then goOn ['\''] (cs.drop 1) else some ([], cs)
    else if c = '\\' ∧ quote = '"' then
      match cs with
      | '\n' :: cs => do
        goOn (List.replicate ((cs.takeWhile isSpace).count '\n') '\n') (← afterSpace? ('\n' :: cs))
      | e :: cs =>
        match shortEscape? e, longEscape? e with
        | some s, _ => goOn [s] cs
        | none, some n =>
          if cs.length < n then none else do goOn [← charOfCode? (cs.take n)] (cs.drop n)
        | none, none => none
      | [] => none
    else if isSpace c then do
      goOn (fold ((c :: cs).takeWhile isSpace)) (← afterSpace? (c :: cs))
    else goOn [c] cs
  | _, _ => none

/-- Reads a text in quotes. -/
def quotedText : Scan String
  | c :: cs =>
    if c = '"' ∨ c = '\'' then
      (quoted c (cs.length + 1) cs).map fun (s, cs) => (String.ofList s, cs)
    else none
  | [] => none

/-! ## Plain texts -/

/-- Whether a character separates the items between brackets. -/
def isFlowMark (c : Char) : Bool :=
  c == ',' || c == '[' || c == ']' || c == '\x7b' || c == '\x7d'

/-- Whether a character cannot start a plain text. -/
def isIndicator (c : Char) : Bool :=
  isFlowMark c || "#&*!|>'\"%@`".toList.contains c

/-- Whether a colon stands at the front that ends a key; `flow` inside brackets. -/
def atColon (flow : Bool) : List Char → Bool
  | ':' :: cs => atGap cs || (flow && cs.head?.any fun c => isFlowMark c || c == '?')
  | _ => false

/-- Whether a plain text can start here. -/
def startsPlain (flow : Bool) : List Char → Bool
  | c :: cs =>
    if c == '-' then !atGap cs
    else if c == '?' || c == ':' then !flow && !atGap cs
    else !isIndicator c && !isSpace c
  | [] => false

/-- The rest of a plain text in its line; `afterGap` if a blank stands before it. -/
def plainRest (flow afterGap : Bool) : List Char → List Char × List Char
  | [] => ([], [])
  | c :: cs =>
    if c == '\n' || atColon flow (c :: cs) || (afterGap && c == '#')
        || (flow && isFlowMark c) then
      ([], c :: cs)
    else
      let (s, rest) := plainRest flow (isGap c) cs
      (c :: s, rest)

/-- A list of characters without blanks at its end. -/
def trimEnd (cs : List Char) : List Char :=
  (cs.reverse.dropWhile isGap).reverse

/-- Reads the part of a plain text that stands in its first line. -/
def plainLine (flow : Bool) : Scan (List Char) := fun cs =>
  if startsPlain flow cs then
    let (s, rest) := plainRest flow false cs
    some (trimEnd s, rest)
  else none

/-- The part of a plain text in the lines after its first one, and the characters from the end of
its last line on, or of the last empty line after it; `fuel` bounds the number of lines. Every line
is inside `indent` blanks, and a comment ends the text. -/
def plainMore (flow : Bool) (indent : Nat) : Nat → List Char → List Char × List Char
  | 0, cs => ([], cs)
  | fuel + 1, cs =>
    let space := cs.takeWhile isSpace
    let rest := cs.dropWhile isSpace
    let margins := (splitChars '\n' space).drop 1
    let margin := margins.getLastD []
    let (s, after) := plainRest flow true rest
    if margins.any fun m => (m.take indent).contains '\t' then ([], cs)
    else if rest.isEmpty then ([], [])
    else if s.isEmpty || margins.isEmpty || margin.length < indent
        || (margin.isEmpty && atMark rest) then
      ([], cs.drop (space.length - margin.length - 1))
    else
      let (more, after) := plainMore flow indent fuel after
      (fold space ++ trimEnd s ++ more, after)

/-- Reads a plain text; the lines after its first one are inside `indent` blanks. -/
def plainText (flow : Bool) (indent : Nat) : Scan String := fun cs =>
  (plainLine flow cs).map fun (s, cs) =>
    let (more, cs) := plainMore flow indent cs.length cs
    (String.ofList (s ++ more), cs)

end ConfigUpdate.Yaml
