import ConfigUpdate.Text.Scan

/-!
# Lines of a YAML document

The lines of a document and their ends, the marks of its start and its end, and the next line that
holds anything.
-/

namespace ConfigUpdate.Yaml

open Text (isGap)

/-- Whether a document may hold a character. -/
def isAllowed (c : Char) : Bool :=
  c == '\t' || c == '\n' || c == '\r' || (' ' ≤ c && c ≤ '~') || c.toNat == 0x85
    || (0xA0 ≤ c.toNat && c.toNat ≤ 0xFFFD) || 0x10000 ≤ c.toNat

/-- Writes all line ends in the same way: a line feed stands for a carriage return, for both
together and for a next line character. -/
def unifyLineEnds : List Char → List Char
  | '\r' :: '\n' :: cs => '\n' :: unifyLineEnds cs
  | c :: cs => (if c == '\r' || c.toNat == 0x85 then '\n' else c) :: unifyLineEnds cs
  | [] => []

/-- Puts a blank in the place of the mark of the byte order, which may come first. -/
def blankByteOrder : List Char → List Char
  | c :: cs => (if c.toNat == 0xFEFF then ' ' else c) :: cs
  | [] => []

/-- The characters of a text with equal line ends, if a document may hold all of them. -/
def characters? (text : String) : Option (List Char) :=
  if text.toList.all isAllowed then some (unifyLineEnds (blankByteOrder text.toList)) else none

/-- Whether a character is a blank or ends a line. -/
def isSpace (c : Char) : Bool :=
  isGap c || c == '\n'

/-- Whether a list of characters starts with a blank or is at the end of a line. -/
def atGap (cs : List Char) : Bool :=
  cs.isEmpty || cs.head?.any isSpace

/-- Whether the mark of the start of a document starts here. -/
def atStartMark (cs : List Char) : Bool :=
  ['-', '-', '-'].isPrefixOf cs && atGap (cs.drop 3)

/-- Whether the mark of the end of a document starts here. -/
def atEndMark (cs : List Char) : Bool :=
  ['.', '.', '.'].isPrefixOf cs && atGap (cs.drop 3)

/-- Whether a mark of the start or the end of a document starts here. -/
def atMark (cs : List Char) : Bool :=
  atStartMark cs || atEndMark cs

/-- The characters after the end of the line, before which only blanks and a comment may stand. -/
def finishLine? (cs : List Char) : Option (List Char) :=
  match cs.dropWhile isGap with
  | [] => some []
  | '\n' :: cs => some cs
  | '#' :: cs => some ((cs.dropWhile (· != '\n')).drop 1)
  | _ => none

/-- The characters from the start of the next line on that holds anything; `fuel` bounds the number
of lines before it. A tab may not stand at the start of a line. -/
def dropEmptyLines : Nat → List Char → List Char
  | 0, cs => cs
  | fuel + 1, cs =>
    let line := cs.dropWhile (· == ' ')
    if line.head? == some '\t' then cs
    else
      match finishLine? line with
      | some [] => []
      | some rest => dropEmptyLines fuel rest
      | none => cs

/-- The characters from the start of the next line on that holds anything. -/
def nextLine (cs : List Char) : List Char :=
  dropEmptyLines cs.length cs

/-- The next line of the document that holds anything: its indentation and the characters after it.
-/
def content? (cs : List Char) : Option (Nat × List Char) :=
  let cs := nextLine cs
  if cs.isEmpty || atMark cs then none
  else
    let indent := (cs.takeWhile (· == ' ')).length
    some (indent, cs.drop indent)

end ConfigUpdate.Yaml
