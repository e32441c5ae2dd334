import ConfigUpdate.Yaml.Flow
import ConfigUpdate.Yaml.TextBlock

/-!
# YAML documents

Reading a document of mappings, lists and texts, written in blocks by indentation or between
brackets. A key is a text in one line; anchors, aliases, tags and directives are not read.
-/

namespace ConfigUpdate.Yaml

open Text (Scan isGap)

/-- Reads the key at the front of a line, and its colon in the same line. -/
def blockKey : Scan String := fun cs =>
  let key : Option (String × List Char) :=
    match quotedText cs with
    | some (s, rest) => some (s, rest.dropWhile isGap)
    | none => (plainLine false cs).map fun (s, rest) => (String.ofList s, rest)
  match key with
  | some (s, rest) =>
    if atColon false rest && !(cs.take (cs.length - rest.length)).contains '\n' then
      some (s, rest.drop 1)
    else none
  | none => none

/-- Whether an item of a list starts here. -/
def atDash : List Char → Bool
  | '-' :: cs => atGap cs
  | _ => false

/-- Whether a character is the mark of a block of text. -/
def isBlockMark (c : Char) : Bool :=
  c == '|' || c == '>'

/-- Reads a value other than a mapping or a list in a block, from the middle of a line on; the lines
that go on with it stand inside `indent` blanks. -/
def inlineValue (indent : Nat) : Scan Yaml := fun cs =>
  match cs with
  | [] => none
  | c :: rest =>
    if isBlockMark c then
      (textBlock (c == '>') indent rest).map fun (s, cs) => (.text s, cs)
    else do
      let (v, rest) ←
        if c = '[' ∨ c = '\x7b' ∨ c = '"' ∨ c = '\'' then flowValue (2 * cs.length + 2) cs
        else (plainText false indent cs).map fun (s, cs) => (Yaml.text s, cs)
      return (v, ← finishLine? rest)

mutual

/-- Reads the value that starts at the front of a line, which has `column` blanks; a text goes on in
the lines inside `indent` blanks. -/
def blockValue : Nat → Nat → Nat → Scan Yaml
  | 0, _, _, _ => none
  | fuel + 1, indent, column, cs =>
    if atDash cs then (blockItems fuel column cs).map fun (is, cs) => (.list is, cs)
    else if (blockKey cs).isSome then
      (blockMembers fuel column cs).map fun (ms, cs) => (.mapping ms, cs)
    else inlineValue indent cs

/-- Reads the value after a colon or a dash, which is in the rest of the line or in the lines after
it that have at least `least` blanks; a text goes on in the lines inside `indent` blanks. -/
def valueBelow : Nat → Nat → Nat → Scan Yaml
  | 0, _, _, _ => none
  | fuel + 1, least, indent, cs =>
    match finishLine? cs with
    | none => inlineValue indent (cs.dropWhile isGap)
    | some cs =>
      match content? cs with
      | some (n, line) => if least ≤ n then blockValue fuel indent n line else some (.text "", cs)
      | none => some (.text "", cs)

/-- Reads the members of a mapping inside `indent` blanks. A list or a block of text may start below
its key without more blanks than this has. -/
def blockMembers : Nat → Nat → Scan (List (String × Yaml))
  | 0, _, _ => none
  | fuel + 1, indent, cs => do
    let (key, cs) ← blockKey cs
    let level : Bool := match (finishLine? cs).bind content? with
      | some (n, line) => n == indent && (atDash line || line.head?.any isBlockMark)
      | none => false
    let (v, cs) ← valueBelow fuel (if level then indent else indent + 1) (indent + 1) cs
    match content? cs with
    | some (n, line) =>
      if n < indent then return ([(key, v)], cs)
      else if n = indent then
        (blockMembers fuel indent line).map fun (ms, cs) => ((key, v) :: ms, cs)
      else none
    | none => return ([(key, v)], cs)

/-- Reads the items of a list inside `indent` blanks. -/
def blockItems : Nat → Nat → Scan (List Yaml)
  | 0, _, _ => none
  | fuel + 1, indent, cs => do
    let gap := ((cs.drop 1).takeWhile (· == ' ')).length
    let rest := cs.drop (gap + 1)
    let (item, cs) ←
      if rest.head? != some '\t' && (finishLine? rest).isSome then
        valueBelow fuel (indent + 1) (indent + 1) rest
      else blockValue fuel (indent + 1) (indent + 1 + gap) rest
    match content? cs with
    | some (n, line) =>
      if n = indent ∧ atDash line then
        (blockItems fuel indent line).map fun (is, cs) => (item :: is, cs)
      else if n ≤ indent then return ([item], cs)
      else none
    | none => return ([item], cs)

end

/-- Whether nothing but comments and marks of the end is left; `fuel` bounds the number of marks. -/
def atEnd : Nat → List Char → Bool
  | 0, _ => false
  | fuel + 1, cs =>
    let cs := nextLine cs
    cs.isEmpty || (atEndMark cs && (finishLine? (cs.drop 3)).any (atEnd fuel))

/-- Reads the value of a document that follows the mark of its start. -/
def valueAfterMark : Scan Yaml := fun cs =>
  match finishLine? cs with
  | none => inlineValue 0 (cs.dropWhile isGap)
  | some cs =>
    match content? cs with
    | none => some (.mapping [], cs)
    | some (n, line) => blockValue (2 * cs.length + 2) 0 n line

/-- Reads the value of a document, which is a mapping without members if it holds nothing. -/
def documentValue : Scan Yaml := fun cs =>
  let line := nextLine cs
  if line.isEmpty then some (.mapping [], [])
  else if atStartMark line then valueAfterMark (line.drop 3)
  else (content? cs).bind fun (n, line) => blockValue (2 * cs.length + 2) 0 n line

/-- Reads a document. -/
def parse? (text : String) : Option Yaml := do
  let cs ← characters? text
  let (v, rest) ← documentValue cs
  if atEnd (rest.length + 1) rest then some v else none

end ConfigUpdate.Yaml
