import ConfigUpdate.Toml.Scalar

/-!
# TOML documents

Reading a settings file: the values, the statements, and the members that the statements make.
-/

namespace ConfigUpdate.Toml

open Text (Scan isGap lineEnd?)

/-- Skips blanks, line ends and comments; `inComment` while the end of a comment is still to come.
-/
def skipSpace (inComment : Bool) : List Char → List Char
  | '\n' :: cs => skipSpace false cs
  | '\r' :: '\n' :: cs => skipSpace false cs
  | c :: cs =>
    if inComment then if inLine c then skipSpace true cs else c :: cs
    else if isGap c then skipSpace false cs
    else if c = '#' then skipSpace true cs
    else c :: cs
  | [] => []

mutual

/-- Reads a value; `fuel` bounds the number of values and items on the way to a scalar. -/
def value : Nat → Scan Toml
  | 0, _ => none
  | fuel + 1, cs =>
    match cs with
    | '[' :: cs => (arrayItems fuel (skipSpace false cs)).map fun (items, cs) => (.array items, cs)
    | '\x7b' :: cs =>
      match cs.dropWhile isGap with
      | '\x7d' :: cs => some (.table .inlined [], cs)
      | cs => (inlineMembers fuel [] cs).map fun (ms, cs) => (.table .inlined ms, cs)
    | '"' :: _ | '\'' :: _ => (text? cs).map fun (s, cs) => (.text s, cs)
    | cs => (ofWord? (cs.takeWhile inWord)).map fun v => (v, cs.dropWhile inWord)

/-- Reads the items of an array after its bracket or a comma. -/
def arrayItems : Nat → Scan (List Toml)
  | 0, _ => none
  | fuel + 1, cs =>
    match cs with
    | ']' :: cs => some ([], cs)
    | cs => do
      let (item, cs) ← value fuel cs
      match skipSpace false cs with
      | ',' :: cs =>
        (arrayItems fuel (skipSpace false cs)).map fun (items, cs) => (item :: items, cs)
      | ']' :: cs => return ([item], cs)
      | _ => none

/-- Reads the members of a table between braces, which are added to those before them. -/
def inlineMembers : Nat → Members → Scan Members
  | 0, _, _ => none
  | fuel + 1, ms, cs => do
    let ((path, last), cs) ← dottedKey (cs.length + 1) cs
    match cs with
    | '=' :: cs => do
      let (v, cs) ← value fuel (cs.dropWhile isGap)
      let ms ← assign v last path ms
      match cs.dropWhile isGap with
      | ',' :: cs => inlineMembers fuel ms cs
      | '\x7d' :: cs => return (ms, cs)
      | _ => none
    | _ => none

end

/-- Reads a statement, if there is one before the line ends. -/
def statement (cs : List Char) : Option (Option TomlStatement × List Char) :=
  match cs.dropWhile isGap with
  | [] => some (none, [])
  | '#' :: cs => some (none, '#' :: cs)
  | '[' :: '[' :: cs => do
    match ← dottedKey (cs.length + 1) cs with
    | ((path, last), ']' :: ']' :: cs) => return (some (.element path last), cs)
    | _ => none
  | '[' :: cs => do
    match ← dottedKey (cs.length + 1) cs with
    | ((path, last), ']' :: cs) => return (some (.table path last), cs)
    | _ => none
  | cs =>
    if (lineEnd? cs).isSome then some (none, cs)
    else do
      match ← dottedKey (cs.length + 1) cs with
      | ((path, last), '=' :: cs) =>
        let (v, cs) ← value (2 * cs.length + 2) (cs.dropWhile isGap)
        return (some (.assign path last v), cs)
      | _ => none

/-- The characters after the end of a line, before which there may be a comment. -/
def finishLine? (cs : List Char) : Option (List Char) :=
  match cs.dropWhile isGap with
  | '#' :: cs =>
    match cs.dropWhile inLine with
    | [] => some []
    | cs => lineEnd? cs
  | [] => some []
  | cs => lineEnd? cs

/-- The statements of a text; `fuel` bounds the number of lines. -/
def statements : Nat → List Char → Option (List TomlStatement)
  | _, [] => some []
  | 0, _ => none
  | fuel + 1, cs => do
    let (first, cs) ← statement cs
    let rest ← statements fuel (← finishLine? cs)
    return first.toList ++ rest

/-- The members of a settings file. -/
def parse? (text : String) : Option Members := do
  let cs := match text.toList with
    | '\uFEFF' :: cs => cs
    | cs => cs
  ofStatements? none [] (← statements (cs.length + 1) cs)

end ConfigUpdate.Toml
