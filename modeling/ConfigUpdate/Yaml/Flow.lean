import ConfigUpdate.Yaml.Basic
import ConfigUpdate.Yaml.Scalar

/-!
# YAML values between brackets

Lists in brackets, mappings in braces and the texts in them, over any number of lines.
-/

namespace ConfigUpdate.Yaml

open Text (Scan)

/-- Skips white space and comments; `inComment` while the end of a comment is still to come. -/
def skipSpace (inComment : Bool) : List Char → List Char
  | [] => []
  | c :: cs =>
    if inComment then skipSpace (c != '\n') cs
    else if isSpace c then skipSpace false cs
    else if c == '#' then skipSpace true cs
    else c :: cs

/-- Reads a text between brackets. -/
def flowText : Scan String := fun cs =>
  match quotedText cs with
  | some r => some r
  | none =>
    match plainText true 0 cs with
    | some (s, ':' :: cs) => if atGap cs then some (s, ':' :: cs) else none
    | r => r

/-- The characters after the colon of a key; `key` are those from its start on and `rest` those
after it. The colon stands in the line in which the key starts. -/
def afterColon? (key rest : List Char) : Option (List Char) :=
  match skipSpace false rest with
  | ':' :: cs => if (key.take (key.length - cs.length)).contains '\n' then none else some cs
  | _ => none

/-- Whether a value between brackets ends before it starts. -/
def endsItem (cs : List Char) : Bool :=
  cs.head?.any fun c => c == ',' || c == ']' || c == '\x7d'

mutual

/-- Reads a value between brackets; `fuel` bounds the number of values and items on the way to a
text. -/
def flowValue : Nat → Scan Yaml
  | 0, _ => none
  | fuel + 1, cs =>
    match cs with
    | '[' :: cs => (flowItems fuel (skipSpace false cs)).map fun (is, cs) => (.list is, cs)
    | '\x7b' :: cs => (flowMembers fuel (skipSpace false cs)).map fun (ms, cs) => (.mapping ms, cs)
    | cs => (flowText cs).map fun (s, cs) => (.text s, cs)

/-- Reads the value after a colon, which may be empty. -/
def flowMember : Nat → Scan Yaml
  | 0, _ => none
  | fuel + 1, cs =>
    let cs := skipSpace false cs
    if endsItem cs then some (.text "", cs) else flowValue fuel cs

/-- Reads the items of a list after its bracket or a comma. An item may be a member of a mapping
without braces. -/
def flowItems : Nat → Scan (List Yaml)
  | 0, _ => none
  | fuel + 1, cs =>
    match cs with
    | ']' :: cs => some ([], cs)
    | cs => do
      let (item, rest) ← flowValue fuel cs
      let (item, rest) ← match item, afterColon? cs rest with
        | .text key, some cs =>
          (flowMember fuel cs).map fun (v, cs) => (Yaml.mapping [(key, v)], cs)
        | item, _ => some (item, rest)
      match skipSpace false rest with
      | ',' :: cs => (flowItems fuel (skipSpace false cs)).map fun (is, cs) => (item :: is, cs)
      | ']' :: cs => return ([item], cs)
      | _ => none

/-- Reads the members of a mapping after its brace or a comma. A key without a colon has an empty
value. -/
def flowMembers : Nat → Scan (List (String × Yaml))
  | 0, _ => none
  | fuel + 1, cs =>
    match cs with
    | '\x7d' :: cs => some ([], cs)
    | cs => do
      let (key, rest) ← flowText cs
      let (v, rest) ← match afterColon? cs rest with
        | some cs => flowMember fuel cs
        | none => some (.text "", rest)
      match skipSpace false rest with
      | ',' :: cs =>
        (flowMembers fuel (skipSpace false cs)).map fun (ms, cs) => ((key, v) :: ms, cs)
      | '\x7d' :: cs => return ([(key, v)], cs)
      | _ => none

end

end ConfigUpdate.Yaml
