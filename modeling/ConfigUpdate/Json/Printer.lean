import ConfigUpdate.Value.Basic

/-!
# Writing JSON

The two layouts of a value: `compact`, on one line without blanks, for messages, and `pretty`, with
one member or item on a line and two blanks of indentation for every container, for files. The
members are written in the order in which they stand.
-/

namespace ConfigUpdate.Json

/-- A hexadecimal digit in lower case. -/
def hexChar (n : Nat) : Char :=
  if n < 10 then Char.ofNat ('0'.toNat + n) else Char.ofNat ('a'.toNat + n - 10)

/-- A character inside quotes: quotes, backslashes and control characters are escaped. -/
def quoteChar (c : Char) : List Char :=
  if c = '"' then ['\\', '"']
  else if c = '\\' then ['\\', '\\']
  else if c = '\n' then ['\\', 'n']
  else if c = '\r' then ['\\', 'r']
  else if c = '\t' then ['\\', 't']
  else if c.toNat = 8 then ['\\', 'b']
  else if c.toNat = 12 then ['\\', 'f']
  else if c.toNat < 0x20 then
    ['\\', 'u', '0', '0', hexChar (c.toNat / 16), hexChar (c.toNat % 16)]
  else [c]

/-- A text in quotes. -/
def quote (s : String) : String :=
  "\"" ++ String.ofList (s.toList.flatMap quoteChar) ++ "\""

/-- The JSON text of a leaf. -/
def leaf : Scalar → String
  | .null => "null"
  | .bool b => if b then "true" else "false"
  | .number n => n.render
  | .string s => quote s

mutual

/-- The JSON text of a value on one line. -/
def compact : Value → String
  | .scalar s => leaf s
  | .array xs => "[" ++ compactItems xs ++ "]"
  | .object ms => "\x7b" ++ compactMembers ms ++ "\x7d"

/-- The items of an array with commas between them. -/
def compactItems : List Value → String
  | [] => ""
  | [x] => compact x
  | x :: xs => compact x ++ "," ++ compactItems xs

/-- The members of an object with commas between them. -/
def compactMembers : List (String × Value) → String
  | [] => ""
  | [(k, x)] => quote k ++ ":" ++ compact x
  | (k, x) :: ms => quote k ++ ":" ++ compact x ++ "," ++ compactMembers ms

end

/-- A new line with the indentation of `level` containers. -/
def newLine (level : Nat) : String :=
  "\n" ++ String.ofList (List.replicate (2 * level) ' ')

mutual

/-- The JSON text of a value inside `level` containers, on many lines. -/
def prettyAt (level : Nat) : Value → String
  | .scalar s => leaf s
  | .array [] => "[]"
  | .object [] => "\x7b\x7d"
  | .array xs => "[" ++ prettyItems (level + 1) xs ++ newLine level ++ "]"
  | .object ms => "\x7b" ++ prettyMembers (level + 1) ms ++ newLine level ++ "\x7d"

/-- The items of an array, each on a line of its own. -/
def prettyItems (level : Nat) : List Value → String
  | [] => ""
  | [x] => newLine level ++ prettyAt level x
  | x :: xs => newLine level ++ prettyAt level x ++ "," ++ prettyItems level xs

/-- The members of an object, each on a line of its own. -/
def prettyMembers (level : Nat) : List (String × Value) → String
  | [] => ""
  | [(k, x)] => newLine level ++ quote k ++ ": " ++ prettyAt level x
  | (k, x) :: ms =>
    newLine level ++ quote k ++ ": " ++ prettyAt level x ++ "," ++ prettyMembers level ms

end

/-- The JSON text of a value on many lines, without a line end after it. -/
def pretty (v : Value) : String :=
  prettyAt 0 v

end ConfigUpdate.Json
