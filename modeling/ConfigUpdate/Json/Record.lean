import ConfigUpdate.Json.Reader

/-!
# Reading records

A record with named members is written as an object, or as the array of its members in the order of
their declaration. Members with other names are skipped, a name that comes twice is a fault, and the
faults of a text count in the order in which they stand there. A reader of type `Reader ε α` answers
with what it read and the tokens after it.
-/

namespace ConfigUpdate.Json

/-- Reads something of type `α` from the front of a list of tokens. -/
abbrev Reader (ε α : Type) := List Token → Except ε (α × List Token)

variable {ε α σ : Type}

/-- What is known of a record while it is read: how a named member changes it, and how the member at
a position of the array form does. `none` stands for a name or position that the record lacks. -/
structure Shape (ε σ : Type) where
  /-- The fault of a text that is no record. -/
  fault : ε
  /-- The reader of a named member. -/
  named : String → Option (σ → Reader ε σ)
  /-- The readers of the members in the order of their declaration. -/
  listed : List (σ → Reader ε σ)

/-- Reads the members of an object after its opening brace; `fuel` bounds their number. -/
def Shape.readNamed (shape : Shape ε σ) : Nat → σ → Reader ε σ
  | fuel + 1, s, .text (some name) :: .colon :: ts => do
    let (s, ts) ← match shape.named name with
      | some read => read s ts
      | none =>
        match skipValue? ts with
        | some ts => .ok (s, ts)
        | none => .error shape.fault
    match ts with
    | .comma :: ts => shape.readNamed fuel s ts
    | .closeBrace :: ts => .ok (s, ts)
    | _ => .error shape.fault
  | _, _, _ => .error shape.fault

/-- Reads the members of the array form after its opening bracket or a comma. A text may end after
any member. -/
def readListed (fault : ε) : List (σ → Reader ε σ) → σ → Reader ε σ
  | read :: reads, s, ts => do
    let (s, ts) ← read s ts
    match ts with
    | .comma :: ts => readListed fault reads s ts
    | .closeBracket :: ts => .ok (s, ts)
    | _ => .error fault
  | [], _, _ => .error fault

/-- Reads a record of which nothing is known yet but `start`. -/
def Shape.read (shape : Shape ε σ) (start : σ) : Reader ε σ := fun ts =>
  match ts with
  | .openBrace :: .closeBrace :: ts => .ok (start, ts)
  | .openBrace :: ts => shape.readNamed ts.length start ts
  | .openBracket :: .closeBracket :: ts => .ok (start, ts)
  | .openBracket :: ts => readListed shape.fault shape.listed start ts
  | _ => .error shape.fault

/-- Reads the items of an array after its opening bracket or a comma; `fuel` bounds their number. -/
def readItems (fault : ε) (item : Reader ε α) : Nat → List α → Reader ε (List α)
  | fuel + 1, done, ts => do
    let (a, ts) ← item ts
    match ts with
    | .comma :: ts => readItems fault item fuel (a :: done) ts
    | .closeBracket :: ts => .ok ((a :: done).reverse, ts)
    | _ => .error fault
  | 0, _, _ => .error fault

/-- Reads an array of things. -/
def readArray (fault : ε) (item : Reader ε α) : Reader ε (List α) := fun ts =>
  match ts with
  | .openBracket :: .closeBracket :: ts => .ok ([], ts)
  | .openBracket :: ts => readItems fault item ts.length [] ts
  | _ => .error fault

/-- Reads the members of an object after its opening brace; `fuel` bounds their number. -/
def readMembers (fault : ε) (item : Reader ε α) :
    Nat → Dictionary String α → Reader ε (Dictionary String α)
  | fuel + 1, done, .text (some name) :: .colon :: ts => do
    let (a, ts) ← item ts
    let done := done.insert name a
    match ts with
    | .comma :: ts => readMembers fault item fuel done ts
    | .closeBrace :: ts => .ok (done, ts)
    | _ => .error fault
  | _, _, _ => .error fault

/-- Reads an object of things by their names, of which the last with a name counts. -/
def readDictionary (fault : ε) (item : Reader ε α) : Reader ε (Dictionary String α) := fun ts =>
  match ts with
  | .openBrace :: .closeBrace :: ts => .ok ([], ts)
  | .openBrace :: ts => readMembers fault item ts.length [] ts
  | _ => .error fault

/-- Reads a text. -/
def readText (fault : ε) : Reader ε String
  | .text (some s) :: ts => .ok (s, ts)
  | _ => .error fault

/-- Reads a whole document. -/
def readDocument (fault : ε) (item : Reader ε α) (text : String) : Except ε α := do
  let (a, rest) ← item (tokens text)
  if rest = [] then .ok a else .error fault

end ConfigUpdate.Json
