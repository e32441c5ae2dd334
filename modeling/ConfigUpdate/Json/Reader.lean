import ConfigUpdate.Json.Token

/-!
# Reading JSON

Values are read from tokens with a list of the containers that are still open, so reading recurses
on the tokens alone and the number of open containers is at hand for the depth limit. Of members
with one name the last counts. Skipping a value checks its shape but neither its depth nor the
values of its leaves.
-/

namespace ConfigUpdate.Json

/-- A container of which the closing token is still to come; items and members are held last
first. -/
inductive Container where
  | array (items : List Value)
  | object (members : List (String × Value)) (name : String)
  deriving Repr

mutual

/-- Reads a value inside open containers, of which there may be at most `limit`, and then the rest
of these containers: the outermost value and the tokens after it. -/
def readInside (limit : Nat) : List Container → List Token → Option (Value × List Token)
  | outer, .word s :: ts => closeInside limit outer (.scalar s) ts
  | outer, .number (some n) :: ts => closeInside limit outer (.scalar (.number n)) ts
  | outer, .text (some s) :: ts => closeInside limit outer (.scalar (.string s)) ts
  | outer, .openBracket :: .closeBracket :: ts =>
    if outer.length < limit then closeInside limit outer (.array []) ts else none
  | outer, .openBracket :: ts =>
    if outer.length < limit then readInside limit (.array [] :: outer) ts else none
  | outer, .openBrace :: .closeBrace :: ts =>
    if outer.length < limit then closeInside limit outer (.object []) ts else none
  | outer, .openBrace :: .text (some name) :: .colon :: ts =>
    if outer.length < limit then readInside limit (.object [] name :: outer) ts else none
  | _, _ => none

/-- Puts a finished value into the innermost open container and goes on from there. -/
def closeInside (limit : Nat) : List Container → Value → List Token → Option (Value × List Token)
  | [], v, ts => some (v, ts)
  | .array xs :: outer, v, .comma :: ts => readInside limit (.array (v :: xs) :: outer) ts
  | .array xs :: outer, v, .closeBracket :: ts =>
    closeInside limit outer (.array (v :: xs).reverse) ts
  | .object ms name :: outer, v, .comma :: .text (some name') :: .colon :: ts =>
    readInside limit (.object ((name, v) :: ms) name' :: outer) ts
  | .object ms name :: outer, v, .closeBrace :: ts =>
    closeInside limit outer (.object (Dictionary.ofList ((name, v) :: ms).reverse)) ts
  | _, _, _ => none

end

/-- Reads one value of at most `limit` containers inside one another: the value and the tokens after
it. -/
def readValue? (limit : Nat) (ts : List Token) : Option (Value × List Token) :=
  readInside limit [] ts

/-- The depth to which a document may nest. -/
def depthLimit : Nat := 127

/-- The value of tokens that are one value and nothing else. -/
def valueOf? (limit : Nat) (ts : List Token) : Option Value :=
  match readValue? limit ts with
  | some (v, []) => some v
  | _ => none

/-- The value of a JSON text that nests at most `limit` containers. -/
def parseWithin? (limit : Nat) (text : String) : Option Value :=
  valueOf? limit (tokens text)

/-- The value of a JSON text. -/
def parse? (text : String) : Option Value :=
  parseWithin? depthLimit text

/-! ## Skipping -/

mutual

/-- Skips a value inside open containers and then the rest of these containers: the tokens after the
outermost one. An open container is `true` for an object. -/
def skipInside : List Bool → List Token → Option (List Token)
  | outer, .word _ :: ts | outer, .number _ :: ts | outer, .text _ :: ts => skipOn outer ts
  | outer, .openBracket :: .closeBracket :: ts => skipOn outer ts
  | outer, .openBracket :: ts => skipInside (false :: outer) ts
  | outer, .openBrace :: .closeBrace :: ts => skipOn outer ts
  | outer, .openBrace :: .text _ :: .colon :: ts => skipInside (true :: outer) ts
  | _, _ => none

/-- Goes on after a value has been skipped. -/
def skipOn : List Bool → List Token → Option (List Token)
  | [], ts => some ts
  | false :: outer, .comma :: ts => skipInside (false :: outer) ts
  | false :: outer, .closeBracket :: ts => skipOn outer ts
  | true :: outer, .comma :: .text _ :: .colon :: ts => skipInside (true :: outer) ts
  | true :: outer, .closeBrace :: ts => skipOn outer ts
  | _, _ => none

end

/-- The tokens after one value. -/
def skipValue? (ts : List Token) : Option (List Token) :=
  skipInside [] ts

end ConfigUpdate.Json
