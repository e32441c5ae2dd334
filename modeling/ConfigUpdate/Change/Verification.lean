import ConfigUpdate.Json.Printer
import ConfigUpdate.Store.Basic

/-!
# Verifying a store

Checks of what an update has left in a store: which entries there are, and what is in them.
-/

namespace ConfigUpdate

/-- Why a store is not as expected. -/
inductive VerificationError where
  /-- The store refuses to be read. -/
  | store (cause : StoreError)
  | entryNotFound (table key : String)
  | unexpectedEntry (table key : String)
  | fieldNotFound (table key field : String)
  | valueMismatch (table key field expected actual : String)
  | countMismatch (table : String) (expected actual : Nat)
  deriving DecidableEq, Repr

namespace VerificationError

/-- The message of the error. -/
def message : VerificationError → String
  | store cause => "Store error: " ++ cause.message
  | entryNotFound table key =>
    "Expected entry '" ++ table ++ "|" ++ key ++ "' not found in CONFIG_DB"
  | unexpectedEntry table key => "Entry '" ++ table ++ "|" ++ key ++ "' should not exist"
  | fieldNotFound table key field =>
    "Expected field '" ++ field ++ "' not found in '" ++ table ++ "|" ++ key ++ "'"
  | valueMismatch table key field expected actual =>
    "Value mismatch for " ++ table ++ "|" ++ key ++ ":" ++ field ++ ": expected '" ++ expected
      ++ "', got '" ++ actual ++ "'"
  | countMismatch table expected actual =>
    "Expected " ++ toString expected ++ " entries in table '" ++ table ++ "', found "
      ++ toString actual

end VerificationError

namespace Store

variable {σ : Type} (store : Store σ) (s : σ)

/-- The tables, for a check. -/
def verifiedTables : Except VerificationError Tables :=
  match store.tables s with
  | .ok ts => .ok ts
  | .error e => .error (.store e)

/-- The entry that is expected to be there. -/
def expectEntry (table key : String) : Except VerificationError Value := do
  match (← store.verifiedTables s).entryAt? table key with
  | some entry => return entry
  | none => throw (.entryNotFound table key)

/-- Expects no entry of the key. -/
def expectNoEntry (table key : String) : Except VerificationError Unit := do
  if ((← store.verifiedTables s).entryAt? table key).isSome then
    throw (.unexpectedEntry table key)

/-- Expects a field to have a text. -/
def expectField (table key field expected : String) : Except VerificationError Unit := do
  let entry ← store.expectEntry s table key
  match (entry.get? field).bind Value.fieldText? with
  | none => throw (.fieldNotFound table key field)
  | some actual =>
    if actual = expected then return ()
    else throw (.valueMismatch table key field expected actual)

/-- Expects all of some fields to have their texts. -/
def expectFields (table key : String) (fields : Dictionary String String) :
    Except VerificationError Unit :=
  fields.forM fun (field, expected) => store.expectField s table key field expected

/-- Expects a table to have a number of entries. -/
def expectCount (table : String) (expected : Nat) : Except VerificationError Unit := do
  let actual := ((← store.verifiedTables s).entries table).length
  if actual = expected then return () else throw (.countMismatch table expected actual)

/-- Expects the whole configuration. -/
def expectConfig (expected : Value) : Except VerificationError Unit :=
  match store.config s with
  | .error e => .error (.store e)
  | .ok actual =>
    if actual == expected then .ok ()
    else
      .error (.valueMismatch "*" "*" "*" (Json.compact expected) (Json.compact actual))

end Store

end ConfigUpdate
