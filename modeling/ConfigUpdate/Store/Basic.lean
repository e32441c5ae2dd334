import ConfigUpdate.Store.Error
import ConfigUpdate.Store.Write

/-!
# Stores

A store holds the configuration of one scope. It is given by how its configuration is read and by
what it does with one write; the content of a store in memory is its tables.
-/

namespace ConfigUpdate

/-- A store with content of type `σ`. -/
structure Store (σ : Type) where
  /-- The configuration. -/
  config : σ → Except StoreError Value
  /-- The outcome of a write, and the content after it, whatever the outcome. -/
  write : Write → σ → Except StoreError Unit × σ

namespace Store

variable {σ : Type}

/-- The tables of the configuration. -/
def tables (store : Store σ) (s : σ) : Except StoreError Tables :=
  (store.config s).map Tables.ofTree

/-- A table. -/
def table? (store : Store σ) (s : σ) (table : String) : Except StoreError (Option Value) :=
  (store.tables s).map (Dictionary.get? · table)

/-- An entry. -/
def entryAt? (store : Store σ) (s : σ) (table key : String) : Except StoreError (Option Value) :=
  (store.tables s).map (·.entryAt? table key)

/-- The outcome of a list of writes, of which the first that fails is the last one made. -/
def writeAll (store : Store σ) : List Write → σ → Except StoreError Unit × σ
  | [], s => (.ok (), s)
  | w :: ws, s =>
    match store.write w s with
    | (.ok (), s) => writeAll store ws s
    | (.error e, s) => (.error e, s)

/-- The store that keeps its tables in memory. Empty tables are kept. -/
def memory : Store Tables where
  config ts := .ok ts.toTree
  write w ts := (.ok (), w.run ts)

/-- The fault of a value that is to become a table and is none. -/
def noTable (table : String) : StoreError :=
  .invalidValue table "" "table must be an object"

/-- The store that writes tables entry by entry. -/
def entrywise (store : Store σ) : Store σ where
  config := store.config
  write w s :=
    match w with
    | .setTable table value =>
      match Write.entrywise? (.setTable table value) with
      | some ws => store.writeAll ws s
      | none => (.error (noTable table), s)
    | w => store.write w s

end Store

end ConfigUpdate
