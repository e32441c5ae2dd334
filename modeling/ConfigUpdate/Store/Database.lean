import ConfigUpdate.Store.Faulty
import ConfigUpdate.Store.File

/-!
# Databases

The kinds of stores that hold the configuration of a scope, as one type. The content of a store in a
file is on the disk, so a database is used together with the disk.
-/

namespace ConfigUpdate

/-- The store of a scope. -/
inductive Database where
  | memory (tables : Tables)
  /-- In memory, with tables written entry by entry. -/
  | entrywise (tables : Tables)
  | faulty (content : FaultyContent)
  | file (path : String)
  deriving Repr, Inhabited

namespace Database

/-- What a store does, as seen from a larger content. -/
def within {σ τ : Type} (store : Store σ) (put : σ → τ) (w : Write) (s : σ) :
    Except StoreError Unit × τ :=
  ((store.write w s).1, put (store.write w s).2)

/-- The store of a database and the disk. -/
def store : Store (Database × Disk) where
  config
    | (.memory ts, _) => Store.memory.config ts
    | (.entrywise ts, _) => Store.memory.config ts
    | (.faulty c, _) => Store.faulty.config c
    | (.file path, disk) => (Store.file path).config disk
  write w
    | (.memory ts, disk) => within Store.memory (fun ts => (.memory ts, disk)) w ts
    | (.entrywise ts, disk) =>
      within Store.memory.entrywise (fun ts => (.entrywise ts, disk)) w ts
    | (.faulty c, disk) => within Store.faulty (fun c => (.faulty c, disk)) w c
    | (.file path, disk) => within (Store.file path) (fun disk => (.file path, disk)) w disk

end Database

end ConfigUpdate
