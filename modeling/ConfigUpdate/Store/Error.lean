import ConfigUpdate.Disk

/-!
# Faults of a store

Why a store of configuration data refuses a call. A file that is not in its format is reported
without saying where it departs from it.
-/

namespace ConfigUpdate

/-- What messages say about a text that is not in its format. -/
def parseFault : String := "<parse error>"

/-- Why a store refuses a call. -/
inductive StoreError where
  /-- The disk refuses access to a file. -/
  | disk (path : String) (fault : DiskFault)
  /-- A file does not hold a configuration. -/
  | unreadable (path : String)
  /-- The database refuses an operation. -/
  | backend (operation : String) (message : String)
  /-- A value cannot be stored. -/
  | invalidValue (table key message : String)
  deriving DecidableEq, Repr

namespace StoreError

/-- The message of the error. -/
def message : StoreError → String
  | disk path fault => "I/O error on " ++ path ++ ": " ++ fault.message
  | unreadable path => "Failed to parse " ++ path ++ ": " ++ parseFault
  | backend operation message => "Backend operation failed: " ++ operation ++ ": " ++ message
  | invalidValue table key message =>
    "Invalid value for " ++ table ++ "|" ++ key ++ ": " ++ message

/-- The messages of the error and of what caused it, outermost first. -/
def trace : StoreError → List String
  | disk path fault => [(disk path fault).message, fault.message]
  | e => [e.message]

end StoreError

end ConfigUpdate
