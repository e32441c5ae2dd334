import ConfigUpdate.DeviceState
import ConfigUpdate.Gate.Edit
import ConfigUpdate.Text.Blank

/-!
# What a port can do

Every port publishes the speeds and the modes of error correction that it supports. A change of one
of these fields has to stay within them.
-/

namespace ConfigUpdate.PortCheck

/-- The name of the check. -/
def name : String := "port_config_update_validator"

/-- The table in which ports publish what they can do. -/
def publishedTable : String := "PORT_TABLE"

/-- The modes of error correction of a port that publishes none. -/
def defaultModes : List String := ["rs", "fc", "none", "auto"]

/-- The bound of a speed. -/
def speedBound : Nat := UInt64.size

/-- The speeds in a published list; `none` if the list is missing or blank, which leaves the speed
open. -/
def speeds? (published : Option String) : Option (List Nat) :=
  match published with
  | none => none
  | some list =>
    if Text.trim list = "" then none
    else some ((Text.commaItems list).filterMap (Text.unsigned? speedBound))

/-- The modes of error correction in a published list. -/
def modes (published : Option String) : List String :=
  match published with
  | none => defaultModes
  | some "N/A" => []
  | some list => (Text.commaItems list).filter (· != "")

/-- Why a port cannot run at a speed. -/
def speedFault? (published : Option String) (port speed : String) : Option String :=
  match speeds? published with
  | none => none
  | some supported =>
    match Text.unsigned? speedBound (Text.trim speed) with
    | none => some ("speed '" ++ speed ++ "' is not an integer")
    | some n =>
      if supported.contains n then none
      else some ("speed " ++ toString n ++ " is not supported by " ++ port)

/-- Why a port cannot use a mode of error correction. -/
def modeFault? (published : Option String) (port mode : String) : Option String :=
  if (modes published).contains (Text.trim mode) then none
  else some ("fec '" ++ mode ++ "' is not supported by " ++ port)

/-- What a port publishes in a field. -/
def published (state : DeviceState) (scope : Scope) (port field : String) :
    Except UpdateError (Option String) :=
  match state scope publishedTable port field with
  | .ok text => .ok text
  | .error e => .error (.store e)

/-- Refuses an edit for a fault of a field of a port. -/
def refuseFor (e : Edit) (port field : String) : Option String → Except UpdateError Unit
  | none => .ok ()
  | some fault => .error (e.refuse name (port ++ "/" ++ field) fault)

/-- Checks a field that an edit touches. -/
def checkField (chassis : Bool) (state : DeviceState) (scope : Scope) (e : Edit) (t : FieldTouch) :
    Except UpdateError Unit :=
  match t.value with
  | none => .ok ()
  | some value => do
    let text := value.fieldText?.getD ""
    match t.field with
    | "speed" =>
      if chassis then return ()
      let list ← published state scope t.key "supported_speeds"
      refuseFor e t.key "speed" (speedFault? list t.key text)
    | "fec" =>
      let list ← published state scope t.key "supported_fecs"
      refuseFor e t.key "fec" (modeFault? list t.key text)
    | _ => return ()

/-- Checks an edit of the ports. The ports of a chassis may have any speed. -/
def check (chassis : Bool) (state : DeviceState) (scope : Scope) (e : Edit) :
    Except UpdateError Unit :=
  if e.verb = .remove then .ok () else e.fields.forM (checkField chassis state scope e)

end ConfigUpdate.PortCheck
