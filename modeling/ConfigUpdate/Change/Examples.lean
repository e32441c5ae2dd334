import ConfigUpdate.Change.Basic

/-!
# Common changes

Changes that set up or take down a port, a VLAN, an interface, the buffers and the watchdog, and two
configurations made of them.
-/

namespace ConfigUpdate.Change

/-- Sets an entry to fields in any order. -/
def setting (table key : String) (fields : List (String × String)) : Change :=
  .set table key (Dictionary.ofList fields)

/-- A port that is up. -/
def port (name : String) : Change :=
  setting "PORT" name [("mtu", "9100"), ("admin_status", "up"), ("speed", "100000")]

/-- No port of the name. -/
def noPort (name : String) : Change :=
  .delete "PORT" name

/-- The name of a VLAN. -/
def vlanName (id : Nat) : String :=
  "Vlan" ++ toString id

/-- A VLAN. -/
def vlan (id : Nat) : Change :=
  setting "VLAN" (vlanName id) [("vlanid", toString id)]

/-- No VLAN of the number. -/
def noVlan (id : Nat) : Change :=
  .delete "VLAN" (vlanName id)

/-- A port in a VLAN. -/
def vlanMember (id : Nat) (port mode : String) : Change :=
  setting "VLAN_MEMBER" (vlanName id ++ "|" ++ port) [("tagging_mode", mode)]

/-- The interface of a VLAN with an address. -/
def vlanInterface (id : Nat) (address : String) : List Change :=
  [setting "VLAN_INTERFACE" (vlanName id) [],
    setting "VLAN_INTERFACE" (vlanName id ++ "|" ++ address) []]

/-- A loopback interface with an address. -/
def loopback (name address : String) : List Change :=
  [setting "LOOPBACK_INTERFACE" name [], setting "LOOPBACK_INTERFACE" (name ++ "|" ++ address) []]

/-- A pool of buffers. -/
def bufferPool (name size : String) : Change :=
  setting "BUFFER_POOL" name [("mode", "dynamic"), ("size", size), ("type", "ingress")]

/-- A profile of buffers in a pool. -/
def bufferProfile (name pool : String) : Change :=
  setting "BUFFER_PROFILE" name [("pool", pool), ("size", "0"), ("dynamic_th", "7")]

/-- Priority groups of a port with a profile of buffers. -/
def priorityGroup (port groups profile : String) : Change :=
  setting "BUFFER_PG" (port ++ "|" ++ groups) [("profile", profile)]

/-- The watchdog of all ports. -/
def watchdog (interval : String) : Change :=
  setting "PFC_WD" "GLOBAL" [("POLL_INTERVAL", interval)]

/-- The watchdog of a port. -/
def portWatchdog (port action : String) : Change :=
  setting "PFC_WD" port
    [("action", action), ("detection_time", "200"), ("restoration_time", "200")]

/-- The configuration of two loopback interfaces. -/
def twoLoopbacks : Value :=
  configOf (loopback "Loopback0" "10.1.0.32/32" ++ loopback "Loopback1" "10.1.0.33/32")

/-- The configuration of a lossless pool that two priority groups of a port use. -/
def losslessBuffers : Value :=
  configOf [bufferPool "ingress_lossless_pool" "12766208",
    bufferProfile "pg_lossless_100000_5m_profile" "ingress_lossless_pool",
    priorityGroup "Ethernet0" "3-4" "pg_lossless_100000_5m_profile"]

end ConfigUpdate.Change
