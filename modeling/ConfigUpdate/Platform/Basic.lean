import ConfigUpdate.Text.Digits
import ConfigUpdate.Text.Split

/-!
# Platforms

The facts about a switch on which the permission of a change depends.
-/

namespace ConfigUpdate

/-- The facts about a switch. -/
structure Platform where
  /-- The type of its chips, such as `mellanox`. -/
  chipType : String
  /-- The model of its hardware. -/
  model : String
  /-- The version of its software, such as `20241211.49`. -/
  version : String
  /-- Whether it is a card of a chassis. -/
  chassis : Bool
  deriving DecidableEq, Repr, Inhabited

namespace Platform

/-- The number that a part of a version stands for, if it is a date: eight digits. -/
def dateNumber? (part : List Char) : Option Nat :=
  if part.length = 8 then Text.digits? part else none

/-- The number of the build in a version: the last of its parts, which dots separate, that is a
date. -/
def buildNumberOf? (version : String) : Option Nat :=
  (Text.splitChars '.' version.toList).reverse.findSome? dateNumber?

/-- The number of the build that runs. -/
def buildNumber? (p : Platform) : Option Nat :=
  buildNumberOf? p.version

end Platform

end ConfigUpdate
