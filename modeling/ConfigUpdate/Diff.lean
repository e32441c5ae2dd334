import ConfigUpdate.Patch.Move

/-!
# Differences of trees

The moves that turn one configuration into another. Objects are compared member by member, all other
nodes as a whole, so every move sits at a highest place where the two trees differ.
-/

namespace ConfigUpdate

mutual

/-- The moves that turn a node into another one at a place. -/
def diffAt (place : Pointer) : Value → Value → List Move
  | .object ms, .object ns =>
    if Value.sameMembers ms ns then []
    else diffMembers place ms ns ++ (ns.filter fun n => !Dictionary.contains ms n.1).map fun n =>
      Move.add (place ++ [.key n.1]) n.2
  | v, w => if v == w then [] else [Move.replace place v w]

/-- The moves for members that are removed or changed. -/
def diffMembers (place : Pointer) : List (String × Value) → List (String × Value) → List Move
  | [], _ => []
  | (k, v) :: ms, ns =>
    (match Dictionary.get? ns k with
      | none => [Move.remove (place ++ [.key k]) v]
      | some w => diffAt (place ++ [.key k]) v w) ++ diffMembers place ms ns

end

/-- The moves that turn the current configuration into the target, in the order of the names in each
object, additions last. -/
def diff (current target : Value) : List Move :=
  diffAt [] current target

end ConfigUpdate
