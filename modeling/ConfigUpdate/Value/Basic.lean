import ConfigUpdate.Dictionary
import ConfigUpdate.Number.Basic

/-!
# Configuration values

A configuration is a tree: an object of tables, each an object of entries, each an object of fields.
Nothing enforces that shape, so a tree may hold any value anywhere. The members of an object stand
in ascending order of their names (`Value.WellFormed`), which makes its content its representation.
-/

namespace ConfigUpdate

/-- A leaf of a configuration. -/
inductive Scalar where
  | null
  | bool (value : Bool)
  | number (value : Number)
  | string (value : String)
  deriving DecidableEq, Repr, Inhabited

namespace Scalar

/-- Equality of leaves; numbers are equal as `Number.same` says. -/
def same : Scalar → Scalar → Bool
  | null, null => true
  | bool a, bool b => a == b
  | number x, number y => x.same y
  | string s, string t => s == t
  | _, _ => false

/-- The text of a leaf as the database stores it, where every field is a text. -/
def fieldText : Scalar → String
  | null => ""
  | bool b => if b then "true" else "false"
  | number x => x.render
  | string s => s

/-- A hash that equal leaves share. -/
def mix : Scalar → UInt64
  | null => 11
  | bool b => Mix.pair 13 (if b then 1 else 0)
  | number x => Mix.pair 17 x.mix
  | string s => Mix.pair 19 (Mix.text s)

end Scalar

/-- A node of a configuration tree. -/
inductive Value where
  | scalar (value : Scalar)
  | array (items : List Value)
  | object (members : List (String × Value))
  deriving Repr, Inhabited

namespace Value

/-- The object without members, which stands for a configuration without tables. -/
def empty : Value := object []

/-- A text as a value. -/
def ofString (s : String) : Value := scalar (.string s)

/-- The members of an object. -/
def members? : Value → Option (Dictionary String Value)
  | object ms => some ms
  | _ => none

/-- Whether the value is an object. -/
def isObject (v : Value) : Bool :=
  v.members?.isSome

/-- Whether the value is an array. -/
def isArray : Value → Bool
  | array _ => true
  | _ => false

/-- Whether the value is a leaf. -/
def isScalar : Value → Bool
  | scalar _ => true
  | _ => false

/-- The member of an object. -/
def get? : Value → String → Option Value
  | object ms, key => Dictionary.get? ms key
  | _, _ => none

/-- A member is looked up among the members; what is missing or no object has none. -/
theorem bind_get?_eq (o : Option Value) (key : String) :
    o.bind (·.get? key) = Dictionary.get? ((o.bind members?).getD []) key := by
  cases o with
  | none => rfl
  | some v => cases v <;> rfl

/-- The text of a text leaf. -/
def string? : Value → Option String
  | scalar (.string s) => some s
  | _ => none

/-- The text of a leaf as the database stores it. -/
def fieldText? : Value → Option String
  | scalar s => some s.fieldText
  | _ => none

/-- The word for the kind of a value in messages. -/
def kind : Value → String
  | object _ => "object"
  | array _ => "array"
  | scalar .null => "null"
  | scalar (.bool _) => "bool"
  | scalar (.number _) => "number"
  | scalar (.string _) => "string"

/-! ## Equality -/

mutual

/-- Equality of values: of the same shape, with equal leaves. -/
def same : Value → Value → Bool
  | scalar s, scalar t => s.same t
  | array xs, array ys => sameItems xs ys
  | object ms, object ns => sameMembers ms ns
  | _, _ => false

/-- Equality of lists of items. -/
def sameItems : List Value → List Value → Bool
  | [], [] => true
  | x :: xs, y :: ys => same x y && sameItems xs ys
  | _, _ => false

/-- Equality of lists of members. -/
def sameMembers : List (String × Value) → List (String × Value) → Bool
  | [], [] => true
  | (k, x) :: ms, (l, y) :: ns => k == l && same x y && sameMembers ms ns
  | _, _ => false

end

instance : BEq Value := ⟨same⟩

mutual

/-- A hash that equal values share. -/
def mix : Value → UInt64
  | scalar s => Mix.pair 23 s.mix
  | array xs => mixItems 29 xs
  | object ms => mixMembers 31 ms

/-- The hash of a list of items after what came before. -/
def mixItems (h : UInt64) : List Value → UInt64
  | [] => Mix.pair h 37
  | x :: xs => mixItems (Mix.pair h x.mix) xs

/-- The hash of a list of members after what came before. -/
def mixMembers (h : UInt64) : List (String × Value) → UInt64
  | [] => Mix.pair h 41
  | (k, x) :: ms => mixMembers (Mix.pair h (Mix.pair (Mix.text k) x.mix)) ms

end

/-! ## Well-formed trees -/

mutual

/-- The names of every object in the tree strictly ascend. -/
def WellFormed : Value → Prop
  | scalar _ => True
  | array xs => WellFormedItems xs
  | object ms => Dictionary.Sorted ms ∧ WellFormedMembers ms

/-- Every item is well-formed. -/
def WellFormedItems : List Value → Prop
  | [] => True
  | x :: xs => x.WellFormed ∧ WellFormedItems xs

/-- The value of every member is well-formed. -/
def WellFormedMembers : List (String × Value) → Prop
  | [] => True
  | (_, x) :: ms => x.WellFormed ∧ WellFormedMembers ms

end

mutual

/-- How many arrays and objects stand inside one another. -/
def depth : Value → Nat
  | scalar _ => 0
  | array xs => depthItems xs + 1
  | object ms => depthMembers ms + 1

/-- The greatest depth of an item. -/
def depthItems : List Value → Nat
  | [] => 0
  | x :: xs => max x.depth (depthItems xs)

/-- The greatest depth of the value of a member. -/
def depthMembers : List (String × Value) → Nat
  | [] => 0
  | (_, x) :: ms => max x.depth (depthMembers ms)

end

end Value

end ConfigUpdate
