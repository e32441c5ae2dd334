import ConfigUpdate.Text.Split

/-!
# Entry keys

The key of an entry is a list of components joined by `|`, such as `Vlan10|Ethernet0`. An entry with
more than one component belongs to the entry with fewer of them.
-/

namespace ConfigUpdate

/-- The key of an entry, split into its components. -/
structure EntryKey where
  /-- The components; a key read from a text has at least one. -/
  components : List String
  deriving DecidableEq, Repr, Inhabited

namespace EntryKey

/-- The key that a text spells. -/
def ofText (text : String) : EntryKey :=
  ⟨Text.split '|' text⟩

/-- The text of the key. -/
def text (k : EntryKey) : String :=
  Text.join '|' k.components

/-- Whether the key has more than one component. -/
def isCompound (k : EntryKey) : Bool :=
  k.components.length > 1

/-- The first component. -/
def base (k : EntryKey) : String :=
  k.components.headD ""

/-- The key without its last component, if it is compound. -/
def parent? (k : EntryKey) : Option EntryKey :=
  if k.isCompound then some ⟨k.components.dropLast⟩ else none

/-- Whether the other key starts with all components of this one and has more. -/
def isAncestorOf (k other : EntryKey) : Bool :=
  k.components.length < other.components.length && k.components.isPrefixOf other.components

/-- The order of keys, component by component. -/
def cmp (k other : EntryKey) : Ordering :=
  compareLex k.components other.components
where
  /-- The lexicographic order of lists of texts. -/
  compareLex : List String → List String → Ordering
    | [], [] => .eq
    | [], _ :: _ => .lt
    | _ :: _, [] => .gt
    | a :: as, b :: bs => if a = b then compareLex as bs else if a < b then .lt else .gt

end EntryKey

end ConfigUpdate
