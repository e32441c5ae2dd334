import ConfigUpdate.Text.Digits

/-!
# Scopes

The configurations of a switch: one of the host, and on a switch with several chips one of each
chip, which lives in a namespace of its own.
-/

namespace ConfigUpdate

/-- One configuration of a switch. -/
inductive Scope where
  | host
  /-- The namespace of a chip; numbers have 32 bits. -/
  | asic (id : Nat)
  deriving DecidableEq, Repr, Inhabited

namespace Scope

/-- The bound of the numbers of chips. -/
def idBound : Nat := UInt32.size

/-- The name of the scope. -/
def name : Scope → String
  | host => "localhost"
  | asic id => "asic" ++ toString id

/-- The network namespace of the scope; the host has none. -/
def namespace? : Scope → Option String
  | host => none
  | asic id => some ("asic" ++ toString id)

/-- The scope that a text names. The empty text names the host too, and the number of a chip may
have leading zeros. -/
def ofName? (s : String) : Option Scope :=
  if s = "" ∨ s = "localhost" then some host
  else match s.toList with
    | 'a' :: 's' :: 'i' :: 'c' :: cs => do
      let id ← Text.digits? cs
      if id < idBound then some (asic id) else none
    | _ => none

/-- The order of scopes: the host, then the chips by number. -/
def lt : Scope → Scope → Prop
  | host, asic _ => True
  | asic i, asic j => i < j
  | _, host => False

instance : LT Scope := ⟨lt⟩

instance : DecidableLT Scope := fun a b =>
  match a, b with
  | host, asic _ => isTrue trivial
  | asic i, asic j => inferInstanceAs (Decidable (i < j))
  | host, host => isFalse fun h => h
  | asic _, host => isFalse fun h => h

end Scope

end ConfigUpdate
