/-!
# Sorted dictionaries

Finite maps as lists of keys and values in ascending order of the keys, so that two dictionaries
with the same content are the same list. Main statement: `get?_insert` says what setting a key does
to every key.
-/

namespace ConfigUpdate

/-- A finite map as a list of keys and values; its operations keep ascending keys ascending. -/
abbrev Dictionary (κ α : Type) := List (κ × α)

namespace Dictionary

variable {κ α β : Type} [LT κ] [DecidableLT κ] [DecidableEq κ]

omit [LT κ] [DecidableLT κ] in
/-- The value of a key. -/
def get? : Dictionary κ α → κ → Option α
  | [], _ => none
  | (k, v) :: d, key => if k = key then some v else get? d key

omit [LT κ] [DecidableLT κ] in
/-- Whether a key has a value. -/
def contains (d : Dictionary κ α) (key : κ) : Bool :=
  (d.get? key).isSome

/-- The dictionary with a key set to a value. -/
def insert : Dictionary κ α → κ → α → Dictionary κ α
  | [], key, value => [(key, value)]
  | (k, v) :: d, key, value =>
    if k = key then (key, value) :: d
    else if key < k then (key, value) :: (k, v) :: d
    else (k, v) :: insert d key value

omit [LT κ] [DecidableLT κ] in
/-- The dictionary without a key. -/
def erase : Dictionary κ α → κ → Dictionary κ α
  | [], _ => []
  | (k, v) :: d, key => if k = key then d else (k, v) :: erase d key

/-- The dictionary of a list of keys and values, in which a later value replaces an earlier one. -/
def ofList (entries : List (κ × α)) : Dictionary κ α :=
  entries.foldl (fun d e => insert d e.1 e.2) []

omit [LT κ] [DecidableLT κ] [DecidableEq κ] in
/-- The keys in ascending order. -/
def keys (d : Dictionary κ α) : List κ :=
  d.map (·.1)

omit [LT κ] [DecidableLT κ] [DecidableEq κ] in
/-- The dictionary with every value changed. -/
def mapValues (f : α → β) (d : Dictionary κ α) : Dictionary κ β :=
  d.map fun e => (e.1, f e.2)

omit [DecidableLT κ] [DecidableEq κ] in
/-- The keys strictly ascend. -/
def Sorted (d : Dictionary κ α) : Prop :=
  d.Pairwise fun a b => a.1 < b.1

/-! ## What an update does to every key -/

omit [LT κ] [DecidableLT κ] in
@[simp] theorem get?_nil (key : κ) : get? ([] : Dictionary κ α) key = none := rfl

theorem get?_insert (d : Dictionary κ α) (key key' : κ) (value : α) :
    get? (insert d key value) key' = if key = key' then some value else get? d key' := by
  induction d with
  | nil => simp [insert, get?]
  | cons e d ih =>
    obtain ⟨k, v⟩ := e
    by_cases hk : k = key
    · subst hk
      by_cases h : k = key' <;> simp [insert, get?, h]
    · by_cases hlt : key < k
      · simp [insert, get?, hk, hlt]
      · by_cases h : k = key'
        · subst h
          simp [insert, get?, hk, hlt, Ne.symm hk]
        · simp [insert, get?, hk, hlt, h, ih]

omit [LT κ] [DecidableLT κ] in
theorem get?_eq_none_of_forall_ne {d : Dictionary κ α} {key : κ} (h : ∀ e ∈ d, e.1 ≠ key) :
    get? d key = none := by
  induction d with
  | nil => rfl
  | cons e d ih =>
    have h' := h e (by simp)
    simp [get?, h', ih (fun e' he' => h e' (by simp [he']))]

end Dictionary

end ConfigUpdate
