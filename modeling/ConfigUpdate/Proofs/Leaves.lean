import ConfigUpdate.Proofs.SortedDictionary
import ConfigUpdate.Value.Basic

/-!
# Leaves and depth of trees

A property of leaves holds of a tree if it holds of every leaf of it (`Value.Leaves`). Changing the leaves
changes neither the names of a tree nor its depth.
-/

namespace ConfigUpdate

namespace Dictionary

variable {κ α : Type} [LT κ] [DecidableLT κ] [DecidableEq κ] {Q : α → Prop}

theorem forall_mem_insert_iff {d : Dictionary κ α} {key : κ} {value : α} (hd : ∀ e ∈ d, Q e.2) :
    (∀ e ∈ insert d key value, Q e.2) ↔ Q value := by
  constructor
  · intro h
    exact h (key, value) (mem_of_get? (by rw [get?_insert, if_pos rfl]))
  · intro hvalue e he
    obtain rfl | he := mem_insert he
    · exact hvalue
    · exact hd e he

theorem forall_mem_ofList (Q : α → Prop) {es : List (κ × α)} (hes : ∀ e ∈ es, Q e.2) : ∀ e ∈ ofList es, Q e.2 := by
  suffices h : ∀ d : Dictionary κ α, (∀ e ∈ d, Q e.2) → ∀ e ∈ es.foldl (fun d e => insert d e.1 e.2) d, Q e.2 from
    h [] (List.forall_mem_nil _)
  induction es with
  | nil => exact fun d hd => hd
  | cons e es ih =>
    obtain ⟨he, hes⟩ := List.forall_mem_cons.1 hes
    exact fun d hd => ih hes _ ((forall_mem_insert_iff hd).2 he)

end Dictionary

namespace Value

variable {P Q : Scalar → Prop} {f : Scalar → Scalar}

mutual

/-- Every leaf of the tree has the property. -/
def Leaves (P : Scalar → Prop) : Value → Prop
  | scalar s => P s
  | array xs => LeavesItems P xs
  | object ms => LeavesMembers P ms

/-- Every leaf of the items has the property. -/
def LeavesItems (P : Scalar → Prop) : List Value → Prop
  | [] => True
  | x :: xs => x.Leaves P ∧ LeavesItems P xs

/-- Every leaf of the values of members has the property. -/
def LeavesMembers (P : Scalar → Prop) : List (String × Value) → Prop
  | [] => True
  | (_, x) :: ms => x.Leaves P ∧ LeavesMembers P ms

end

theorem leaves_array_iff {xs : List Value} : (array xs).Leaves P ↔ ∀ x ∈ xs, x.Leaves P := by
  show LeavesItems P xs ↔ _
  induction xs with
  | nil => simp [LeavesItems]
  | cons x xs ih => simp [LeavesItems, ih]

theorem leaves_object_iff {ms : List (String × Value)} : (object ms).Leaves P ↔ ∀ m ∈ ms, m.2.Leaves P := by
  show LeavesMembers P ms ↔ _
  induction ms with
  | nil => simp [LeavesMembers]
  | cons m ms ih => simp [LeavesMembers, ih]

mutual

theorem Leaves.imp (h : ∀ s, P s → Q s) : ∀ {v : Value}, v.Leaves P → v.Leaves Q
  | .scalar s, hv => h s hv
  | .array _, hv => LeavesItems.imp h hv
  | .object _, hv => LeavesMembers.imp h hv

theorem LeavesItems.imp (h : ∀ s, P s → Q s) : ∀ {xs : List Value}, LeavesItems P xs → LeavesItems Q xs
  | [], _ => trivial
  | _ :: _, hv => ⟨Leaves.imp h hv.1, LeavesItems.imp h hv.2⟩

theorem LeavesMembers.imp (h : ∀ s, P s → Q s) :
    ∀ {ms : List (String × Value)}, LeavesMembers P ms → LeavesMembers Q ms
  | [], _ => trivial
  | _ :: _, hv => ⟨Leaves.imp h hv.1, LeavesMembers.imp h hv.2⟩

end

mutual

/-- The tree with every leaf changed. -/
def mapLeaves (f : Scalar → Scalar) : Value → Value
  | scalar s => scalar (f s)
  | array xs => array (mapItems f xs)
  | object ms => object (mapMembers f ms)

/-- The items with every leaf changed. -/
def mapItems (f : Scalar → Scalar) : List Value → List Value
  | [] => []
  | x :: xs => x.mapLeaves f :: mapItems f xs

/-- The members with every leaf of their values changed. -/
def mapMembers (f : Scalar → Scalar) : List (String × Value) → List (String × Value)
  | [] => []
  | (k, x) :: ms => (k, x.mapLeaves f) :: mapMembers f ms

end

mutual

theorem mapLeaves_eq_self (h : ∀ s, P s → f s = s) : ∀ {v : Value}, v.Leaves P → v.mapLeaves f = v
  | .scalar s, hv => congrArg scalar (h s hv)
  | .array _, hv => congrArg array (mapItems_eq_self h hv)
  | .object _, hv => congrArg object (mapMembers_eq_self h hv)

theorem mapItems_eq_self (h : ∀ s, P s → f s = s) : ∀ {xs : List Value}, LeavesItems P xs → mapItems f xs = xs
  | [], _ => rfl
  | x :: xs, hv => by rw [mapItems, mapLeaves_eq_self h hv.1, mapItems_eq_self h hv.2]

theorem mapMembers_eq_self (h : ∀ s, P s → f s = s) :
    ∀ {ms : List (String × Value)}, LeavesMembers P ms → mapMembers f ms = ms
  | [], _ => rfl
  | (k, x) :: ms, hv => by rw [mapMembers, mapLeaves_eq_self h hv.1, mapMembers_eq_self h hv.2]

end

mutual

theorem depth_mapLeaves (f : Scalar → Scalar) : ∀ v : Value, (v.mapLeaves f).depth = v.depth
  | .scalar _ => rfl
  | .array xs => by rw [mapLeaves, depth, depth, depthItems_mapItems f xs]
  | .object ms => by rw [mapLeaves, depth, depth, depthMembers_mapMembers f ms]

theorem depthItems_mapItems (f : Scalar → Scalar) : ∀ xs : List Value, depthItems (mapItems f xs) = depthItems xs
  | [] => rfl
  | x :: xs => by rw [mapItems, depthItems, depthItems, depth_mapLeaves f x, depthItems_mapItems f xs]

theorem depthMembers_mapMembers (f : Scalar → Scalar) :
    ∀ ms : List (String × Value), depthMembers (mapMembers f ms) = depthMembers ms
  | [] => rfl
  | (k, x) :: ms => by
    rw [mapMembers, depthMembers, depthMembers, depth_mapLeaves f x, depthMembers_mapMembers f ms]

end

theorem map_fst_mapMembers (f : Scalar → Scalar) (ms : List (String × Value)) :
    (mapMembers f ms).map Prod.fst = ms.map Prod.fst := by
  induction ms with
  | nil => rfl
  | cons m ms ih => simp [mapMembers, ih]

mutual

theorem WellFormed.mapLeaves (f : Scalar → Scalar) : ∀ {v : Value}, v.WellFormed → (v.mapLeaves f).WellFormed
  | .scalar _, _ => trivial
  | .array _, h => WellFormedItems.mapItems f h
  | .object ms, h => by
    have hsorted : (ms.map Prod.fst).Pairwise (· < ·) := List.pairwise_map.2 h.1
    rw [← map_fst_mapMembers f] at hsorted
    exact ⟨List.pairwise_map.1 hsorted, WellFormedMembers.mapMembers f h.2⟩

theorem WellFormedItems.mapItems (f : Scalar → Scalar) :
    ∀ {xs : List Value}, WellFormedItems xs → WellFormedItems (mapItems f xs)
  | [], _ => trivial
  | _ :: _, h => ⟨h.1.mapLeaves f, WellFormedItems.mapItems f h.2⟩

theorem WellFormedMembers.mapMembers (f : Scalar → Scalar) :
    ∀ {ms : List (String × Value)}, WellFormedMembers ms → WellFormedMembers (mapMembers f ms)
  | [], _ => trivial
  | _ :: _, h => ⟨h.1.mapLeaves f, WellFormedMembers.mapMembers f h.2⟩

end

/-! ## Depth -/

section

variable {ms : List (String × Value)} {xs : List Value} {v : Value} {name : String} {n : Nat}

theorem depthItems_le_iff : depthItems xs ≤ n ↔ ∀ x ∈ xs, x.depth ≤ n := by
  induction xs with
  | nil => simp [depthItems]
  | cons x xs ih => rw [depthItems, Nat.max_le, List.forall_mem_cons, ih]

theorem depthMembers_le_iff : depthMembers ms ≤ n ↔ ∀ m ∈ ms, m.2.depth ≤ n := by
  induction ms with
  | nil => simp [depthMembers]
  | cons m ms ih => rw [depthMembers, Nat.max_le, List.forall_mem_cons, ih]

theorem depth_object_le_iff : (object ms).depth ≤ n ↔ 0 < n ∧ ∀ m ∈ ms, m.2.depth ≤ n - 1 := by
  rw [depth, ← depthMembers_le_iff]
  omega

/-- A member nests less deep than its object. -/
theorem depth_lt_of_get? (h : Dictionary.get? ms name = some v) : v.depth < (object ms).depth := by
  have hle : v.depth ≤ depthMembers ms := depthMembers_le_iff.1 (Nat.le_refl _) (name, v) (Dictionary.mem_of_get? h)
  rw [depth]
  omega

theorem depth_insert_le_iff (hms : (object ms).depth ≤ n) :
    (object (Dictionary.insert ms name v)).depth ≤ n ↔ v.depth + 1 ≤ n := by
  obtain ⟨hpos, hmembers⟩ := depth_object_le_iff.1 hms
  have hinsert : (∀ m ∈ Dictionary.insert ms name v, m.2.depth ≤ n - 1) ↔ v.depth ≤ n - 1 :=
    Dictionary.forall_mem_insert_iff (Q := fun v : Value => v.depth ≤ n - 1) hmembers
  rw [depth_object_le_iff, hinsert]
  omega

theorem depth_erase_le (ms : List (String × Value)) (name : String) :
    (object (Dictionary.erase ms name)).depth ≤ (object ms).depth := by
  obtain ⟨hpos, hmembers⟩ := depth_object_le_iff.1 (Nat.le_refl (object ms).depth)
  exact depth_object_le_iff.2 ⟨hpos, fun m hm => hmembers m ((Dictionary.erase_sublist ms name).subset hm)⟩

end

end Value

end ConfigUpdate
