import ConfigUpdate.Json.Reader
import ConfigUpdate.Proofs.Leaves
import ConfigUpdate.Proofs.WellFormedEdits

/-!
# Trees that are read

What holds of the values in the containers that are open holds after every token, if it is built up from leaves
as values are (`Json.Built`), and so it holds of what is read from a text (`Json.holds_of_parseWithin?`). Whatever
is read is well formed, and nests no deeper than a document may.
-/

namespace ConfigUpdate

namespace Value

theorem wellFormed_foldl_insert {es : List (String × Value)} (hes : ∀ e ∈ es, e.2.WellFormed)
    {ms : List (String × Value)}
    (hms : (object ms).WellFormed) :
    (object (es.foldl (fun d e => Dictionary.insert d e.1 e.2) ms)).WellFormed := by
  induction es generalizing ms with
  | nil => exact hms
  | cons e es ih =>
    obtain ⟨he, hes⟩ := List.forall_mem_cons.1 hes
    exact ih hes (wellFormed_insert hms he e.1)

theorem wellFormed_ofList {es : List (String × Value)} (hes : ∀ e ∈ es, e.2.WellFormed) :
    (object (Dictionary.ofList es)).WellFormed :=
  wellFormed_foldl_insert hes wellFormed_empty

end Value

namespace Json

/-- The leaf that a token stands for. -/
def Token.leaf? : Token → Option Scalar
  | .word s => some s
  | .number (some n) => some (.number n)
  | .text (some s) => some (.string s)
  | _ => none

/-- Every leaf among the tokens has a property. -/
def LeafTokens (Leaf : Scalar → Prop) (ts : List Token) : Prop :=
  ∀ t ∈ ts, ∀ s, t.leaf? = some s → Leaf s

/-- A property of values inside a number of containers that is built up from leaves as the values are. -/
structure Built (limit : Nat) (Leaf : Scalar → Prop) (P : Nat → Value → Prop) : Prop where
  leaf : ∀ n s, Leaf s → P n (.scalar s)
  array : ∀ n xs, n < limit → (∀ x ∈ xs, P (n + 1) x) → P n (.array xs)
  object : ∀ n ms, n < limit → (∀ m ∈ ms, P (n + 1) m.2) → P n (.object (Dictionary.ofList ms))

/-- Every value in the container has a property. -/
def Container.Holds (Q : Value → Prop) : Container → Prop
  | .array xs => ∀ x ∈ xs, Q x
  | .object ms _ => ∀ m ∈ ms, Q m.2

theorem Container.Holds.item {Q : Value → Prop} {xs : List Value} {v : Value} (h : (Container.array xs).Holds Q)
    (hv : Q v) : (Container.array (v :: xs)).Holds Q :=
  List.forall_mem_cons.2 ⟨hv, h⟩

theorem Container.Holds.member {Q : Value → Prop} {ms : List (String × Value)} {name : String} {v : Value}
    (h : (Container.object ms name).Holds Q) (hv : Q v) (next : String) :
    (Container.object ((name, v) :: ms) next).Holds Q :=
  List.forall_mem_cons.2 ⟨hv, h⟩

/-- The values in the containers that are open have the property, each for the containers around it. -/
def HoldsOpen (limit : Nat) (P : Nat → Value → Prop) : List Container → Prop
  | [] => True
  | c :: outer => outer.length < limit ∧ c.Holds (P (outer.length + 1)) ∧ HoldsOpen limit P outer

section

variable {limit : Nat} {Leaf : Scalar → Prop} {P : Nat → Value → Prop}

mutual

theorem holds_of_readInside (hP : Built limit Leaf P) {outer : List Container} {ts rest : List Token} {v : Value}
    (h : readInside limit outer ts = some (v, rest)) (hts : LeafTokens Leaf ts)
    (houter : HoldsOpen limit P outer) : P 0 v := by
  unfold readInside at h
  split at h
  · obtain ⟨hleaf, hts⟩ := List.forall_mem_cons.1 hts
    exact holds_of_closeInside hP h hts houter (hP.leaf _ _ (hleaf _ rfl))
  · obtain ⟨hleaf, hts⟩ := List.forall_mem_cons.1 hts
    exact holds_of_closeInside hP h hts houter (hP.leaf _ _ (hleaf _ rfl))
  · obtain ⟨hleaf, hts⟩ := List.forall_mem_cons.1 hts
    exact holds_of_closeInside hP h hts houter (hP.leaf _ _ (hleaf _ rfl))
  · have hts := (List.forall_mem_cons.1 (List.forall_mem_cons.1 hts).2).2
    split at h
    · rename_i hlimit
      exact holds_of_closeInside hP h hts houter (hP.array _ _ hlimit (List.forall_mem_nil _))
    · cases h
  · have hts := (List.forall_mem_cons.1 hts).2
    split at h
    · rename_i hlimit
      exact holds_of_readInside hP h hts ⟨hlimit, List.forall_mem_nil _, houter⟩
    · cases h
  · have hts := (List.forall_mem_cons.1 (List.forall_mem_cons.1 hts).2).2
    split at h
    · rename_i hlimit
      exact holds_of_closeInside hP h hts houter (hP.object _ [] hlimit (List.forall_mem_nil _))
    · cases h
  · have hts := (List.forall_mem_cons.1 (List.forall_mem_cons.1 (List.forall_mem_cons.1 hts).2).2).2
    split at h
    · rename_i hlimit
      exact holds_of_readInside hP h hts ⟨hlimit, List.forall_mem_nil _, houter⟩
    · cases h
  · cases h
termination_by ts.length

theorem holds_of_closeInside (hP : Built limit Leaf P) {outer : List Container} {ts rest : List Token}
    {v read : Value} (h : closeInside limit outer v ts = some (read, rest)) (hts : LeafTokens Leaf ts)
    (houter : HoldsOpen limit P outer) (hv : P outer.length v) : P 0 read := by
  unfold closeInside at h
  split at h
  · cases h
    exact hv
  · obtain ⟨hlimit, hc, houter⟩ := houter
    exact holds_of_readInside hP h (List.forall_mem_cons.1 hts).2 ⟨hlimit, hc.item hv, houter⟩
  · obtain ⟨hlimit, hc, houter⟩ := houter
    refine holds_of_closeInside hP h (List.forall_mem_cons.1 hts).2 houter (hP.array _ _ hlimit fun x hx => ?_)
    exact hc.item hv x (List.mem_reverse.1 hx)
  · obtain ⟨hlimit, hc, houter⟩ := houter
    have hts := (List.forall_mem_cons.1 (List.forall_mem_cons.1 (List.forall_mem_cons.1 hts).2).2).2
    exact holds_of_readInside hP h hts ⟨hlimit, hc.member hv _, houter⟩
  · rename_i ms name outer ts
    obtain ⟨hlimit, hc, houter⟩ := houter
    refine holds_of_closeInside hP h (List.forall_mem_cons.1 hts).2 houter (hP.object _ _ hlimit fun m hm => ?_)
    exact hc.member hv name m (List.mem_reverse.1 hm)
  · cases h
termination_by ts.length

end

/-- A property that is built up holds of what is read from a text whose leaves have theirs. -/
theorem holds_of_parseWithin? (hP : Built limit Leaf P) {text : String} {v : Value}
    (h : parseWithin? limit text = some v) (htokens : LeafTokens Leaf (tokens text)) : P 0 v := by
  unfold parseWithin? valueOf? at h
  split at h
  · rename_i hread
    cases h
    exact holds_of_readInside hP hread htokens trivial
  · cases h

end

variable {v : Value} {text : String}

theorem built_wellFormed (limit : Nat) : Built limit (fun _ => True) fun _ v => v.WellFormed where
  leaf _ _ _ := trivial
  array _ _ _ h := Value.wellFormed_array_iff.2 h
  object _ _ _ h := Value.wellFormed_ofList h

theorem wellFormed_of_parse? (h : parse? text = some v) : v.WellFormed :=
  holds_of_parseWithin? (built_wellFormed depthLimit) h fun _ _ _ _ => trivial

theorem built_depth (limit : Nat) : Built limit (fun _ => True) fun n v => v.depth ≤ limit - n where
  leaf _ _ _ := Nat.zero_le _
  array n xs hlimit h := by
    have hitems := Value.depthItems_le_iff.2 h
    rw [Value.depth]
    omega
  object n ms hlimit h := by
    have hmembers : Value.depthMembers (Dictionary.ofList ms) ≤ limit - (n + 1) :=
      Value.depthMembers_le_iff.2 (Dictionary.forall_mem_ofList (fun v : Value => v.depth ≤ limit - (n + 1)) h)
    rw [Value.depth]
    omega

/-- What is read nests no deeper than a document may. -/
theorem depth_le_of_parse? (h : parse? text = some v) : v.depth ≤ depthLimit :=
  holds_of_parseWithin? (built_depth depthLimit) h fun _ _ _ _ => trivial

theorem built_leaves (limit : Nat) (Leaf : Scalar → Prop) : Built limit Leaf fun _ v => v.Leaves Leaf where
  leaf _ _ h := h
  array _ _ _ h := Value.leaves_array_iff.2 h
  object _ _ _ h := Value.leaves_object_iff.2 (Dictionary.forall_mem_ofList (Value.Leaves Leaf) h)

end Json

end ConfigUpdate
