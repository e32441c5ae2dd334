import ConfigUpdate.Json.Record
import ConfigUpdate.Proofs.JsonReadBack

/-!
# Reading records back

A record is read from the tokens of an object if each of its members is read from the tokens of its value
(`Json.Shape.read_tokensOf`), and an array of things if each of its items is (`Json.readArray_tokensOf`).
-/

namespace ConfigUpdate.Json

variable {ε α β σ : Type} {fault : ε} {shape : Shape ε σ} {start middle final : σ}
  {ms ns : List (String × Value)}

/-- The value is read from its tokens, whatever follows them. -/
def Reader.Finds (read : Reader ε α) (v : Value) (a : α) : Prop :=
  ∀ ts, read (tokensOf v ++ ts) = .ok (a, ts)

/-! ## Records -/

/-- How the members of an object, one after another, change what is known of a record. -/
inductive Shape.Gathers (shape : Shape ε σ) : σ → List (String × Value) → σ → Prop where
  | nil (s : σ) : Gathers shape s [] s
  | cons {start middle final : σ} {name : String} {v : Value} {ms : List (String × Value)}
    {read : σ → Reader ε σ} (hnamed : shape.named name = some read) (hread : (read start).Finds v middle)
    (hrest : Gathers shape middle ms final) : Gathers shape start ((name, v) :: ms) final

theorem Shape.Gathers.append (h : shape.Gathers start ms middle) (h' : shape.Gathers middle ns final) :
    shape.Gathers start (ms ++ ns) final := by
  induction h with
  | nil => exact h'
  | cons hnamed hread _ ih => exact .cons hnamed hread (ih h')

theorem length_le_memberTokens (ms : List (String × Value)) : ms.length ≤ (memberTokens ms).length := by
  have hfurther : ∀ ms : List (String × Value), ms.length ≤ (furtherMembers ms).length := by
    intro ms
    induction ms with
    | nil => exact Nat.le_refl 0
    | cons m ms ih =>
      obtain ⟨k, x⟩ := m
      simp only [furtherMembers, List.length_cons, List.length_append]
      omega
  cases ms with
  | nil => exact Nat.le_refl 0
  | cons m ms =>
    obtain ⟨k, x⟩ := m
    have hms := hfurther ms
    simp only [memberTokens, List.length_cons, List.length_append]
    omega

theorem Shape.readNamed_memberTokens {m : String × Value} (h : shape.Gathers start (m :: ms) final) {fuel : Nat}
    (hfuel : ms.length < fuel) (ts : List Token) :
    shape.readNamed fuel start (memberTokens (m :: ms) ++ .closeBrace :: ts) = .ok (final, ts) := by
  induction ms generalizing start m fuel with
  | nil =>
    obtain ⟨fuel, rfl⟩ := Nat.exists_eq_succ_of_ne_zero (Nat.ne_of_gt hfuel)
    obtain _ | ⟨hnamed, hread, hrest⟩ := h
    cases hrest
    have hfound := hread (.closeBrace :: ts)
    simp [memberTokens, furtherMembers, readNamed, hnamed, hfound, bind, Except.bind]
  | cons n ms ih =>
    obtain ⟨fuel, rfl⟩ := Nat.exists_eq_succ_of_ne_zero (Nat.ne_of_gt (Nat.lt_of_le_of_lt (Nat.zero_le _) hfuel))
    obtain _ | ⟨hnamed, hread, hrest⟩ := h
    have hfound := hread (.comma :: (memberTokens (n :: ms) ++ .closeBrace :: ts))
    have hothers := ih hrest (Nat.lt_of_succ_lt_succ hfuel)
    obtain ⟨l, y⟩ := n
    simp only [memberTokens, List.cons_append, List.append_assoc] at hfound hothers
    simp [memberTokens, furtherMembers, readNamed, hnamed, hfound, hothers, bind, Except.bind]

/-- A record is read from the tokens of an object that has its members. -/
theorem Shape.read_tokensOf (h : shape.Gathers start ms final) (ts : List Token) :
    shape.read start (tokensOf (.object ms) ++ ts) = .ok (final, ts) := by
  cases ms with
  | nil =>
    cases h
    rfl
  | cons m ms =>
    have hlength := length_le_memberTokens (m :: ms)
    have hfuel : ms.length < (memberTokens (m :: ms) ++ .closeBrace :: ts).length := by
      rw [List.length_cons] at hlength
      rw [List.length_append]
      omega
    have hread := Shape.readNamed_memberTokens h hfuel ts
    have hopen : tokensOf (.object (m :: ms)) ++ ts
        = .openBrace :: (memberTokens (m :: ms) ++ .closeBrace :: ts) := by
      simp [tokensOf, memberTokens]
    rw [hopen]
    exact hread

/-! ## Arrays -/

theorem length_le_furtherItems (xs : List Value) : xs.length ≤ (furtherItems xs).length := by
  induction xs with
  | nil => exact Nat.le_refl 0
  | cons x xs ih =>
    simp only [furtherItems, List.length_cons, List.length_append]
    omega

theorem readItems_itemTokens {item : Reader ε α} {write : β → Value} {find : β → α} {b : β} {bs : List β}
    (h : ∀ b' ∈ b :: bs, item.Finds (write b') (find b')) {fuel : Nat} (hfuel : bs.length < fuel) (done : List α)
    (ts : List Token) :
    readItems fault item fuel done (itemTokens ((b :: bs).map write) ++ .closeBracket :: ts)
      = .ok (done.reverse ++ (b :: bs).map find, ts) := by
  induction bs generalizing b fuel done with
  | nil =>
    obtain ⟨fuel, rfl⟩ := Nat.exists_eq_succ_of_ne_zero (Nat.ne_of_gt hfuel)
    have hfound := h b List.mem_cons_self (.closeBracket :: ts)
    simp [itemTokens, furtherItems, readItems, hfound, bind, Except.bind]
  | cons c bs ih =>
    obtain ⟨fuel, rfl⟩ := Nat.exists_eq_succ_of_ne_zero (Nat.ne_of_gt (Nat.lt_of_le_of_lt (Nat.zero_le _) hfuel))
    obtain ⟨hb, hbs⟩ := List.forall_mem_cons.1 h
    have hfound := hb (.comma :: (itemTokens ((c :: bs).map write) ++ .closeBracket :: ts))
    have hothers := ih hbs (Nat.lt_of_succ_lt_succ hfuel) (find b :: done)
    simp only [List.map_cons, itemTokens, List.append_assoc] at hfound hothers
    simp [itemTokens, furtherItems, readItems, hfound, hothers, bind, Except.bind]

theorem readArray_openBracket (item : Reader ε α) (v : Value) (ts : List Token) :
    readArray fault item (.openBracket :: (tokensOf v ++ ts))
      = readItems fault item (tokensOf v ++ ts).length [] (tokensOf v ++ ts) := by
  obtain ⟨t, rest, htokens, hclose⟩ := exists_tokensOf_eq_cons v
  rw [htokens, List.cons_append]
  unfold readArray
  split
  · rename_i heq
    cases heq
    exact absurd rfl hclose
  · rename_i heq
    cases heq
    rfl
  · rename_i hother
    exact absurd rfl (hother _)

/-- An array of things is read from the tokens of their values. -/
theorem readArray_tokensOf {item : Reader ε α} {write : β → Value} {find : β → α} {bs : List β}
    (h : ∀ b ∈ bs, item.Finds (write b) (find b)) (ts : List Token) :
    readArray fault item (tokensOf (.array (bs.map write)) ++ ts) = .ok (bs.map find, ts) := by
  cases bs with
  | nil => rfl
  | cons b bs =>
    have hlength := length_le_furtherItems (bs.map write)
    have hfuel : bs.length < (itemTokens ((b :: bs).map write) ++ .closeBracket :: ts).length := by
      rw [List.length_map] at hlength
      simp only [List.map_cons, itemTokens, List.length_append, List.length_cons]
      omega
    have hread : readItems fault item _ [] _ = .ok (_, ts) := readItems_itemTokens h hfuel [] ts
    have hopen : tokensOf (.array ((b :: bs).map write)) ++ ts
        = .openBracket :: (tokensOf (write b) ++ (furtherItems (bs.map write) ++ .closeBracket :: ts)) := by
      simp [tokensOf]
    simp only [List.map_cons, itemTokens, List.append_assoc] at hread
    rw [hopen, readArray_openBracket, hread]
    rfl

end ConfigUpdate.Json
