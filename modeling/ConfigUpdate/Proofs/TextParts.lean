import ConfigUpdate.Text.Split

/-!
# Parts of a text

The parts between the separators have no separator, and from parts without one, joined again, come the same
parts: `Text.splitChars_joinChars`.
-/

namespace ConfigUpdate.Text

variable {sep : Char} {cs : List Char}

theorem not_mem_of_mem_splitChars {part : List Char} (h : part ∈ splitChars sep cs) : sep ∉ part := by
  induction cs generalizing part with
  | nil =>
    rw [List.mem_singleton.1 h]
    exact List.not_mem_nil
  | cons c cs ih =>
    unfold splitChars at h
    split at h
    · rcases List.mem_cons.1 h with rfl | h
      · exact List.not_mem_nil
      · exact ih h
    · rename_i hc
      split at h
      · rw [List.mem_singleton.1 h]
        simpa using Ne.symm hc
      · rename_i p ps hsplit
        rw [hsplit] at ih
        rcases List.mem_cons.1 h with rfl | h
        · have hp := ih List.mem_cons_self
          simpa [Ne.symm hc] using hp
        · exact ih (List.mem_cons_of_mem _ h)

/-- The first part starts as the text does, unless the text starts with the separator. -/
theorem head?_of_splitChars {part : List Char} {parts : List (List Char)} {d : Char}
    (h : splitChars sep cs = part :: parts) (hd : d ≠ sep) : part.head? = some d ↔ cs.head? = some d := by
  cases cs with
  | nil =>
    cases h
    rfl
  | cons c cs =>
    unfold splitChars at h
    split at h
    · rename_i hc
      cases h
      simp [hc, Ne.symm hd]
    · split at h <;> cases h <;> rfl

theorem splitChars_of_not_mem (h : sep ∉ cs) : splitChars sep cs = [cs] := by
  induction cs with
  | nil => rfl
  | cons c cs ih =>
    obtain ⟨hc, hcs⟩ := not_or.1 (mt List.mem_cons.2 h)
    simp [splitChars, Ne.symm hc, ih hcs]

theorem splitChars_append (cs ds : List Char) :
    splitChars sep (cs ++ sep :: ds) = splitChars sep cs ++ splitChars sep ds := by
  induction cs with
  | nil => simp [splitChars]
  | cons c cs ih =>
    by_cases hc : c = sep
    · simp [splitChars, hc, ih]
    · cases hsplit : splitChars sep cs with
      | nil => exact absurd hsplit (splitChars_ne_nil sep cs)
      | cons part parts => simp [splitChars, hc, ih, hsplit]

theorem splitChars_joinChars {parts : List (List Char)} (hne : parts ≠ []) (h : ∀ part ∈ parts, sep ∉ part) :
    splitChars sep (joinChars sep parts) = parts := by
  induction parts with
  | nil => exact absurd rfl hne
  | cons part parts ih =>
    obtain ⟨hpart, hparts⟩ := List.forall_mem_cons.1 h
    cases parts with
    | nil => exact splitChars_of_not_mem hpart
    | cons next rest =>
      rw [joinChars, splitChars_append, splitChars_of_not_mem hpart, ih (List.cons_ne_nil _ _) hparts]
      · rfl
      · exact List.cons_ne_nil _ _

theorem joinChars_append {parts parts' : List (List Char)} (hne : parts ≠ []) (hne' : parts' ≠ []) :
    joinChars sep (parts ++ parts') = joinChars sep parts ++ sep :: joinChars sep parts' := by
  induction parts with
  | nil => exact absurd rfl hne
  | cons part parts ih =>
    cases parts with
    | nil =>
      cases parts' with
      | nil => exact absurd rfl hne'
      | cons next rest => rfl
    | cons next rest =>
      have hrest := ih (List.cons_ne_nil _ _)
      simp only [List.cons_append, joinChars] at hrest ⊢
      rw [hrest, List.append_assoc, List.cons_append]

end ConfigUpdate.Text
