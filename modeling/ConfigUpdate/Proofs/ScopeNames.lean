import ConfigUpdate.Scope.Basic
import Mathlib.Data.List.Induction

/-!
# Names of scopes

A scope is read back from its name (`Scope.ofName?_name`), so different scopes have different names. A scope has
more names than the one that is written for it; `Scope.ofName?_eq_some_iff` says that a text is read as a scope
exactly if it is one of them.
-/

namespace ConfigUpdate

namespace Text

/-- A decimal numeral of a number: its digits after a number of zeros. -/
def numeral (zeros n : Nat) : List Char :=
  List.replicate zeros '0' ++ Nat.toDigits 10 n

theorem digits?_numeral (zeros n : Nat) : digits? (numeral zeros n) = some n := by
  have hne : numeral zeros n ≠ [] := List.append_ne_nil_of_right_ne_nil _ Nat.toDigits_ne_nil
  have hall : (numeral zeros n).all Char.isDigit = true := by
    rw [numeral, List.all_append, Bool.and_eq_true]
    constructor
    · simp
    · rw [List.all_eq_true]
      exact fun c hc => Nat.isDigit_of_mem_toDigits (by omega) (by omega) hc
  have hvalue : Nat.ofDigitChars 10 (numeral zeros n) 0 = n := by
    rw [numeral, Nat.ofDigitChars_append, Nat.ofDigitChars_replicate_zero, Nat.mul_zero,
      Nat.ofDigitChars_ten_toDigits]
  rw [digits?, if_pos ⟨hne, hall⟩]
  exact congrArg some hvalue

theorem digitChar_of_isDigit {c : Char} (h : c.isDigit = true) :
    c.toNat - '0'.toNat < 10 ∧ (c.toNat - '0'.toNat).digitChar = c := by
  have hzero : '0'.toNat = 48 := rfl
  have hnine : '9'.toNat = 57 := rfl
  have hbounds := Char.isDigit_iff_toNat.1 h
  have hlt : c.toNat - '0'.toNat < 10 := by omega
  refine ⟨hlt, Char.toNat_inj.1 ?_⟩
  rw [Nat.toNat_digitChar_of_lt_ten hlt]
  omega

/-- Digits are a numeral of their value. -/
theorem exists_eq_numeral {cs : List Char} (hne : cs ≠ []) (hall : ∀ c ∈ cs, c.isDigit = true) :
    ∃ zeros, cs = numeral zeros (Nat.ofDigitChars 10 cs 0) := by
  -- The last digit is added to the numeral of the digits before it, which is all zeros or goes on.
  induction cs using List.reverseRecOn with
  | nil => exact absurd rfl hne
  | append_singleton cs c ih =>
    obtain ⟨hlt, hchar⟩ := digitChar_of_isDigit (hall c (by simp))
    have hlast : Nat.toDigits 10 (c.toNat - '0'.toNat) = [c] := by
      rw [Nat.toDigits_of_lt_base hlt, hchar]
    have hvalue : Nat.ofDigitChars 10 (cs ++ [c]) 0
        = 10 * Nat.ofDigitChars 10 cs 0 + (c.toNat - '0'.toNat) := by
      rw [Nat.ofDigitChars_append, Nat.ofDigitChars_cons, Nat.ofDigitChars_nil]
    rw [hvalue]
    by_cases hcs : cs = []
    · subst hcs
      rw [Nat.ofDigitChars_nil, Nat.mul_zero, Nat.zero_add]
      exact ⟨0, hlast.symm⟩
    · obtain ⟨zeros, hzeros⟩ := ih hcs fun c hc => hall c (List.mem_append_left _ hc)
      by_cases hzero : Nat.ofDigitChars 10 cs 0 = 0
      · rw [hzero] at hzeros ⊢
        refine ⟨zeros + 1, ?_⟩
        rw [numeral, Nat.mul_zero, Nat.zero_add, hlast, List.replicate_succ', hzeros, numeral,
          Nat.toDigits_zero]
      · refine ⟨zeros, ?_⟩
        rw [numeral, ← Nat.toDigits_append_toDigits (by omega) (Nat.pos_of_ne_zero hzero) hlt, hlast,
          ← List.append_assoc]
        exact congrArg (· ++ [c]) hzeros

theorem digits?_eq_some_iff {cs : List Char} {n : Nat} : digits? cs = some n ↔ ∃ zeros, cs = numeral zeros n := by
  constructor
  · intro h
    unfold digits? at h
    split at h
    · rename_i hdigits
      cases h
      exact exists_eq_numeral hdigits.1 (List.all_eq_true.1 hdigits.2)
    · cases h
  · rintro ⟨zeros, rfl⟩
    exact digits?_numeral zeros n

end Text

namespace Scope

/-- The number of the chip has 32 bits. -/
def Fits : Scope → Prop
  | host => True
  | asic id => id < idBound

/-- The names of the scopes. The host needs none, and the number of a chip may have leading zeros. -/
inductive Names : String → Scope → Prop where
  | blank : Names "" host
  | localhost : Names "localhost" host
  | chip (zeros id : Nat) (h : id < idBound) : Names ("asic" ++ String.ofList (Text.numeral zeros id)) (asic id)

theorem ofName?_eq_some_iff {name : String} {scope : Scope} : ofName? name = some scope ↔ Names name scope := by
  constructor
  · intro h
    unfold ofName? at h
    split at h
    · rename_i hhost
      cases h
      obtain rfl | rfl := hhost
      · exact .blank
      · exact .localhost
    · split at h
      · rename_i cs hname
        obtain ⟨id, hid, h⟩ := Option.bind_eq_some_iff.1 h
        split at h
        · rename_i hbound
          cases h
          obtain ⟨zeros, rfl⟩ := Text.digits?_eq_some_iff.1 hid
          have hname : name = "asic" ++ String.ofList (Text.numeral zeros id) := by
            rw [← String.toList_inj, hname]
            simp
          exact hname ▸ .chip zeros id hbound
        · cases h
      · cases h
  · rintro (_ | _ | ⟨zeros, id, hbound⟩)
    · rfl
    · rfl
    · have hlist : ("asic" ++ String.ofList (Text.numeral zeros id)).toList
          = 'a' :: 's' :: 'i' :: 'c' :: Text.numeral zeros id := by
        simp
      have hchip : ¬ ("asic" ++ String.ofList (Text.numeral zeros id) = "" ∨
          "asic" ++ String.ofList (Text.numeral zeros id) = "localhost") := by
        simp only [← String.toList_inj, hlist]
        exact not_or.2 ⟨nofun, nofun⟩
      unfold ofName?
      rw [if_neg hchip, hlist]
      simp only [Text.digits?_numeral]
      simp [hbound]

/-- Whether a text is a name of a scope can be computed. -/
instance (name : String) (scope : Scope) : Decidable (Names name scope) :=
  decidable_of_iff _ ofName?_eq_some_iff

/-- A name is a name of one scope only. -/
theorem Names.unique {name : String} {a b : Scope} (ha : Names name a) (hb : Names name b) : a = b :=
  Option.some.inj ((ofName?_eq_some_iff.2 ha).symm.trans (ofName?_eq_some_iff.2 hb))

theorem Names.fits {name : String} {scope : Scope} (h : Names name scope) : scope.Fits := by
  cases h with
  | blank => exact trivial
  | localhost => exact trivial
  | chip zeros id hbound => exact hbound

theorem names_name {scope : Scope} (h : scope.Fits) : Names scope.name scope := by
  cases scope with
  | host => exact .localhost
  | asic id =>
    have hname : (asic id).name = "asic" ++ String.ofList (Text.numeral 0 id) := by
      rw [← String.toList_inj]
      simp [name, Text.numeral]
    exact hname ▸ .chip 0 id h

theorem ofName?_name {scope : Scope} (h : scope.Fits) : ofName? scope.name = some scope :=
  ofName?_eq_some_iff.2 (names_name h)

theorem name_injective {a b : Scope} (ha : a.Fits) (hb : b.Fits) (h : a.name = b.name) : a = b := by
  have hread := ofName?_name ha
  rw [h, ofName?_name hb] at hread
  exact (Option.some.inj hread).symm

end Scope

end ConfigUpdate
