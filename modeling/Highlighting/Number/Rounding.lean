/-!
# Rounding of quotients

The quotient of two natural numbers, rounded to the nearest natural number, which is at most half a
unit away from the exact quotient.
-/

namespace Highlighting

/-- Quotient rounded to the nearest natural number; a tie goes to the even one. -/
def roundDiv (num den : Nat) : Nat :=
  let quotient := num / den
  let remainder := num % den
  if 2 * remainder < den then quotient
  else if den < 2 * remainder then quotient + 1
  else if quotient % 2 = 0 then quotient
  else quotient + 1

theorem roundDiv_cases (num den : Nat) :
    (roundDiv num den = num / den ∧ 2 * (num % den) ≤ den) ∨
      (roundDiv num den = num / den + 1 ∧ den ≤ 2 * (num % den)) := by
  simp only [roundDiv]
  split
  · rename_i h
    exact Or.inl ⟨rfl, by omega⟩
  · split
    · rename_i h
      exact Or.inr ⟨rfl, by omega⟩
    · split
      · exact Or.inl ⟨rfl, by omega⟩
      · exact Or.inr ⟨rfl, by omega⟩

theorem two_mul_roundDiv_le (num den : Nat) :
    2 * (den * roundDiv num den) ≤ 2 * num + den := by
  have hdiv := Nat.div_add_mod num den
  cases roundDiv_cases num den with
  | inl h =>
      rw [h.1]
      omega
  | inr h =>
      rw [h.1, Nat.mul_add]
      omega

theorem le_two_mul_roundDiv (num : Nat) {den : Nat} (hpos : 0 < den) :
    2 * num ≤ 2 * (den * roundDiv num den) + den := by
  have hdiv := Nat.div_add_mod num den
  have hmod := Nat.mod_lt num hpos
  cases roundDiv_cases num den with
  | inl h =>
      rw [h.1]
      omega
  | inr h =>
      rw [h.1, Nat.mul_add]
      omega

end Highlighting
