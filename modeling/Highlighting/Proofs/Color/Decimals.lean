import Highlighting.Color.Basic

/-!
# Decimal colors

The decimal text of a color is made of digits, signs, points, commas and the letters of the values
that are not finite numbers, so that it holds nothing that structures a line of LaTeX.
-/

namespace Highlighting

theorem Numeral.isDigit_of_mem_ofNat {n : Nat} {c : Char} (h : c ∈ Numeral.ofNat n) :
    c.isDigit = true :=
  Nat.isDigit_of_mem_toDigits (by decide) (by decide) h

theorem Numeral.not_mem_ofNat {c : Char} (h : c.isDigit = false) (n : Nat) :
    c ∉ Numeral.ofNat n := by
  intro hmem
  rw [Numeral.isDigit_of_mem_ofNat hmem] at h
  cases h

def Binary64.IsFixedChar (c : Char) : Prop :=
  c.isDigit = true ∨ c ∈ ['-', '.', 'n', 'a', 'i', 'f']

instance (c : Char) : Decidable (Binary64.IsFixedChar c) :=
  inferInstanceAs (Decidable (_ ∨ _))

theorem Binary64.mem_fixed {x : Binary64} {places : Nat} {c : Char} (h : c ∈ x.fixed places) :
    IsFixedChar c := by
  have hsign : ∀ {negative : Bool}, c ∈ signText negative → IsFixedChar c := by
    intro negative hc
    cases negative with
    | false =>
        cases hc
    | true =>
        rw [List.mem_singleton.mp hc]
        exact Or.inr (by decide)
  cases x with
  | nan =>
      have hnan : "nan".toList ⊆ ['-', '.', 'n', 'a', 'i', 'f'] := by
        decide
      exact Or.inr (hnan h)
  | infinite negative =>
      rcases List.mem_append.mp h with h | h
      · exact hsign h
      · have hinf : "inf".toList ⊆ ['-', '.', 'n', 'a', 'i', 'f'] := by
          decide
        exact Or.inr (hinf h)
  | finite negative significand exponent =>
      simp only [fixed, List.mem_append] at h
      rcases h with (h | h) | h
      · exact hsign h
      · exact Or.inl (Numeral.isDigit_of_mem_ofNat h)
      · split at h
        · cases h
        rcases List.mem_cons.mp h with rfl | h
        · exact Or.inr (by decide)
        rcases List.mem_append.mp h with h | h
        · rw [List.eq_of_mem_replicate h]
          exact Or.inl (by decide)
        · exact Or.inl (Numeral.isDigit_of_mem_ofNat h)

theorem Color.mem_rgbChars {color : Color} {c : Char} (h : c ∈ color.rgbChars) :
    c = ',' ∨ Binary64.IsFixedChar c := by
  simp only [rgbChars_eq, List.mem_append, List.mem_cons] at h
  rcases h with h | rfl | h | rfl | h
  · exact Or.inr (Binary64.mem_fixed h)
  · exact Or.inl rfl
  · exact Or.inr (Binary64.mem_fixed h)
  · exact Or.inl rfl
  · exact Or.inr (Binary64.mem_fixed h)

theorem Color.not_mem_rgbChars {c : Char} (hcomma : c ≠ ',') (hfixed : ¬ Binary64.IsFixedChar c)
    (color : Color) : c ∉ color.rgbChars := by
  intro h
  rcases mem_rgbChars h with h | h
  · exact hcomma h
  · exact hfixed h

end Highlighting
