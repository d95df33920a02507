import Highlighting.Number.Decimal
import Mathlib

/-!
# Rounding twice

A quotient that is first rounded to a binary64 number and then to hundredths has the hundredths of
the exact quotient, provided that these are not a tie: the binary number is so near to the quotient
that no tie lies between them. Away from ties, rounding is to the nearest integer.
-/

namespace Highlighting

/-! ## Nearest integers -/

theorem roundDiv_eq_of_near {num den q : Nat} (hlow : 2 * (den * q) < 2 * num + den)
    (hhigh : 2 * num < 2 * (den * q) + den) : roundDiv num den = q := by
  have hpos : 0 < den := by
    omega
  have hle := two_mul_roundDiv_le num den
  have hge := le_two_mul_roundDiv num hpos
  rcases Nat.lt_trichotomy (roundDiv num den) q with hlt | heq | hgt
  · have hmul := Nat.mul_le_mul_left den hlt
    rw [Nat.mul_succ] at hmul
    omega
  · exact heq
  · have hmul := Nat.mul_le_mul_left den hgt
    rw [Nat.mul_succ] at hmul
    omega

theorem near_roundDiv {num den : Nat} (hpos : 0 < den) (htie : 2 * (num % den) ≠ den) :
    2 * (den * roundDiv num den) < 2 * num + den ∧
      2 * num < 2 * (den * roundDiv num den) + den := by
  have hdiv := Nat.div_add_mod num den
  have hmod := Nat.mod_lt num hpos
  rcases roundDiv_cases num den with ⟨hround, hrest⟩ | ⟨hround, hrest⟩
  · rw [hround]
    omega
  · rw [hround, Nat.mul_succ]
    omega

theorem round_eq_roundDiv {num den : Nat} (hpos : 0 < den) (htie : 2 * (num % den) ≠ den) :
    round ((num : ℚ) / den) = roundDiv num den := by
  obtain ⟨hlow, hhigh⟩ := near_roundDiv hpos htie
  have hpos' : (0 : ℚ) < den := by
    exact_mod_cast hpos
  have hlow' : (2 * (den * roundDiv num den) : ℚ) < 2 * num + den := by
    exact_mod_cast hlow
  have hhigh' : (2 * num : ℚ) < 2 * (den * roundDiv num den) + den := by
    exact_mod_cast hhigh
  rw [round_eq, Int.floor_eq_iff]
  constructor
  · rw [← sub_le_iff_le_add, le_div_iff₀ hpos', Int.cast_natCast]
    linarith
  · rw [← lt_sub_iff_add_lt, div_lt_iff₀ hpos', Int.cast_natCast]
    linarith

/-! ## Two roundings -/

/-- Rounding to a fine grid first makes no difference, unless the quotient is a tie. -/
theorem roundDiv_roundDiv {num den factor scale : Nat} (hpos : 0 < den)
    (hscale : factor * den < scale) (htie : 2 * (factor * num % den) ≠ den) :
    roundDiv (factor * roundDiv (num * scale) den) scale = roundDiv (factor * num) den := by
  obtain ⟨hlow, hhigh⟩ := near_roundDiv hpos htie
  have hle := Nat.mul_le_mul_left factor (two_mul_roundDiv_le (num * scale) den)
  have hge := Nat.mul_le_mul_left factor (le_two_mul_roundDiv (num * scale) hpos)
  have hlow' := Nat.mul_le_mul_left scale (Nat.succ_le_of_lt hlow)
  have hhigh' := Nat.mul_le_mul_left scale (Nat.succ_le_of_lt hhigh)
  -- Both bounds are compared after multiplication by the denominator.
  apply roundDiv_eq_of_near
  · apply Nat.lt_of_mul_lt_mul_left (a := den)
    nlinarith
  · apply Nat.lt_of_mul_lt_mul_left (a := den)
    nlinarith

theorem roundDiv_mul_mul_left {factor : Nat} (hpos : 0 < factor) (num den : Nat) :
    roundDiv (factor * num) (factor * den) = roundDiv num den := by
  have hlt : ∀ a b : Nat, 2 * (factor * a) < factor * b ↔ 2 * a < b := by
    intro a b
    rw [Nat.mul_left_comm, Nat.mul_lt_mul_left hpos]
  have hgt : ∀ a b : Nat, factor * b < 2 * (factor * a) ↔ b < 2 * a := by
    intro a b
    rw [Nat.mul_left_comm 2, Nat.mul_lt_mul_left hpos]
  simp only [roundDiv, Nat.mul_div_mul_left _ _ hpos, Nat.mul_mod_mul_left, hlt, hgt]

/-! ## Numbers with two places -/

def hundredthsText (n : Nat) : List Char :=
  let fraction := Numeral.ofNat (n % 100)
  Numeral.ofNat (n / 100) ++ '.' :: (List.replicate (2 - fraction.length) '0' ++ fraction)

namespace Binary64

theorem scaledQuotient_neg (num den : Nat) {k : Nat} (hpos : 0 < k) :
    scaledQuotient num den (-(k : Int)) = roundDiv (num * 2 ^ k) den := by
  cases k with
  | zero =>
      exact absurd hpos (Nat.lt_irrefl 0)
  | succ k =>
      rfl

theorem ratio_neg (significand : Nat) {k : Nat} (hpos : 0 < k) :
    ratio significand (-(k : Int)) = (significand, 2 ^ k) := by
  cases k with
  | zero =>
      exact absurd hpos (Nat.lt_irrefl 0)
  | succ k =>
      rfl

theorem fixed_two_neg (significand : Nat) {k : Nat} (hpos : 0 < k) :
    (finite false significand (-(k : Int))).fixed 2 =
      hundredthsText (roundDiv (100 * significand) (2 ^ k)) := by
  have hunits : roundDiv ((ratio significand (-(k : Int))).1 * 100)
      (ratio significand (-(k : Int))).2 = roundDiv (100 * significand) (2 ^ k) := by
    rw [ratio_neg significand hpos, Nat.mul_comm]
  rw [← hunits]
  rfl

/-- A quotient up to one is rounded to a multiple of a power of two that is at most `2 ^ -52`. -/
theorem ofRatio_eq {num den : Nat} (hpos : num ≠ 0) (hle : num ≤ den) :
    ∃ k : Nat, 52 ≤ k ∧ ofRatio false num den =
      if roundDiv (num * 2 ^ k) den = 2 * hidden then .finite false hidden (-(k : Int) + 1)
      else .finite false (roundDiv (num * 2 ^ k) den) (-(k : Int)) := by
  have hlog : Nat.log2 num ≤ Nat.log2 den := by
    rw [Nat.log2_eq_log_two, Nat.log2_eq_log_two]
    exact Nat.log_mono_right hle
  have hmin : minExponent = -1074 := rfl
  have hmax : maxExponent = 971 := rfl
  unfold ofRatio
  rw [if_neg hpos]
  simp only
  generalize hguess : (Nat.log2 num : Int) - (Nat.log2 den : Int) = guess
  generalize hleading : (if quotientAtLeast num den guess then guess else guess - 1) = leading
  have hle : leading ≤ 0 := by
    split at hleading
    · omega
    · omega
  rcases Int.exists_eq_neg_ofNat (show max (leading - 52) minExponent ≤ 0 by omega) with ⟨k, hk⟩
  refine ⟨k, by omega, ?_⟩
  rw [hk, scaledQuotient_neg num den (by omega)]
  by_cases hcarry : roundDiv (num * 2 ^ k) den = 2 * hidden
  · rw [if_pos hcarry, if_pos hcarry, if_neg (by dsimp only; omega)]
  · rw [if_neg hcarry, if_neg hcarry, if_neg (by dsimp only; omega)]

/--
The text of a quotient up to one with two places shows the exact hundredths, unless these are a tie.
-/
theorem fixed_ofRatio {num den : Nat} (hle : num ≤ den) (hsmall : 100 * den < 2 ^ 52)
    (htie : 2 * (100 * num % den) ≠ den) :
    (ofRatio false num den).fixed 2 = hundredthsText (roundDiv (100 * num) den) := by
  by_cases hzero : num = 0
  · have hround : roundDiv (100 * num) den = 0 := by
      simp [hzero, roundDiv]
    have hvalue : ofRatio false num den = zero false := if_pos hzero
    rw [hround, hvalue]
    decide +kernel
  · rcases ofRatio_eq hzero hle with ⟨k, hk, hvalue⟩
    have hscale : 100 * den < 2 ^ k :=
      Nat.lt_of_lt_of_le hsmall (Nat.pow_le_pow_right (by decide) hk)
    rw [hvalue, ← roundDiv_roundDiv (by omega) hscale htie]
    split
    · rename_i hcarry
      -- The carried significand is half as large and counts units of twice the size.
      have hexponent : -(k : Int) + 1 = -((k - 1 : Nat) : Int) := by
        omega
      have hpow : 2 ^ k = 2 * 2 ^ (k - 1) := by
        rw [← pow_succ', Nat.sub_add_cancel (by omega)]
      rw [hexponent, fixed_two_neg _ (by omega), hcarry, hpow, Nat.mul_left_comm,
        roundDiv_mul_mul_left (by decide)]
    · exact fixed_two_neg _ (by omega)

end Binary64
end Highlighting
