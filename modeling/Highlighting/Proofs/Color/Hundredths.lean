import Highlighting.Proofs.Color.Decimals
import Highlighting.Proofs.Data.Lines
import Highlighting.Proofs.Number.Numeral
import Highlighting.Proofs.Number.Rounding

/-!
# Hundredths of colors

The decimal text of a color shows each channel in hundredths of the full scale, rounded to the
nearest integer. No channel is a tie, so that the text is the same for two colors exactly if their
hundredths are.
-/

namespace Highlighting

/-! ## Texts of hundredths -/

theorem hundredthsText_injective : Function.Injective hundredthsText := by
  have hread : ∀ n < 100, Numeral.toNat
      (List.replicate (2 - (Numeral.ofNat n).length) '0' ++ Numeral.ofNat n) = n := by
    decide
  intro m n h
  rcases append_mark_inj (Numeral.not_mem_ofNat (by decide) _)
    (Numeral.not_mem_ofNat (by decide) _) h with ⟨hwhole, hfraction⟩
  have hfraction' := congrArg Numeral.toNat hfraction
  rw [hread _ (Nat.mod_lt m (by decide)), hread _ (Nat.mod_lt n (by decide))] at hfraction'
  rw [← Nat.div_add_mod m 100, Numeral.ofNat_injective hwhole, hfraction', Nat.div_add_mod]

/-! ## Channels -/

namespace Channel

def hundredths (c : Channel) : ℤ :=
  round (100 * (c.val : ℚ) / 255)

theorem not_tie (c : Channel) : 2 * (100 * c.val % 255) ≠ 255 := by
  omega

/-- Hundredths of a channel never lie halfway between two integers. -/
theorem scaled_ne_half (c : Channel) (n : ℤ) : 100 * (c.val : ℚ) / 255 ≠ n + 1 / 2 := by
  intro h
  have hscaled : (200 * c.val : ℚ) = 255 * (2 * n + 1) := by
    linarith
  have hint : (200 * c.val : ℤ) = 255 * (2 * n + 1) := by
    exact_mod_cast hscaled
  omega

theorem hundredths_eq_roundDiv (c : Channel) : c.hundredths = roundDiv (100 * c.val) 255 := by
  have hround := round_eq_roundDiv (by decide) c.not_tie
  rw [hundredths, ← hround]
  push_cast
  rfl

theorem fixed_normalized (c : Channel) :
    c.normalized.fixed 2 = hundredthsText (roundDiv (100 * c.val) 255) :=
  Binary64.fixed_ofRatio (Nat.le_of_lt_succ c.isLt) (by decide) c.not_tie

/-- The quotient 112 / 255 is about 0.4392. -/
example : (Channel.normalized 0x70).fixed 2 = "0.44".toList := by
  decide +kernel

theorem fixed_normalized_eq_iff (c d : Channel) :
    c.normalized.fixed 2 = d.normalized.fixed 2 ↔ c.hundredths = d.hundredths := by
  rw [fixed_normalized, fixed_normalized, hundredthsText_injective.eq_iff, hundredths_eq_roundDiv,
    hundredths_eq_roundDiv, Int.natCast_inj]

theorem comma_not_mem_fixed (c : Channel) : ',' ∉ c.normalized.fixed 2 := by
  intro h
  exact absurd (Binary64.mem_fixed h) (by decide)

end Channel

/-! ## Colors -/

namespace Color

def hundredths (color : Color) : ℤ × ℤ × ℤ :=
  (color.red.hundredths, color.green.hundredths, color.blue.hundredths)

theorem rgbChars_eq_iff (c d : Color) : c.rgbChars = d.rgbChars ↔ c.hundredths = d.hundredths := by
  simp only [hundredths, Prod.mk.injEq, ← Channel.fixed_normalized_eq_iff]
  constructor
  · intro h
    rcases append_mark_inj c.red.comma_not_mem_fixed d.red.comma_not_mem_fixed h with ⟨hred, hrest⟩
    rcases append_mark_inj c.green.comma_not_mem_fixed d.green.comma_not_mem_fixed hrest with
      ⟨hgreen, hblue⟩
    exact ⟨hred, hgreen, hblue⟩
  · intro h
    rcases h with ⟨hred, hgreen, hblue⟩
    rw [rgbChars_eq, rgbChars_eq, hred, hgreen, hblue]

/-- No channel is a tie, so the two places are those of the exact quotient. -/
theorem toList_toRgb (color : Color) :
    color.toRgb.toList = hundredthsText (roundDiv (100 * color.red.val) 255) ++
      ',' :: (hundredthsText (roundDiv (100 * color.green.val) 255) ++
        ',' :: hundredthsText (roundDiv (100 * color.blue.val) 255)) := by
  rw [toRgb, String.toList_ofList, rgbChars_eq, Channel.fixed_normalized, Channel.fixed_normalized,
    Channel.fixed_normalized]

end Color
end Highlighting
