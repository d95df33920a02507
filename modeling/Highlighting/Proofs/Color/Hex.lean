import Highlighting.Color.Basic

/-!
# Hexadecimal colors

Every color is read back from its hexadecimal text. The other texts of a color are those that differ
from it in the case of their digits or leave the mark out.
-/

namespace Highlighting

/-! ## Digits in either case -/

namespace Numeral

theorem hexDigit?_lower_ascii : ∀ m < 128,
    hexDigit? (Char.ofNat m).toLower = hexDigit? (Char.ofNat m) := by
  decide +kernel

theorem digitChar_ascii : ∀ m < 128, ∀ n ∈ hexDigit? (Char.ofNat m),
    n < 16 ∧ Nat.digitChar n = (Char.ofNat m).toLower := by
  decide +kernel

theorem toLower_of_ge {c : Char} (h : 128 ≤ c.toNat) : c.toLower = c := by
  have hupper : ¬ (c.val ≥ 'A'.val ∧ c.val ≤ 'Z'.val) := by
    intro h
    rcases h with ⟨-, hle⟩
    have hnat : c.toNat ≤ 'Z'.toNat := hle
    have hz : 'Z'.toNat = 90 := rfl
    omega
  exact dif_neg hupper

theorem hexDigit?_of_ge {c : Char} (h : 128 ≤ c.toNat) : hexDigit? c = none := by
  have hgt : ∀ d : Char, d.toNat < 128 → ¬ c ≤ d := by
    intro d hd hle
    have hnat : c.toNat ≤ d.toNat := hle
    omega
  unfold hexDigit?
  rw [if_neg (fun hc => hgt '9' (by decide) hc.2), if_neg (fun hc => hgt 'f' (by decide) hc.2),
    if_neg (fun hc => hgt 'F' (by decide) hc.2)]

/-- A character is a digit when its lower case is how the digit is written. -/
theorem hexDigit?_eq_some_iff (c : Char) (n : Nat) :
    hexDigit? c = some n ↔ n < 16 ∧ Nat.digitChar n = c.toLower := by
  by_cases hc : c.toNat < 128
  · have hascii : Char.ofNat c.toNat = c := Char.ofNat_toNat c
    have hlower := hexDigit?_lower_ascii c.toNat hc
    have hdigit := digitChar_ascii c.toNat hc
    rw [hascii] at hlower hdigit
    constructor
    · exact hdigit n
    · intro h
      rcases h with ⟨hn, hchar⟩
      rw [← hlower, ← hchar, hexDigit?_digitChar n hn]
  · have hge : 128 ≤ c.toNat := Nat.le_of_not_lt hc
    rw [hexDigit?_of_ge hge, toLower_of_ge hge]
    constructor
    · intro h
      cases h
    · intro h
      rcases h with ⟨hn, hchar⟩
      rw [← hexDigit?_digitChar n hn, hchar, hexDigit?_of_ge hge]

theorem toLower_digitChar {n : Nat} (h : n < 16) :
    (Nat.digitChar n).toLower = Nat.digitChar n :=
  ((hexDigit?_eq_some_iff _ n).mp (hexDigit?_digitChar n h)).2.symm

end Numeral
/-! ## Channels -/

theorem Channel.hex_eq (c : Channel) :
    c.hex = [Nat.digitChar (c.val / 16 % 16), Nat.digitChar (c.val % 16)] :=
  rfl

theorem Channel.ofHex?_eq_some_iff (high low : Char) (c : Channel) :
    Channel.ofHex? high low = some c ↔ [high.toLower, low.toLower] = c.hex := by
  have hc : c.val < 256 := c.isLt
  have hhigh : c.val / 16 % 16 < 16 := Nat.mod_lt _ (by decide)
  have hlow : c.val % 16 < 16 := Nat.mod_lt _ (by decide)
  constructor
  · intro h
    unfold Channel.ofHex? at h
    split at h
    · rename_i m n hm hn
      obtain ⟨hm, hhigh⟩ := (Numeral.hexDigit?_eq_some_iff high m).mp hm
      obtain ⟨hn, hlow⟩ := (Numeral.hexDigit?_eq_some_iff low n).mp hn
      have hval : (16 * m + n) % 256 = c.val := congrArg Fin.val (Option.some.inj h)
      have hm' : c.val / 16 % 16 = m := by omega
      have hn' : c.val % 16 = n := by omega
      rw [Channel.hex_eq, hm', hn', hhigh, hlow]
    · cases h
  · intro h
    rw [Channel.hex_eq, List.cons.injEq, List.cons.injEq] at h
    have hm := (Numeral.hexDigit?_eq_some_iff high _).mpr ⟨hhigh, h.1.symm⟩
    have hn := (Numeral.hexDigit?_eq_some_iff low _).mpr ⟨hlow, h.2.1.symm⟩
    unfold Channel.ofHex?
    rw [hm, hn]
    apply congrArg some
    apply Fin.ext
    change (16 * (c.val / 16 % 16) + c.val % 16) % 256 = c.val
    omega

/-! ## Colors -/

namespace Color

def digits (color : Color) : List Char :=
  color.red.hex ++ color.green.hex ++ color.blue.hex

/-- A text that is `#rrggbb` or `rrggbb` of a color, with digits of either case. -/
def Spells (text : String) (color : Color) : Prop :=
  ∃ written : List Char, (text.toList = '#' :: written ∨ text.toList = written) ∧
    written.map Char.toLower = color.digits

theorem ofDigits?_eq_some_iff (cs : List Char) (color : Color) :
    ofDigits? cs = some color ↔ cs.map Char.toLower = color.digits := by
  constructor
  · intro h
    unfold ofDigits? at h
    split at h
    · split at h
      · rename_i r g b hr hg hb
        obtain rfl := Option.some.inj h
        rw [Channel.ofHex?_eq_some_iff] at hr hg hb
        simp only [digits, ← hr, ← hg, ← hb]
        rfl
      · cases h
    · cases h
  · intro h
    have hlength : cs.length = 6 := by
      rw [← List.length_map (f := Char.toLower), h]
      rfl
    match cs, hlength with
    | [r₁, r₂, g₁, g₂, b₁, b₂], _ =>
        have hr : [r₁.toLower, r₂.toLower] = color.red.hex := congrArg (List.take 2) h
        have hg : [g₁.toLower, g₂.toLower] = color.green.hex :=
          congrArg (fun written => (written.drop 2).take 2) h
        have hb : [b₁.toLower, b₂.toLower] = color.blue.hex := congrArg (List.drop 4) h
        rw [← Channel.ofHex?_eq_some_iff] at hr hg hb
        simp only [ofDigits?, hr, hg, hb]

theorem dropMark_of_digits {written : List Char} {color : Color}
    (h : written.map Char.toLower = color.digits) : dropMark written = written := by
  unfold dropMark
  split
  · have hhead : '#' = Nat.digitChar (color.red.val / 16 % 16) := List.head_eq_of_cons_eq h
    have hdigit := Numeral.hexDigit?_digitChar _ (Nat.mod_lt (color.red.val / 16) (by decide))
    rw [← hhead] at hdigit
    cases hdigit
  · rfl

theorem ofHex?_eq_some_iff (text : String) (color : Color) :
    ofHex? text = some color ↔ Spells text color := by
  rw [ofHex?, ofDigits?_eq_some_iff]
  constructor
  · intro h
    refine ⟨dropMark text.toList, ?_, h⟩
    unfold dropMark
    split
    · rename_i rest htext
      exact Or.inl htext
    · exact Or.inr rfl
  · intro h
    rcases h with ⟨written, htext | htext, h⟩
    · rw [htext]
      exact h
    · rw [htext, dropMark_of_digits h]
      exact h

theorem map_toLower_digits (color : Color) : color.digits.map Char.toLower = color.digits := by
  have hdigit : ∀ n, (Nat.digitChar (n % 16)).toLower = Nat.digitChar (n % 16) :=
    fun n => Numeral.toLower_digitChar (Nat.mod_lt n (by decide))
  simp only [digits, Channel.hex_eq, List.map_append, List.map_cons, List.map_nil, hdigit]

theorem spells_toHex (color : Color) : Spells color.toHex color :=
  ⟨color.digits, Or.inl String.toList_ofList, map_toLower_digits color⟩

theorem parse?_toHex (color : Color) : parse? (.text color.toHex) = some color :=
  (ofHex?_eq_some_iff _ _).mpr (spells_toHex color)

theorem not_mem_hexChars {c : Char} (hmark : c ≠ '#') (hdigit : ∀ n < 16, c ≠ Nat.digitChar n)
    (color : Color) : c ∉ color.hexChars := by
  have hchannel : ∀ channel : Channel, c ∉ channel.hex := by
    intro channel
    have hhigh := hdigit (channel.val / 16 % 16) (Nat.mod_lt _ (by decide))
    have hlow := hdigit (channel.val % 16) (Nat.mod_lt _ (by decide))
    simp [Channel.hex_eq, hhigh, hlow]
  simp [hexChars, hmark, hchannel]

end Color
end Highlighting
