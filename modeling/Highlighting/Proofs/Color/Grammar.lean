import Highlighting.Proofs.Color.Hex

/-!
# Texts that are colors

A text denotes a color when it is six hexadecimal digits of either case behind at most one mark, and
then the color whose text has the same digits in lower case. Every other text is refused as a whole.
The digits are looked at before any number is read and before any channel is checked, so that
neither the reader of the numbers nor the check of the channels ever refuses a text.
-/

namespace Highlighting

/-! ## Digits -/

namespace Numeral

def hexDigits : List Char :=
  "0123456789abcdefABCDEF".toList

theorem isSome_hexDigit?_ascii : ∀ m < 128,
    (hexDigit? (Char.ofNat m)).isSome = decide (Char.ofNat m ∈ hexDigits) := by
  decide +kernel

theorem forall_mem_iff_all {α : Type} (p : α → Prop) [DecidablePred p] (xs : List α) :
    (∀ x ∈ xs, p x) ↔ xs.all (fun x => decide (p x)) = true := by
  simp only [List.all_eq_true, decide_eq_true_iff]

theorem toNat_lt_of_mem_hexDigits : ∀ c ∈ hexDigits, c.toNat < 128 := by
  rw [forall_mem_iff_all]
  decide

theorem isSome_hexDigit?_iff (c : Char) : (hexDigit? c).isSome = true ↔ c ∈ hexDigits := by
  by_cases hc : c.toNat < 128
  · have hascii := isSome_hexDigit?_ascii c.toNat hc
    rw [Char.ofNat_toNat] at hascii
    rw [hascii, decide_eq_true_iff]
  · rw [hexDigit?_of_ge (Nat.le_of_not_lt hc)]
    constructor
    · intro h
      cases h
    · intro h
      exact absurd (toNat_lt_of_mem_hexDigits c h) hc

/--
A reader of numbers in base sixteen that reads two digits by their places. It may read other texts
as well, such as those with a sign, with blanks or with digits of other scripts.
-/
def ReadsPairs (read : List Char → Option Int) : Prop :=
  ∀ high low m n, hexDigit? high = some m → hexDigit? low = some n →
    read [high, low] = some (16 * (m : Int) + n)

def hexNumber? (digits : List Char) : Option Int :=
  digits.foldlM (fun n c => (hexDigit? c).map fun d => 16 * n + (d : Int)) 0

def signedHex? : List Char → Option Int
  | '-' :: digits => (hexNumber? digits).map fun n => -n
  | '+' :: digits => hexNumber? digits
  | digits => hexNumber? digits

theorem readsPairs_signedHex : ReadsPairs signedHex? := by
  intro high low m n hhigh hlow
  have hnumber : hexNumber? [high, low] = some (16 * (m : Int) + n) := by
    simp [hexNumber?, hhigh, hlow]
  have hminus : hexDigit? '-' = none := rfl
  have hplus : hexDigit? '+' = none := rfl
  unfold signedHex?
  split
  · rename_i heq
    rw [(List.cons.inj heq).1, hminus] at hhigh
    cases hhigh
  · rename_i heq
    rw [(List.cons.inj heq).1, hplus] at hhigh
    cases hhigh
  · exact hnumber

end Numeral

/-! ## Channels -/

theorem Channel.ofValue_hexDigits {high low : Char} {m n : Nat}
    (hhigh : Numeral.hexDigit? high = some m) (hlow : Numeral.hexDigit? low = some n)
    (name : ChannelName) :
    ∃ c, Channel.ofHex? high low = some c ∧
      Channel.ofValue name (.int (16 * (m : Int) + n)) = .ok c := by
  have hm := ((Numeral.hexDigit?_eq_some_iff high m).mp hhigh).1
  have hn := ((Numeral.hexDigit?_eq_some_iff low n).mp hlow).1
  refine ⟨Fin.ofNat 256 (16 * m + n), ?_, ?_⟩
  · unfold Channel.ofHex?
    rw [hhigh, hlow]
  · have hrange : 0 ≤ 16 * (m : Int) + n ∧ 16 * (m : Int) + n < 256 := by omega
    rw [Channel.ofValue, dif_pos hrange]
    apply congrArg Except.ok
    apply Fin.ext
    change (16 * (m : Int) + n).toNat = (16 * m + n) % 256
    omega

namespace Color

/-! ## Texts of six digits -/

structure HasDigits (text : String) (digits : List Char) : Prop where
  marked : text.toList = '#' :: digits ∨ text.toList = digits
  length : digits.length = 6
  hex : ∀ c ∈ digits, c ∈ Numeral.hexDigits

theorem mark_not_mem_hexDigits : '#' ∉ Numeral.hexDigits := by
  decide

theorem hasDigits_iff (text : String) (digits : List Char) :
    HasDigits text digits ↔ dropMark text.toList = digits ∧ digits.length = 6 ∧
      ∀ c ∈ digits, c ∈ Numeral.hexDigits := by
  constructor
  · intro h
    refine ⟨?_, h.length, h.hex⟩
    rcases h.marked with htext | htext
    · rw [htext]
      rfl
    · rw [htext]
      unfold dropMark
      split
      · exact absurd (h.hex '#' List.mem_cons_self) mark_not_mem_hexDigits
      · rfl
  · intro h
    rcases h with ⟨hdrop, hlength, hhex⟩
    refine ⟨?_, hlength, hhex⟩
    unfold dropMark at hdrop
    split at hdrop
    · rename_i rest htext
      rw [hdrop] at htext
      exact Or.inl htext
    · exact Or.inr hdrop

theorem exists_six {digits : List Char} (h : digits.length = 6) :
    ∃ r₁ r₂ g₁ g₂ b₁ b₂, digits = [r₁, r₂, g₁, g₂, b₁, b₂] := by
  match digits, h with
  | [r₁, r₂, g₁, g₂, b₁, b₂], _ =>
      exact ⟨r₁, r₂, g₁, g₂, b₁, b₂, rfl⟩

theorem exists_color_of_six {r₁ r₂ g₁ g₂ b₁ b₂ : Char}
    (hhex : ∀ c ∈ [r₁, r₂, g₁, g₂, b₁, b₂], c ∈ Numeral.hexDigits) {read : List Char → Option Int}
    (hread : Numeral.ReadsPairs read) :
    ∃ (red green blue : Int) (color : Color),
      read [r₁, r₂] = some red ∧ read [g₁, g₂] = some green ∧ read [b₁, b₂] = some blue ∧
      ofValues (.int red) (.int green) (.int blue) = .ok color ∧
      ofDigits? [r₁, r₂, g₁, g₂, b₁, b₂] = some color := by
  have hvalue : ∀ c ∈ [r₁, r₂, g₁, g₂, b₁, b₂], ∃ n, Numeral.hexDigit? c = some n := by
    intro c hc
    exact Option.isSome_iff_exists.mp ((Numeral.isSome_hexDigit?_iff c).mpr (hhex c hc))
  have hpair : ∀ name high low, high ∈ [r₁, r₂, g₁, g₂, b₁, b₂] →
      low ∈ [r₁, r₂, g₁, g₂, b₁, b₂] → ∃ i c, read [high, low] = some i ∧
        Channel.ofHex? high low = some c ∧ Channel.ofValue name (.int i) = .ok c := by
    intro name high low hhigh hlow
    rcases hvalue high hhigh with ⟨m, hm⟩
    rcases hvalue low hlow with ⟨n, hn⟩
    rcases Channel.ofValue_hexDigits hm hn name with ⟨c, hc, hchecked⟩
    exact ⟨_, c, hread high low m n hm hn, hc, hchecked⟩
  rcases hpair .red r₁ r₂ (by simp) (by simp) with ⟨red, r, hred, hr, hredChecked⟩
  rcases hpair .green g₁ g₂ (by simp) (by simp) with ⟨green, g, hgreen, hg, hgreenChecked⟩
  rcases hpair .blue b₁ b₂ (by simp) (by simp) with ⟨blue, b, hblue, hb, hblueChecked⟩
  refine ⟨red, green, blue, ⟨r, g, b⟩, hred, hgreen, hblue, ?_, ?_⟩
  · rw [ofValues, hredChecked, hgreenChecked, hblueChecked]
    rfl
  · simp only [ofDigits?, hr, hg, hb]

theorem exists_ofHex?_of_hasDigits {text : String} {digits : List Char}
    (h : HasDigits text digits) : ∃ color, ofHex? text = some color := by
  rcases (hasDigits_iff text digits).mp h with ⟨hdrop, hlength, hhex⟩
  rcases exists_six hlength with ⟨r₁, r₂, g₁, g₂, b₁, b₂, rfl⟩
  rcases exists_color_of_six hhex Numeral.readsPairs_signedHex with
    ⟨_, _, _, color, _, _, _, _, hcolor⟩
  exact ⟨color, by rw [ofHex?, hdrop, hcolor]⟩

theorem mem_hexDigits_of_toLower {c : Char} {n : Nat} (hn : n < 16)
    (h : c.toLower = Nat.digitChar n) : c ∈ Numeral.hexDigits := by
  rw [← Numeral.isSome_hexDigit?_iff, (Numeral.hexDigit?_eq_some_iff c n).mpr ⟨hn, h.symm⟩]
  rfl

theorem exists_digit_of_mem_digits {color : Color} {c : Char} (h : c ∈ color.digits) :
    ∃ n < 16, c = Nat.digitChar n := by
  have hdigit : ∀ n : Nat, ∃ m < 16, Nat.digitChar (n % 16) = Nat.digitChar m :=
    fun n => ⟨n % 16, Nat.mod_lt n (by decide), rfl⟩
  simp only [digits, Channel.hex_eq, List.mem_append, List.mem_cons, List.not_mem_nil,
    or_false] at h
  rcases h with ((rfl | rfl) | (rfl | rfl)) | (rfl | rfl)
  all_goals
    exact hdigit _

theorem spells_iff_hasDigits (text : String) (color : Color) :
    Spells text color ↔
      ∃ digits, HasDigits text digits ∧ color.toHex.toList = '#' :: digits.map Char.toLower := by
  have hhex : color.toHex.toList = '#' :: color.digits := String.toList_ofList
  rw [hhex]
  constructor
  · intro h
    rcases h with ⟨written, hmarked, hlower⟩
    refine ⟨written, ⟨hmarked, ?_, ?_⟩, by rw [hlower]⟩
    · rw [← List.length_map (f := Char.toLower), hlower]
      rfl
    · intro c hc
      have hmem : c.toLower ∈ color.digits := by
        rw [← hlower]
        exact List.mem_map_of_mem hc
      rcases exists_digit_of_mem_digits hmem with ⟨n, hn, hdigit⟩
      exact mem_hexDigits_of_toLower hn hdigit
  · intro h
    rcases h with ⟨written, hdigits, hlower⟩
    exact ⟨written, hdigits.marked, (List.cons.inj hlower).2.symm⟩

theorem ofHex?_eq_none_of_not {text : String} (h : ¬ ∃ digits, HasDigits text digits) :
    ofHex? text = none := by
  cases hread : ofHex? text with
  | none =>
      rfl
  | some color =>
      rcases (spells_iff_hasDigits text color).mp ((ofHex?_eq_some_iff text color).mp hread) with
        ⟨digits, hdigits, _⟩
      exact absurd ⟨digits, hdigits⟩ h

/-! ## Reading in steps -/

inductive HexFault where
  | color (e : ColorError)
  | number (digits : List Char)

def numberOf (read : List Char → Option Int) (digits : List Char) : Except HexFault Int :=
  match read digits with
  | some n => .ok n
  | none => .error (.number digits)

/--
Takes the mark off and looks at the digits; then reads three numbers, and makes a color of them
whose channels are checked.
-/
def ofHexInSteps (read : List Char → Option Int) (text : String) : Except HexFault Color :=
  let digits := dropMark text.toList
  if digits.length = 6 ∧ digits.all fun c => decide (c ∈ Numeral.hexDigits) then do
    let red ← numberOf read (digits.take 2)
    let green ← numberOf read ((digits.drop 2).take 2)
    let blue ← numberOf read ((digits.drop 4).take 2)
    (ofValues (.int red) (.int green) (.int blue)).mapError .color
  else .error (.color (.invalidHex text))

/-- Behind the check of the digits nothing is refused any more. -/
theorem ofHexInSteps_eq {read : List Char → Option Int} (hread : Numeral.ReadsPairs read)
    (text : String) : ofHexInSteps read text = (ofHex text).mapError .color := by
  by_cases h : ∃ digits, HasDigits text digits
  · rcases h with ⟨digits, hdigits⟩
    rcases (hasDigits_iff text digits).mp hdigits with ⟨hdrop, hlength, hhex⟩
    rcases exists_six hlength with ⟨r₁, r₂, g₁, g₂, b₁, b₂, rfl⟩
    rcases exists_color_of_six hhex hread with
      ⟨red, green, blue, color, hred, hgreen, hblue, hchecked, hcolor⟩
    have hsteps : ofHexInSteps read text = .ok color := by
      simp only [ofHexInSteps, hdrop]
      rw [if_pos ⟨hlength, (Numeral.forall_mem_iff_all _ _).mp hhex⟩]
      simp only [numberOf, List.take, List.drop, hred, hgreen, hblue]
      change (ofValues (.int red) (.int green) (.int blue)).mapError HexFault.color = .ok color
      rw [hchecked]
      rfl
    rw [hsteps, ofHex, ofHex?, hdrop, hcolor]
    rfl
  · have hshape : ¬ ((dropMark text.toList).length = 6 ∧
        ∀ c ∈ dropMark text.toList, c ∈ Numeral.hexDigits) := by
      intro hdigits
      exact h ⟨_, (hasDigits_iff text _).mpr ⟨rfl, hdigits⟩⟩
    rw [Numeral.forall_mem_iff_all] at hshape
    simp only [ofHexInSteps]
    rw [if_neg hshape, ofHex, ofHex?_eq_none_of_not h]
    rfl

/--
A text denotes a color exactly if it is six hexadecimal digits behind at most one mark whose lower
case is the text of the color without its mark. Every such text denotes a color; every other one is
refused by a complaint that quotes it. The text of a color denotes that color. Reading in steps
comes to the same, whatever else the reader of the numbers reads, so that only the look at the
digits ever refuses a text.
-/
theorem ofHex_grammar :
    (∀ (text : String) (color : Color), parse? (.text text) = some color ↔
      ∃ digits, HasDigits text digits ∧ color.toHex.toList = '#' :: digits.map Char.toLower) ∧
    (∀ text digits, HasDigits text digits →
      ∃ color, ofHex text = .ok color ∧ parse? (.text text) = some color) ∧
    (∀ text, (¬ ∃ digits, HasDigits text digits) →
      ofHex text = .error (.invalidHex text) ∧ parse? (.text text) = none) ∧
    (∀ text, (ColorError.invalidHex text).message = "Invalid hex color: " ++ quoted text) ∧
    (∀ color : Color, ofHex color.toHex = .ok color) ∧
    ∀ read, Numeral.ReadsPairs read → ∀ text,
      ofHexInSteps read text = (ofHex text).mapError .color ∧
        ∀ e, ofHexInSteps read text = .error e → e = .color (.invalidHex text) := by
  have hok : ∀ {text : String} {color : Color}, ofHex? text = some color →
      ofHex text = .ok color := by
    intro text color h
    rw [ofHex, h]
  refine ⟨?_, ?_, ?_, fun _ => rfl, ?_, ?_⟩
  · intro text color
    exact (ofHex?_eq_some_iff text color).trans (spells_iff_hasDigits text color)
  · intro text digits h
    rcases exists_ofHex?_of_hasDigits h with ⟨color, hcolor⟩
    exact ⟨color, hok hcolor, hcolor⟩
  · intro text h
    have hnone := ofHex?_eq_none_of_not h
    exact ⟨by rw [ofHex, hnone], hnone⟩
  · intro color
    exact hok (parse?_toHex color)
  · intro read hread text
    refine ⟨ofHexInSteps_eq hread text, ?_⟩
    intro e h
    rw [ofHexInSteps_eq hread, ofHex] at h
    cases hcolor : ofHex? text with
    | some color =>
        rw [hcolor] at h
        cases h
    | none =>
        rw [hcolor] at h
        exact (Except.error.inj h).symm

/-- The look at the digits refuses signs, although the reader of the numbers would take them. -/
theorem ofHex_grammar_signs :
    Numeral.ReadsPairs Numeral.signedHex? ∧ Numeral.signedHex? ['+', 'f'] = some 15 ∧
      ofHexInSteps Numeral.signedHex? "+f+f+f" = .error (.color (.invalidHex "+f+f+f")) ∧
      HasDigits "#40A070" "40A070".toList ∧ ∃ color, ofHex "#40A070" = .ok color := by
  have hgrammar := ofHex_grammar
  have hsigns : ¬ ∃ digits, HasDigits "+f+f+f" digits := by
    intro h
    rcases h with ⟨digits, h⟩
    have hmem := h.hex '+'
    rcases (hasDigits_iff _ _).mp h with ⟨rfl, _, _⟩
    exact absurd (hmem (by decide)) (by decide)
  have hmixed : HasDigits "#40A070" "40A070".toList :=
    ⟨Or.inl rfl, rfl, by rw [Numeral.forall_mem_iff_all]; decide⟩
  rcases hgrammar.2.1 _ _ hmixed with ⟨color, hcolor, _⟩
  refine ⟨Numeral.readsPairs_signedHex, rfl, ?_, hmixed, color, hcolor⟩
  rw [(hgrammar.2.2.2.2.2 _ Numeral.readsPairs_signedHex _).1, (hgrammar.2.2.1 _ hsigns).1]
  rfl

end Color
end Highlighting
