import Mathlib

/-!
# Lower case

The lower-case form of a text is put together from the forms of its characters. The form of a
character may depend on what stands around it, and it may be longer than one character. Laid down
is only which characters have a form of ASCII letters alone. This settles which texts have a given
word of small ASCII letters as their lower-case form: those that spell it letter by letter.
-/

namespace Highlighting

def kelvinSign : Char :=
  '\u212a'

/--
Lower-case forms of characters in their places. The ASCII letters and the Kelvin sign have a small
ASCII letter as their form. The form of every other character holds something besides ASCII letters:
it is a single character that is none, or that of the dotted capital I, which keeps its dot.
-/
structure LowerCase where
  /-- Form of a character between what stands in front of it and what stands behind it. -/
  form : List Char → Char → List Char → List Char
  form_letter : ∀ {c : Char}, c.isAlpha = true → ∀ before after, form before c after = [c.toLower]
  form_kelvinSign : ∀ before after, form before kelvinSign after = ['k']
  form_other : ∀ {c : Char}, c.isAlpha = false → c ≠ kelvinSign → ∀ before after,
    ∃ d ∈ form before c after, d.isAlpha = false

/-- A character that may stand for a small letter: the letter in either case, or a Kelvin sign. -/
def CaseVariant (c letter : Char) : Prop :=
  c = letter ∨ c = letter.toUpper ∨ c = kelvinSign ∧ letter = 'k'

theorem isAlpha_of_isLower {c : Char} (h : c.isLower = true) : c.isAlpha = true := by
  rw [Char.isAlpha, h, Bool.or_true]

theorem ne_of_isAlpha {c d : Char} (hc : c.isAlpha = true) (hd : d.isAlpha = false) : c ≠ d := by
  intro heq
  rw [heq, hd] at hc
  cases hc

theorem toLower_of_isLower {c : Char} (h : c.isLower = true) : c.toLower = c :=
  Char.toLower_eq_of_not_isUpper (Char.not_isUpper_of_isLower h)

theorem toLower_eq_iff {c letter : Char} (h : letter.isLower = true) :
    c.toLower = letter ↔ c = letter ∨ c = letter.toUpper := by
  constructor
  · intro hlower
    by_cases hupper : c.isUpper = true
    · have hself : c.toUpper = c :=
        Char.toUpper_eq_of_not_isLower (Char.not_isLower_of_isUpper hupper)
      rw [← hlower, Char.toUpper_toLower_eq_toUpper, hself]
      exact Or.inr rfl
    · rw [Char.toLower_eq_of_not_isUpper hupper] at hlower
      exact Or.inl hlower
  · intro hvariant
    rcases hvariant with rfl | rfl
    · exact toLower_of_isLower h
    · rw [Char.toLower_toUpper_eq_toLower, toLower_of_isLower h]

theorem caseVariant_iff {c letter : Char} (h : letter.isLower = true) :
    CaseVariant c letter ↔ c.toLower = letter ∨ c = kelvinSign ∧ letter = 'k' := by
  rw [toLower_eq_iff h, or_assoc]
  rfl

theorem isAlpha_of_toLower {c letter : Char} (h : letter.isLower = true)
    (hlower : c.toLower = letter) : c.isAlpha = true := by
  rw [← Char.isLower_toLower_eq_isAlpha, hlower, h]

namespace LowerCase

variable (lower : LowerCase)

def charsBehind (before : List Char) : List Char → List Char
  | [] => []
  | c :: after => lower.form before c after ++ charsBehind (before ++ [c]) after

def text (text : String) : String :=
  String.ofList (lower.charsBehind [] text.toList)

/-! ## Texts with a given lower-case form -/

theorem isAlpha_or_eq_of_form {c : Char} {before after : List Char}
    (h : ∀ d ∈ lower.form before c after, d.isAlpha = true) :
    c.isAlpha = true ∨ c = kelvinSign := by
  by_cases halpha : c.isAlpha = true
  · exact Or.inl halpha
  by_cases hkelvin : c = kelvinSign
  · exact Or.inr hkelvin
  · rcases lower.form_other (Bool.eq_false_of_not_eq_true halpha) hkelvin before after with
      ⟨d, hd, hother⟩
    rw [h d hd] at hother
    cases hother

theorem exists_form_eq_singleton {c : Char} {before after : List Char}
    (h : ∀ d ∈ lower.form before c after, d.isAlpha = true) :
    ∃ letter, lower.form before c after = [letter] := by
  rcases lower.isAlpha_or_eq_of_form h with halpha | hkelvin
  · exact ⟨c.toLower, lower.form_letter halpha before after⟩
  · rw [hkelvin]
    exact ⟨'k', lower.form_kelvinSign before after⟩

/-- Which characters have a small letter as their form does not depend on where they stand. -/
theorem form_eq_singleton_iff {letter : Char} (h : letter.isLower = true) (before : List Char)
    (c : Char) (after : List Char) :
    lower.form before c after = [letter] ↔ CaseVariant c letter := by
  rw [caseVariant_iff h]
  constructor
  · intro hform
    have hletters : ∀ d ∈ lower.form before c after, d.isAlpha = true := by
      rw [hform]
      intro d hd
      rw [List.mem_singleton.mp hd]
      exact isAlpha_of_isLower h
    rcases lower.isAlpha_or_eq_of_form hletters with halpha | hkelvin
    · rw [lower.form_letter halpha, List.singleton_inj] at hform
      exact Or.inl hform
    · rw [hkelvin, lower.form_kelvinSign, List.singleton_inj] at hform
      exact Or.inr ⟨hkelvin, hform.symm⟩
  · intro hvariant
    rcases hvariant with hlower | ⟨hkelvin, hk⟩
    · rw [lower.form_letter (isAlpha_of_toLower h hlower), hlower]
    · rw [hkelvin, hk, lower.form_kelvinSign]

theorem charsBehind_eq_iff {word : List Char} (hword : ∀ letter ∈ word, letter.isLower = true)
    (before cs : List Char) :
    lower.charsBehind before cs = word ↔ List.Forall₂ CaseVariant cs word := by
  induction cs generalizing before word with
  | nil =>
      rw [charsBehind, List.forall₂_nil_left_iff, eq_comm]
  | cons c after ih =>
      rw [charsBehind]
      constructor
      · intro h
        -- The form of the first character lies within the word, so it holds letters only. This
        -- makes it a single one, and so the characters are as many as the letters.
        have hform : ∀ d ∈ lower.form before c after, d.isAlpha = true := by
          intro d hd
          apply isAlpha_of_isLower
          apply hword
          rw [← h]
          exact List.mem_append_left _ hd
        rcases lower.exists_form_eq_singleton hform with ⟨letter, hletter⟩
        rw [hletter, List.singleton_append] at h
        subst h
        rcases List.forall_mem_cons.mp hword with ⟨hsmall, hrest⟩
        exact .cons ((lower.form_eq_singleton_iff hsmall before c after).mp hletter)
          ((ih hrest (before ++ [c])).mp rfl)
      · intro h
        cases h with
        | cons hc hafter =>
            rcases List.forall_mem_cons.mp hword with ⟨hsmall, hrest⟩
            rw [(lower.form_eq_singleton_iff hsmall before c after).mpr hc,
              (ih hrest (before ++ [c])).mpr hafter]
            rfl

theorem text_eq_iff {word : String} (hword : ∀ letter ∈ word.toList, letter.isLower = true)
    (text : String) :
    lower.text text = word ↔ List.Forall₂ CaseVariant text.toList word.toList := by
  rw [← lower.charsBehind_eq_iff hword [] text.toList, LowerCase.text, ← String.toList_inj,
    String.toList_ofList]

/-! ## Forms that depend on their places -/

/--
Lower case in which the dotted capital I has a form of two characters and the form of a capital
sigma depends on whether it stands at the end of a word.
-/
def wordwise : LowerCase where
  form before c after :=
    if c = kelvinSign then ['k']
    else if c = 'İ' then ['i', '\u0307']
    else if c = 'Σ' then
      if before.getLast?.any Char.isAlpha && !after.head?.any Char.isAlpha then ['ς'] else ['σ']
    else [c.toLower]
  form_letter := by
    intro c halpha before after
    rw [if_neg (ne_of_isAlpha halpha rfl), if_neg (ne_of_isAlpha halpha rfl),
      if_neg (ne_of_isAlpha halpha rfl)]
  form_kelvinSign := fun _ _ => rfl
  form_other := by
    intro c halpha hkelvin before after
    rw [if_neg hkelvin]
    split
    · exact ⟨'\u0307', by simp, rfl⟩
    split
    · split
      · exact ⟨'ς', by simp, rfl⟩
      · exact ⟨'σ', by simp, rfl⟩
    · exact ⟨c.toLower, by simp, by rw [Char.isAlpha_toLower_eq_isAlpha, halpha]⟩

end LowerCase
end Highlighting
