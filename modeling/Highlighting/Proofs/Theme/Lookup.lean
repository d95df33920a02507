import Highlighting.Error
import Highlighting.Proofs.Data.Assoc
import Highlighting.Proofs.Text.LowerCase

/-!
# Looking palettes up

A value names a palette if it is a text that spells the name letter by letter, each letter in either
case or, for a k, as a Kelvin sign. Exactly these values are found. They are the texts that have a
name as their lower-case form, whatever the forms of other characters are, so that folding single
characters finds what the lower case of the whole text would find.
-/

namespace Highlighting
namespace Palette

/-- A value is a text that spells a name letter by letter. -/
def Spells (value : Value) (name : String) : Prop :=
  ∃ text, value = .text text ∧ List.Forall₂ CaseVariant text.toList name.toList

/-! ## Names -/

theorem nodup_names : (all.map Theme.name).Nodup := by
  decide

theorem isLower_of_mem_name {theme : Theme} (h : theme ∈ all) :
    ∀ letter ∈ theme.name.toList, letter.isLower = true := by
  have hall : (all.all fun theme => theme.name.toList.all Char.isLower) = true := by
    decide
  exact List.all_eq_true.mp (List.all_eq_true.mp hall theme h)

theorem mem_names_iff (name : String) : name ∈ names ↔ ∃ theme ∈ all, theme.name = name := by
  rw [names, (Assoc.sortTexts_perm _).mem_iff, List.mem_map]

theorem find?_name_eq_some_iff (name : String) (theme : Theme) :
    (all.find? fun other => other.name = name) = some theme ↔
      theme ∈ all ∧ theme.name = name := by
  constructor
  · intro h
    exact ⟨List.mem_of_find?_eq_some h, by simpa using List.find?_some h⟩
  · intro h
    cases hfound : all.find? fun other => other.name = name with
    | none =>
        exact absurd (decide_eq_true h.2) (List.find?_eq_none.mp hfound theme h.1)
    | some other =>
        have hname : other.name = name := by
          simpa using List.find?_some hfound
        rw [List.inj_on_of_nodup_map nodup_names (List.mem_of_find?_eq_some hfound) h.1
          (hname.trans h.2.symm)]

/-! ## Folding single characters -/

theorem isUpper_iff (c : Char) : c.isUpper = true ↔ 'A' ≤ c ∧ c ≤ 'Z' := by
  rw [Char.isUpper, decide_eq_true_iff]
  rfl

theorem foldChar_of_ne {c : Char} (h : c ≠ kelvinSign) : foldChar c = c.toLower := by
  unfold foldChar
  by_cases hupper : c.isUpper = true
  · rw [if_pos ((isUpper_iff c).mp hupper), Char.toLower_eq_of_isUpper hupper]
  · rw [if_neg fun hrange => hupper ((isUpper_iff c).mpr hrange),
      Char.toLower_eq_of_not_isUpper hupper]
    exact if_neg h

/-- Folding as a lower case in which a character has the same form everywhere. -/
def folding : LowerCase where
  form _ c _ := [foldChar c]
  form_letter := by
    intro c halpha _ _
    rw [foldChar_of_ne (ne_of_isAlpha halpha rfl)]
  form_kelvinSign := fun _ _ => rfl
  form_other := by
    intro c halpha hne _ _
    refine ⟨foldChar c, List.mem_singleton_self _, ?_⟩
    rw [foldChar_of_ne hne, Char.isAlpha_toLower_eq_isAlpha, halpha]

theorem charsBehind_folding (before cs : List Char) :
    folding.charsBehind before cs = cs.map foldChar := by
  induction cs generalizing before with
  | nil =>
      rfl
  | cons c after ih =>
      rw [LowerCase.charsBehind, ih]
      rfl

theorem find?_text (text : String) :
    find? (.text text) = all.find? fun theme => theme.name = folding.text text := by
  have hname : ∀ theme : Theme,
      theme.name.toList = text.toList.map foldChar ↔ theme.name = folding.text text := by
    intro theme
    rw [LowerCase.text, charsBehind_folding, ← String.toList_inj, String.toList_ofList]
  simp only [find?, hname]

/-! ## Values that are found -/

theorem get_of_find?_eq_some {value : Value} {theme : Theme} (h : find? value = some theme) :
    get value = .ok theme := by
  rw [get, h]

theorem get_of_find?_eq_none {value : Value} (h : find? value = none) :
    get value = .error ⟨value, names⟩ := by
  rw [get, h]

theorem get_eq_ok_iff (value : Value) (theme : Theme) :
    get value = .ok theme ↔ find? value = some theme := by
  constructor
  · intro h
    cases hfound : find? value with
    | none =>
        rw [get_of_find?_eq_none hfound] at h
        cases h
    | some found =>
        rw [get_of_find?_eq_some hfound] at h
        rw [Except.ok.inj h]
  · exact get_of_find?_eq_some

theorem get_eq_error_iff (value : Value) :
    get value = .error ⟨value, names⟩ ↔ ∀ theme, get value ≠ .ok theme := by
  constructor
  · intro h theme hok
    rw [h] at hok
    cases hok
  · intro h
    apply get_of_find?_eq_none
    cases hfound : find? value with
    | none =>
        rfl
    | some theme =>
        exact absurd (get_of_find?_eq_some hfound) (h theme)

theorem spells_text_iff (lower : LowerCase) {theme : Theme} (h : theme ∈ all) (text : String) :
    Spells (.text text) theme.name ↔ lower.text text = theme.name := by
  rw [lower.text_eq_iff (isLower_of_mem_name h)]
  constructor
  · intro hspelled
    rcases hspelled with ⟨text', heq, hletters⟩
    rw [Value.text.inj heq]
    exact hletters
  · intro hletters
    exact ⟨text, rfl, hletters⟩

theorem get_eq_ok_iff_spells (value : Value) (theme : Theme) :
    get value = .ok theme ↔ theme ∈ all ∧ Spells value theme.name := by
  rw [get_eq_ok_iff]
  cases value with
  | text text =>
      rw [find?_text, find?_name_eq_some_iff, eq_comm (a := theme.name)]
      exact and_congr_right fun htheme => (spells_text_iff folding htheme text).symm
  | _ =>
      constructor
      · intro h
        cases h
      · intro h
        rcases h with ⟨_, _, heq, _⟩
        cases heq

theorem get_text_eq_ok_iff (lower : LowerCase) (text : String) (theme : Theme) :
    get (.text text) = .ok theme ↔ theme ∈ all ∧ lower.text text = theme.name := by
  rw [get_eq_ok_iff_spells]
  exact and_congr_right fun htheme => spells_text_iff lower htheme text

/-! ## Looking up in the registry -/

def registry : List (String × Theme) :=
  Assoc.ofList (all.map fun theme => (theme.name, theme))

def getLowered (lower : LowerCase) (value : Value) : Except UnknownTheme Theme :=
  let found := match value with
    | .text text => Assoc.find? (lower.text text) registry
    | _ => none
  match found with
  | some theme => .ok theme
  | none => .error ⟨value, Assoc.sortTexts (Assoc.keys registry)⟩

theorem registry_eq : registry = all.map fun theme => (theme.name, theme) := by
  apply Assoc.ofList_of_nodup
  rw [Assoc.keys, List.map_map]
  exact nodup_names

theorem keys_registry : Assoc.keys registry = all.map Theme.name := by
  rw [registry_eq, Assoc.keys, List.map_map]
  rfl

theorem find?_map_name (themes : List Theme) (name : String) :
    Assoc.find? name (themes.map fun theme => (theme.name, theme)) =
      themes.find? fun theme => theme.name = name := by
  induction themes with
  | nil =>
      rfl
  | cons theme rest ih =>
      rw [List.map_cons, Assoc.find?, ih, List.find?_cons]
      by_cases h : theme.name = name
      · simp [h]
      · simp [h]

theorem find?_registry (lower : LowerCase) (text : String) :
    Assoc.find? (lower.text text) registry = find? (.text text) := by
  rw [registry_eq, find?_map_name]
  apply Option.ext
  intro theme
  rw [find?_name_eq_some_iff, ← get_eq_ok_iff, get_text_eq_ok_iff lower, eq_comm (a := theme.name)]

theorem getLowered_eq (lower : LowerCase) (value : Value) : getLowered lower value = get value := by
  have hnames : Assoc.sortTexts (Assoc.keys registry) = names := by
    rw [keys_registry, names]
  cases value with
  | text text =>
      simp only [getLowered, find?_registry, hnames]
      rfl
  | _ =>
      simp only [getLowered, hnames]
      rfl

/--
A look-up finds a palette exactly if the value is a text that spells its name letter by letter, each
letter in either case or, for a k, as a Kelvin sign. The name is then the lower case of the text,
and so texts with the same lower case find the same palette. Every other value is refused by a
complaint that shows it as it is and lists the names in order. Looking the lower case up in the
registry of names comes to the same, whatever the forms of other characters are.
-/
theorem get_spelled (lower : LowerCase) :
    (∀ value, (∃ theme, get value = .ok theme) ↔ ∃ name ∈ names, Spells value name) ∧
    (∀ value theme, get value = .ok theme ↔ theme ∈ all ∧ Spells value theme.name) ∧
    (∀ text theme, get (.text text) = .ok theme → theme.name = lower.text text) ∧
    (∀ first second theme, get (.text first) = .ok theme → lower.text second = lower.text first →
      get (.text second) = .ok theme) ∧
    (∀ value, get value = .error ⟨value, names⟩ ↔ ¬ ∃ name ∈ names, Spells value name) ∧
    (∀ value, (Error.unknownTheme ⟨value, names⟩).family = .unknownTheme ∧
      (Error.unknownTheme ⟨value, names⟩).message =
        "Unknown theme: " ++ value.describe ++ ". Available: " ++ ", ".intercalate names) ∧
    names.Pairwise (· ≤ ·) ∧ names.Perm (all.map Theme.name) ∧
    ∀ value, getLowered lower value = get value := by
  have hfound : ∀ value, (∃ theme, get value = .ok theme) ↔ ∃ name ∈ names, Spells value name := by
    intro value
    constructor
    · intro h
      rcases h with ⟨theme, h⟩
      rcases (get_eq_ok_iff_spells value theme).mp h with ⟨htheme, hspelled⟩
      exact ⟨theme.name, (mem_names_iff _).mpr ⟨theme, htheme, rfl⟩, hspelled⟩
    · intro h
      rcases h with ⟨name, hname, hspelled⟩
      rcases (mem_names_iff name).mp hname with ⟨theme, htheme, rfl⟩
      exact ⟨theme, (get_eq_ok_iff_spells value theme).mpr ⟨htheme, hspelled⟩⟩
  refine ⟨hfound, get_eq_ok_iff_spells, ?_, ?_, ?_, fun _ => ⟨rfl, rfl⟩,
    Assoc.pairwise_sortTexts _, Assoc.sortTexts_perm _, getLowered_eq lower⟩
  · intro text theme h
    exact ((get_text_eq_ok_iff lower text theme).mp h).2.symm
  · intro first second theme hfirst hlower
    rw [get_text_eq_ok_iff lower, hlower, ← get_text_eq_ok_iff lower]
    exact hfirst
  · intro value
    rw [get_eq_error_iff, ← hfound, not_exists]

/-- A Kelvin sign stands for a k, but a sigma at the end of a word is no o in any case. -/
theorem get_spelled_kelvinSign :
    let lower := LowerCase.wordwise
    Spells (.text "\u212aAtE") "kate" ∧ get (.text "\u212aAtE") = .ok kate ∧
      lower.text "TANGΣ" = "tangς" ∧ get (.text "TANGΣ") = .error ⟨.text "TANGΣ", names⟩ := by
  intro lower
  rcases get_spelled lower with ⟨_, hok, _, _, herror, _⟩
  have hmem : kate ∈ all := by
    decide
  have hkate : Spells (.text "\u212aAtE") "kate" :=
    (spells_text_iff lower hmem "\u212aAtE").mpr (by decide)
  have htango : lower.text "TANGΣ" = "tangς" := by
    decide
  refine ⟨hkate, (hok _ kate).mpr ⟨hmem, hkate⟩, htango, (herror _).mpr ?_⟩
  intro h
  rcases h with ⟨name, hname, hspelled⟩
  rcases (mem_names_iff name).mp hname with ⟨theme, htheme, rfl⟩
  rw [spells_text_iff lower htheme, htango] at hspelled
  have hnone : ∀ theme ∈ all, "tangς" ≠ theme.name := by
    decide
  exact hnone theme htheme hspelled

end Palette
end Highlighting
