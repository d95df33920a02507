import Highlighting.Proofs.Color.Hex
import Highlighting.Proofs.Json.Values
import Highlighting.Theme.Json
import Highlighting.Theme.Palette
import Mathlib.Data.List.Nodup

/-!
# Themes survive their JSON text

A theme that is written as JSON text, in any layout and with any blanks around it, is read back as
the same theme. The fields of an object are found by name, so that their order does not matter; a
field that a style leaves out is read as not set.
-/

namespace Highlighting

/-! ## Styles -/

namespace Style

def colorField (name : String) (color : Option Color) : List (String × Value) :=
  color.toList.map fun c => (name, .text c.toHex)

def flagField (name : String) (flag : Bool) : List (String × Value) :=
  if flag then [(name, .bool true)] else []

def setFields (style : Style) : List (String × Value) :=
  colorField "color" style.color ++ colorField "background" style.background ++
    flagField "bold" style.bold ++ flagField "italic" style.italic ++
    flagField "underline" style.underline

theorem toValue_eq (style : Style) : style.toValue = .object style.setFields :=
  rfl

theorem keys_colorField (name : String) (color : Option Color) :
    (Assoc.keys (colorField name color)).Sublist [name] := by
  cases color with
  | none =>
      exact List.nil_sublist [name]
  | some c =>
      exact List.Sublist.refl [name]

theorem keys_flagField (name : String) (flag : Bool) :
    (Assoc.keys (flagField name flag)).Sublist [name] := by
  cases flag with
  | false =>
      exact List.nil_sublist [name]
  | true =>
      exact List.Sublist.refl [name]

theorem keys_setFields (style : Style) :
    (Assoc.keys style.setFields).Sublist fieldNames := by
  have hcolors := (keys_colorField "color" style.color).append
    (keys_colorField "background" style.background)
  have hbold := hcolors.append (keys_flagField "bold" style.bold)
  have hitalic := hbold.append (keys_flagField "italic" style.italic)
  have hunderline := hitalic.append (keys_flagField "underline" style.underline)
  simpa [setFields, Assoc.keys, fieldNames] using hunderline

theorem value_of_mem_setFields {style : Style} {field : String × Value}
    (h : field ∈ style.setFields) : (∃ t, field.2 = .text t) ∨ ∃ b, field.2 = .bool b := by
  have hcolor : ∀ {name color}, field ∈ colorField name color → ∃ t, field.2 = .text t := by
    intro name color hfield
    rcases List.mem_map.mp hfield with ⟨c, _, rfl⟩
    exact ⟨c.toHex, rfl⟩
  have hflag : ∀ {name flag}, field ∈ flagField name flag → ∃ b, field.2 = .bool b := by
    intro name flag hfield
    cases flag with
    | false =>
        cases hfield
    | true =>
        rw [List.mem_singleton.mp hfield]
        exact ⟨true, rfl⟩
  simp only [setFields, List.mem_append] at h
  rcases h with (((h | h) | h) | h) | h
  · exact Or.inl (hcolor h)
  · exact Or.inl (hcolor h)
  · exact Or.inr (hflag h)
  · exact Or.inr (hflag h)
  · exact Or.inr (hflag h)

theorem sortedFields_setFields (style : Style) :
    Value.sortedFields style.setFields = style.setFields := by
  have hsame : ∀ field ∈ style.setFields, (field.1, field.2.sorted) = field := by
    intro h hfield
    rcases h with ⟨name, value⟩
    rcases value_of_mem_setFields hfield with ⟨t, rfl⟩ | ⟨b, rfl⟩
    · rfl
    · rfl
  rw [Value.sortedFields_eq_map, List.map_congr_left hsame, List.map_id']

theorem sorted_toValue (style : Style) :
    style.toValue.sorted = .object (Assoc.sortByKey style.setFields) := by
  rw [toValue_eq, Value.sorted, sortedFields_setFields]

theorem readable_toValue (style : Style) : Json.Readable style.toValue := by
  rw [toValue_eq]
  apply Json.Readable.object
  · exact (keys_setFields style).nodup (by decide)
  · intro h hfield
    rcases h with ⟨name, value⟩
    rcases value_of_mem_setFields hfield with ⟨t, rfl⟩ | ⟨b, rfl⟩
    · exact Json.Readable.text t
    · exact Json.Readable.bool b

/-! ## Reading a style back -/

theorem find?_colorField_of_ne {key name : String} (h : name ≠ key) (color : Option Color) :
    Assoc.find? key (colorField name color) = none := by
  cases color with
  | none =>
      rfl
  | some c =>
      exact if_neg h

theorem find?_flagField_of_ne {key name : String} (h : name ≠ key) (flag : Bool) :
    Assoc.find? key (flagField name flag) = none := by
  cases flag with
  | false =>
      rfl
  | true =>
      exact if_neg h

theorem optionalColorAt_colorField (path name : String) (color : Option Color) :
    optionalColorAt path (Assoc.find? name (colorField name color)) = .ok color := by
  cases color with
  | none =>
      rfl
  | some c =>
      have hfind : Assoc.find? name (colorField name (some c)) = some (.text c.toHex) :=
        if_pos rfl
      rw [hfind]
      simp only [optionalColorAt, colorAt, Color.parse?_toHex]
      rfl

theorem flagAt_flagField (path name : String) (flag : Bool) :
    flagAt path (Assoc.find? name (flagField name flag)) = .ok flag := by
  cases flag with
  | false =>
      rfl
  | true =>
      have hfind : Assoc.find? name (flagField name true) = some (.bool true) := if_pos rfl
      rw [hfind]
      rfl

theorem unknownFields_setFields (style : Style) :
    unknownFields (Assoc.sortByKey style.setFields) = [] := by
  have hknown : ∀ name ∈ Assoc.keys (Assoc.sortByKey style.setFields), name ∈ fieldNames := by
    intro name hname
    have hmem := (Assoc.keys_sortByKey_perm style.setFields).mem_iff.mp hname
    exact (keys_setFields style).subset hmem
  have hfilter : ((Assoc.keys (Assoc.sortByKey style.setFields)).filter fun name =>
      !fieldNames.contains name) = [] := by
    rw [List.filter_eq_nil_iff]
    intro name hname
    simp [hknown name hname]
  rw [unknownFields, hfilter]
  rfl

theorem ofValue_toValue (path : String) (style : Style) :
    ofValue path style.toValue.sorted = .ok style := by
  have hcolor : Assoc.find? "color" style.setFields =
      Assoc.find? "color" (colorField "color" style.color) := by
    simp [setFields, Assoc.find?_append, find?_colorField_of_ne, find?_flagField_of_ne]
  have hbackground : Assoc.find? "background" style.setFields =
      Assoc.find? "background" (colorField "background" style.background) := by
    simp [setFields, Assoc.find?_append, find?_colorField_of_ne, find?_flagField_of_ne]
  have hbold : Assoc.find? "bold" style.setFields =
      Assoc.find? "bold" (flagField "bold" style.bold) := by
    simp [setFields, Assoc.find?_append, find?_colorField_of_ne, find?_flagField_of_ne]
  have hitalic : Assoc.find? "italic" style.setFields =
      Assoc.find? "italic" (flagField "italic" style.italic) := by
    simp [setFields, Assoc.find?_append, find?_colorField_of_ne, find?_flagField_of_ne]
  have hunderline : Assoc.find? "underline" style.setFields =
      Assoc.find? "underline" (flagField "underline" style.underline) := by
    simp [setFields, Assoc.find?_append, find?_colorField_of_ne, find?_flagField_of_ne]
  rw [sorted_toValue]
  simp only [ofValue, unknownFields_setFields, Assoc.find?_sortByKey, hcolor, hbackground, hbold,
    hitalic, hunderline, optionalColorAt_colorField, flagAt_flagField]
  rfl

end Style

/-! ## Themes -/

namespace Theme

theorem optionalColorAt_colorValue (path : String) (color : Option Color) :
    optionalColorAt path (some (colorValue color)) = .ok color := by
  cases color with
  | none =>
      rfl
  | some c =>
      simp only [colorValue, optionalColorAt, colorAt, Color.parse?_toHex]
      rfl

theorem sorted_colorValue (color : Option Color) :
    (colorValue color).sorted = colorValue color := by
  cases color with
  | none =>
      rfl
  | some c =>
      rfl

theorem readable_colorValue (color : Option Color) : Json.Readable (colorValue color) := by
  cases color with
  | none =>
      exact Json.Readable.null
  | some c =>
      exact Json.Readable.text c.toHex

theorem readable_entryValue (entry : Category × Style) : Json.Readable (entryValue entry) := by
  apply Json.Readable.list
  intro item hitem
  simp only [List.mem_cons, List.not_mem_nil, or_false] at hitem
  rcases hitem with rfl | rfl
  · exact Json.Readable.text entry.1.title
  · exact Style.readable_toValue entry.2

theorem readable_toValue (theme : Theme) : Json.Readable theme.toValue := by
  apply Json.Readable.object
  · change ["name", "default_color", "background_color", "token_styles"].Nodup
    decide
  · intro field hfield
    simp only [List.mem_cons, List.not_mem_nil, or_false] at hfield
    rcases hfield with rfl | rfl | rfl | rfl
    · exact Json.Readable.text theme.name
    · exact readable_colorValue theme.defaultColor
    · exact readable_colorValue theme.backgroundColor
    · apply Json.Readable.list
      intro item hitem
      rcases List.mem_map.mp hitem with ⟨entry, _, rfl⟩
      exact readable_entryValue entry

theorem entryOfValue_entryValue (path : String) (entry : Category × Style) :
    entryOfValue path (entryValue entry).sorted = .ok entry := by
  have htitle : Category.ofTitle (.text entry.1.title) = .ok entry.1 := by
    simp only [Category.ofTitle, Category.ofTitle?_title]
  change entryOfValue path (.list [.text entry.1.title, entry.2.toValue.sorted]) = .ok entry
  simp only [entryOfValue, htitle, Style.ofValue_toValue]
  rfl

theorem entriesOfValues_entryValues (index : Nat) (entries : List (Category × Style)) :
    entriesOfValues index (Value.sortedItems (entries.map entryValue)) = .ok entries := by
  induction entries generalizing index with
  | nil =>
      rfl
  | cons entry entries ih =>
      rw [List.map_cons, Value.sortedItems, entriesOfValues, entryOfValue_entryValue, ih]
      rfl

theorem ofValue_toValue (theme : Theme) : ofValue theme.toValue.sorted = .ok theme := by
  have hfields : theme.toValue.sorted = .object (Assoc.sortByKey [
      ("name", .text theme.name),
      ("default_color", colorValue theme.defaultColor),
      ("background_color", colorValue theme.backgroundColor),
      ("token_styles", .list (Value.sortedItems (theme.styles.entries.map entryValue)))]) := by
    simp only [toValue, Value.sorted, Value.sortedFields, sorted_colorValue]
  rw [hfields]
  simp [ofValue, Assoc.find?_sortByKey, Assoc.find?, nameOfValue, entryValues,
    entriesOfValues_entryValues, optionalColorAt_colorValue, Table.ofList_entries, bind,
    Except.bind, pure, Except.pure]

theorem ofJsonChars_jsonChars (theme : Theme) (layout : Json.Layout) {before after : List Char}
    (hbefore : ∀ c ∈ before, Json.isBlank c = true)
    (hafter : ∀ c ∈ after, Json.isBlank c = true) :
    ofJsonChars (before ++ theme.jsonChars layout ++ after) = .ok theme := by
  have hparse := Json.parse_print (readable_toValue theme) layout hbefore hafter
  rw [ofJsonChars, jsonChars, hparse]
  exact ofValue_toValue theme

theorem ofJson_toJson :
    (∀ (theme : Theme) (indent : Option Int) (before after : String),
      (∀ c ∈ before.toList, c ∈ [' ', '\t', '\n', '\r']) →
      (∀ c ∈ after.toList, c ∈ [' ', '\t', '\n', '\r']) →
        ofJson (before ++ theme.toJson indent ++ after) = .ok theme) ∧
    ∀ (indent : Option Int) (first second : Theme),
      first.toJson indent = second.toJson indent ↔ first = second := by
  have hblank : ∀ c ∈ [' ', '\t', '\n', '\r'], Json.isBlank c = true := by
    simp [Json.isBlank]
  have hread : ∀ (theme : Theme) (indent : Option Int) (before after : String),
      (∀ c ∈ before.toList, c ∈ [' ', '\t', '\n', '\r']) →
      (∀ c ∈ after.toList, c ∈ [' ', '\t', '\n', '\r']) →
        ofJson (before ++ theme.toJson indent ++ after) = .ok theme := by
    intro theme indent before after hbefore hafter
    rw [ofJson, String.toList_append, String.toList_append, toJson, String.toList_ofList]
    exact ofJsonChars_jsonChars theme _ (fun c hc => hblank c (hbefore c hc))
      (fun c hc => hblank c (hafter c hc))
  constructor
  · exact hread
  · intro indent first second
    constructor
    · intro htext
      have hfirst := hread first indent "" "" (by simp) (by simp)
      have hsecond := hread second indent "" "" (by simp) (by simp)
      rw [htext, hsecond] at hfirst
      exact (Except.ok.inj hfirst).symm
    · intro heq
      rw [heq]

/-- A name with a quote, a backslash, a line break and a character beyond the first plane. -/
theorem ofJson_toJson_espresso :
    let theme : Theme := { Palette.espresso with name := "a\"\\\né🎨" }
    ofJson ("\r\n" ++ theme.toJson (some (-1)) ++ " \t") = .ok theme ∧
      (theme.toJson none = Palette.espresso.toJson none ↔ theme = Palette.espresso) :=
  ⟨ofJson_toJson.1 _ (some (-1)) "\r\n" " \t" (by simp) (by simp), ofJson_toJson.2 none _ _⟩

end Theme
end Highlighting
