import Highlighting.Proofs.Json.Extension
import Highlighting.Proofs.Theme.RoundTrip
import Mathlib.Data.List.TakeWhile

/-!
# Damaged theme files

The JSON text of a theme is read only when it is whole. A text that breaks off somewhere inside is
not JSON at all; one that goes on behind the theme, with more than blanks, is reported with the
place at which it does.
-/

namespace Highlighting
namespace Theme

/-! ## Messages -/

theorem message_invalidJson (e : Json.SyntaxError) :
    (⟨.invalidJson e, ""⟩ : ThemeError).message = "invalid JSON: " ++ e.message := by
  unfold ThemeError.message ThemeError.located
  exact if_pos rfl

theorem message_extraData (line column position : Nat) :
    (⟨.invalidJson ⟨.extraData, line, column, position⟩, ""⟩ : ThemeError).message =
      "invalid JSON: Extra data: line " ++ Numeral.text line ++ " column " ++
        Numeral.text column ++ " (char " ++ Numeral.text position ++ ")" := by
  have hstart : "invalid JSON: " ++ ("Extra data" ++ ": line ") =
      "invalid JSON: Extra data: line " := rfl
  rw [message_invalidJson, ← hstart]
  simp only [Json.SyntaxError.message, Json.Complaint.message, String.append_assoc]

/-! ## Faults -/

theorem ofJsonChars_of_scanText {cs : List Char} {fault : Json.Fault}
    (h : Json.scanText cs = .error fault) :
    ofJsonChars cs = .error ⟨.invalidJson (fault.locate cs), ""⟩ := by
  have hparse : Json.parse cs = .error (fault.locate cs) := by
    rw [Json.parse, h]
    rfl
  rw [ofJsonChars, hparse]

theorem scanText_jsonChars_append (theme : Theme) (layout : Json.Layout) {extra : List Char}
    (h : Json.skipBlanks extra ≠ []) :
    Json.scanText (theme.jsonChars layout ++ extra) =
      .error ⟨.extraData, Json.skipBlanks extra⟩ := by
  have hscan : Json.scanText ([] ++ Json.printAt layout 0 theme.toValue.sorted ++ extra) = _ :=
    Json.scanText_printAt_append (readable_toValue theme).sorted layout (by simp) extra
  rw [if_neg h] at hscan
  exact hscan

/-- The added text, without its blanks, begins where the text and the blanks end. -/
theorem length_sub_skipBlanks (text extra : List Char) :
    (text ++ extra).length - (Json.skipBlanks extra).length =
      text.length + (extra.takeWhile Json.isBlank).length := by
  have hsplit : (extra.takeWhile Json.isBlank ++ Json.skipBlanks extra).length = extra.length :=
    congrArg List.length List.takeWhile_append_dropWhile
  rw [List.length_append] at hsplit
  rw [List.length_append]
  omega

theorem mem_blanks_iff (c : Char) : c ∈ [' ', '\t', '\n', '\r'] ↔ Json.isBlank c = true := by
  simp [Json.isBlank, or_assoc]

/--
Whatever is missing at its end, the text of a theme is no JSON; whatever is added to it but blanks is
extra data, at the place where it begins.
-/
theorem ofJson_damaged (theme : Theme) (indent : Option Int) :
    (∀ kept lost : String, kept ++ lost = theme.toJson indent → lost ≠ "" →
      ∃ e : ThemeError, ofJson kept = .error e ∧ ∃ reason, e.message = "invalid JSON: " ++ reason) ∧
    ∀ extra : String, (∃ c ∈ extra.toList, c ∉ [' ', '\t', '\n', '\r']) →
      ∃ (e : ThemeError) (line column : Nat), ofJson (theme.toJson indent ++ extra) = .error e ∧
        e.message = "invalid JSON: Extra data: line " ++ Numeral.text line ++ " column " ++
          Numeral.text column ++ " (char " ++ Numeral.text ((theme.toJson indent).length +
            (extra.toList.takeWhile (· ∈ [' ', '\t', '\n', '\r'])).length : Nat) ++ ")" := by
  constructor
  · intro kept lost hcut hlost
    have hchars : kept.toList ++ lost.toList =
        Json.printAt (Json.Layout.ofIndent indent) 0 theme.toValue.sorted := by
      rw [← String.toList_append, hcut, toJson, String.toList_ofList]
      rfl
    obtain ⟨fault, hfault⟩ := Json.scanText_of_cut (readable_toValue theme).sorted hchars
      (by simpa using hlost)
    exact ⟨_, ofJsonChars_of_scanText hfault, _, message_invalidJson _⟩
  · intro extra h
    rcases h with ⟨c, hc, hstray⟩
    have hextra : Json.skipBlanks extra.toList ≠ [] := by
      intro hnil
      have hall := List.dropWhile_eq_nil_iff.mp hnil c hc
      exact hstray ((mem_blanks_iff c).mpr hall)
    have hfault := scanText_jsonChars_append theme (Json.Layout.ofIndent indent) hextra
    have hchars : (theme.toJson indent ++ extra).toList =
        theme.jsonChars (Json.Layout.ofIndent indent) ++ extra.toList := by
      rw [String.toList_append, toJson, String.toList_ofList]
    have hblanks : (fun c : Char => decide (c ∈ [' ', '\t', '\n', '\r'])) = Json.isBlank := by
      funext c
      rw [Bool.eq_iff_iff, decide_eq_true_iff, mem_blanks_iff]
    have hlength : (theme.toJson indent).length =
        (theme.jsonChars (Json.Layout.ofIndent indent)).length := String.length_ofList
    rw [ofJson, hchars, hblanks, hlength, ← length_sub_skipBlanks]
    exact ⟨_, _, _, ofJsonChars_of_scanText hfault, message_extraData _ _ _⟩

def accented : Theme where
  name := "é"
  defaultColor := none
  backgroundColor := none
  styles := Table.ofList [(.keyword, { bold := true })]

/-- Texts that break off in an escape and in a title, and a second value behind a theme. -/
theorem ofJson_damaged_accented :
    let named := "\x7b\"background_color\": null, \"default_color\": null, \"name\": \"\\u00"
    let titled := named ++ "e9\", \"token_styles\": [[\"Key"
    let text := accented.toJson none
    (∃ e : ThemeError, ofJson named = .error e ∧ ∃ reason, e.message = "invalid JSON: " ++ reason) ∧
    (∃ e : ThemeError, ofJson titled = .error e ∧ ∃ reason, e.message = "invalid JSON: " ++ reason) ∧
    ∃ (e : ThemeError) (line column : Nat), ofJson (text ++ "\n \x7b\x7d") = .error e ∧
      e.message = "invalid JSON: Extra data: line " ++ Numeral.text line ++ " column " ++
        Numeral.text column ++ " (char " ++ Numeral.text (text.length + 2 : Nat) ++ ")" := by
  intro named titled text
  have hdamaged := ofJson_damaged accented none
  have htitled : titled ++ "wordTok\", \x7b\"bold\": true\x7d]]\x7d" = text := rfl
  have hnamed : named ++ ("e9\", \"token_styles\": [[\"Key" ++
      "wordTok\", \x7b\"bold\": true\x7d]]\x7d") = text := rfl
  have hblanks : ("\n \x7b\x7d".toList.takeWhile (· ∈ [' ', '\t', '\n', '\r'])).length = 2 := by
    decide
  have hextra := hdamaged.2 "\n \x7b\x7d" ⟨'}', by decide, by decide⟩
  rw [hblanks] at hextra
  exact ⟨hdamaged.1 named _ hnamed (by simp), hdamaged.1 titled _ htitled (by simp), hextra⟩

end Theme
end Highlighting
