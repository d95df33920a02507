import Highlighting.Proofs.Json.Regions
import Highlighting.Proofs.Theme.RoundTrip

/-!
# Layout of theme files

The JSON text of a theme is plain ASCII, and its line ends belong to the layout: all of them lie
outside of the strings. The name of a theme has no effect on the number of lines.
-/

namespace Highlighting
namespace Theme

theorem laidOut_jsonChars (theme : Theme) (layout : Json.Layout) :
    Json.LaidOut (theme.jsonChars layout) :=
  Json.laidOut_print (readable_toValue theme) layout

theorem count_jsonChars (theme : Theme) (layout : Json.Layout) :
    (theme.jsonChars layout).count '\n' = layout.breaks * theme.toValue.lineEnds :=
  Json.count_print (readable_toValue theme) layout

/-- The name is printed on a line that is there for any other name as well. -/
theorem lineEnds_toValue_name (theme : Theme) (name : String) :
    { theme with name := name }.toValue.lineEnds = theme.toValue.lineEnds :=
  rfl

theorem toJson_laidOut :
    ∀ theme : Theme,
      (∀ indent, ∀ c ∈ (theme.toJson indent).toList,
        c = '\n' ∨ 0x20 ≤ c.toNat ∧ c.toNat ≤ 0x7f) ∧
      '\n' ∉ (theme.toJson none).toList ∧
      (∀ indent before rest, (theme.toJson indent).toList = before ++ '\n' :: rest →
        Json.Region.outside.after before = .outside) ∧
      ∀ indent name, ({ theme with name := name }.toJson indent).toList.count '\n' =
        (theme.toJson indent).toList.count '\n' := by
  intro theme
  refine ⟨?_, ?_, ?_, ?_⟩
  · intro indent c hc
    rw [toJson, String.toList_ofList] at hc
    rcases (laidOut_jsonChars theme _).visible c hc with hend | hvisible
    · exact Or.inl hend
    · exact Or.inr ⟨hvisible.1, Nat.le_of_lt hvisible.2⟩
  · rw [toJson, String.toList_ofList, ← List.count_eq_zero, count_jsonChars]
    exact Nat.zero_mul _
  · intro indent before rest h
    rw [toJson, String.toList_ofList] at h
    exact (laidOut_jsonChars theme _).outside before rest h
  · intro indent name
    rw [toJson, toJson, String.toList_ofList, String.toList_ofList, count_jsonChars,
      count_jsonChars, lineEnds_toValue_name]

end Theme
end Highlighting
