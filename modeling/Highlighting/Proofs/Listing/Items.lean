import Highlighting.Proofs.Data.Report
import Highlighting.Token.Basic

/-!
# Lines of items

Lines may hold pairs whose category is no category. Lines without such a pair denote the tokens of
a document; otherwise the first such pair in reading order is reported.
-/

namespace Highlighting

/-! ## Items -/

namespace Item

/-- The token that an item stands for; a pair without a proper category stands for none. -/
inductive Denotes : Item → Token → Prop
  | token (t : Token) : Denotes (.token t) t
  | pair (c : Category) (text : String) : Denotes (.pair (.fit c) text) ⟨c, text⟩

def category : Item → Candidate Category
  | .token t => .fit t.category
  | .pair category _ => category

theorem stray?_category_eq_some_iff (item : Item) (value : Argument) :
    item.category.stray? = some value ↔ ∃ text, item = .pair (.stray value) text := by
  constructor
  · intro h
    cases item with
    | token t =>
        cases h
    | pair category text =>
        cases category with
        | fit c =>
            cases h
        | stray value' =>
            cases h
            exact ⟨text, rfl⟩
  · intro h
    rcases h with ⟨text, rfl⟩
    rfl

theorem toToken_reports (item : Item) :
    Reports item.toToken item.Denotes (item.category.stray?.toList.map InvalidToken.mk) := by
  cases item with
  | token t =>
      apply Reports.of_ok
      · intro t'
        constructor
        · intro h
          cases h
          rfl
        · intro h
          rcases h with rfl
          exact .token t'
      · rfl
  | pair category text =>
      cases category with
      | fit c =>
          apply Reports.of_ok
          · intro t'
            constructor
            · intro h
              cases h
              rfl
            · intro h
              rcases h with rfl
              exact .pair c text
          · rfl
      | stray value =>
          apply Reports.of_error
          · intro t h
            cases h
          · rfl

theorem exists_denotes_iff (item : Item) :
    (∃ token, item.Denotes token) ↔ item.category.stray? = none := by
  have hreports := item.toToken_reports
  simp only [← hreports.ok_iff, hreports.exists_ok_iff, List.map_eq_nil_iff, Option.toList_eq_nil_iff]

end Item

/-! ## Lines -/

namespace Document

/-- What the improper pairs of some lines offer as their categories, in reading order. -/
def strays (lines : List (List Item)) : List Argument :=
  lines.flatten.filterMap fun item => item.category.stray?

theorem ofItems_reports (lines : List (List Item)) :
    Reports (ofItems lines) (List.Forall₂ (List.Forall₂ Item.Denotes) lines)
      ((strays lines).map InvalidToken.mk) := by
  apply (Reports.mapM (fun line => Reports.mapM Item.toToken_reports line) lines).congr
  · exact fun _ => Iff.rfl
  · rw [strays, List.filterMap_eq_flatMap_toList, List.flatten_eq_flatMap, List.flatMap_assoc,
      List.map_flatMap]
    simp only [List.map_flatMap, id_eq]

theorem denotes_tokens (document : Document) :
    List.Forall₂ (List.Forall₂ Item.Denotes) (document.map (List.map Item.token)) document := by
  rw [List.forall₂_map_left_iff, List.forall₂_same]
  intro line _
  rw [List.forall₂_map_left_iff, List.forall₂_same]
  intro token _
  exact .token token

theorem strays_congr {lines others : List (List Item)}
    (h : others.map (List.map Item.category) = lines.map (List.map Item.category)) :
    strays others = strays lines := by
  have hstrays : ∀ lines : List (List Item), strays lines =
      (lines.map (List.map Item.category)).flatten.filterMap Candidate.stray? := by
    intro lines
    rw [← List.map_flatten, List.filterMap_map]
    rfl
  rw [hstrays, hstrays, h]

theorem mem_strays_iff (lines : List (List Item)) (value : Argument) :
    value ∈ strays lines ↔ ∃ line ∈ lines, ∃ item ∈ line, ∃ text, item = .pair (.stray value) text := by
  simp only [strays, List.mem_filterMap, List.mem_flatten, Item.stray?_category_eq_some_iff]
  constructor
  · intro h
    rcases h with ⟨item, ⟨line, hline, hitem⟩, htext⟩
    exact ⟨line, hline, item, hitem, htext⟩
  · intro h
    rcases h with ⟨line, hline, item, hitem, htext⟩
    exact ⟨item, ⟨line, hline, hitem⟩, htext⟩

theorem strays_eq_nil_of_forall {lines : List (List Item)}
    (h : ∀ line ∈ lines, ∀ item ∈ line, ∀ value text, item ≠ .pair (.stray value) text) :
    strays lines = [] := by
  rw [List.eq_nil_iff_forall_not_mem]
  intro value hvalue
  rcases (mem_strays_iff lines value).mp hvalue with ⟨line, hline, item, hitem, text, htext⟩
  exact h line hline item hitem value text htext

theorem head?_strays_eq_some_iff (lines : List (List Item)) (value : Argument) :
    (strays lines).head? = some value ↔
      ∃ before text after, lines.flatten = before ++ .pair (.stray value) text :: after ∧
        ∀ item ∈ before, ∃ token, item.Denotes token := by
  rw [strays, List.head?_filterMap, List.findSome?_eq_some_iff]
  simp only [Item.stray?_category_eq_some_iff, ← Item.exists_denotes_iff]
  constructor
  · intro h
    rcases h with ⟨before, item, after, hlines, ⟨text, rfl⟩, hbefore⟩
    exact ⟨before, text, after, hlines, hbefore⟩
  · intro h
    rcases h with ⟨before, text, after, hlines, hbefore⟩
    exact ⟨before, _, after, hlines, ⟨text, rfl⟩, hbefore⟩

end Document

end Highlighting
