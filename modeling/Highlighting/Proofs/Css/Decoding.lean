import Highlighting.Proofs.Css.Coverage
import Highlighting.Proofs.Data.PrefixCode
import Mathlib.Data.Prod.Basic

/-!
# Decoding style sheets

Two themes have the same style sheet exactly if they have the same colors of the document and the
same styles for the same categories in the same order, apart from normal text. A rule is read back
from its line: the selector ends at the brace, and a declaration ends at the first semicolon and has
its property in front of the first colon. A style is read back from its declarations.
-/

namespace Highlighting
namespace Css

/-! ## Declarations -/

namespace Declaration

def property : Declaration → List Char
  | .color _ => "color".toList
  | .backgroundColor _ => "background-color".toList
  | .boldWeight => "font-weight".toList
  | .italicStyle => "font-style".toList
  | .underline => "text-decoration".toList

def value : Declaration → List Char
  | .color c => c.hexChars
  | .backgroundColor c => c.hexChars
  | .boldWeight => "bold".toList
  | .italicStyle => "italic".toList
  | .underline => "underline".toList

def content (d : Declaration) : List Char :=
  d.property ++ ':' :: ' ' :: d.value

theorem render_eq (d : Declaration) : d.render = d.content ++ [';', ' '] := by
  have hcolor : "color: ".toList = "color".toList ++ [':', ' '] := by
    decide
  have hbackground : "background-color: ".toList = "background-color".toList ++ [':', ' '] := by
    decide
  cases d with
  | color c =>
      show "color: ".toList ++ c.hexChars ++ [';', ' '] = _
      rw [hcolor, List.append_assoc "color".toList]
      rfl
  | backgroundColor c =>
      show "background-color: ".toList ++ c.hexChars ++ [';', ' '] = _
      rw [hbackground, List.append_assoc "background-color".toList]
      rfl
  | boldWeight =>
      decide
  | italicStyle =>
      decide
  | underline =>
      decide

theorem not_mem_property (d : Declaration) : ':' ∉ d.property := by
  cases d with
  | color c =>
      exact (by decide : ':' ∉ "color".toList)
  | backgroundColor c =>
      exact (by decide : ':' ∉ "background-color".toList)
  | boldWeight =>
      decide
  | italicStyle =>
      decide
  | underline =>
      decide

theorem not_mem_content (d : Declaration) : ';' ∉ d.content := by
  have hhex : ∀ color : Color, ';' ∉ ':' :: ' ' :: color.hexChars := by
    intro color
    have hchars := Color.not_mem_hexChars (c := ';') (by decide) (by decide) color
    simp [hchars]
  cases d with
  | color c =>
      exact List.not_mem_append (by decide : ';' ∉ "color".toList) (hhex c)
  | backgroundColor c =>
      exact List.not_mem_append (by decide : ';' ∉ "background-color".toList) (hhex c)
  | boldWeight =>
      decide
  | italicStyle =>
      decide
  | underline =>
      decide

def ofText? (property value : List Char) : Option Declaration :=
  if property = "color".toList then (Color.ofHex? (String.ofList value)).map .color
  else if property = "background-color".toList then
    (Color.ofHex? (String.ofList value)).map .backgroundColor
  else if property = "font-weight".toList then some .boldWeight
  else if property = "font-style".toList then some .italicStyle
  else if property = "text-decoration".toList then some .underline
  else none

theorem ofText?_property_value (d : Declaration) : ofText? d.property d.value = some d := by
  have hhex : ∀ color : Color, Color.ofHex? (String.ofList color.hexChars) = some color :=
    Color.parse?_toHex
  cases d with
  | color c =>
      show (Color.ofHex? (String.ofList c.hexChars)).map color = _
      rw [hhex, Option.map_some]
  | backgroundColor c =>
      show (Color.ofHex? (String.ofList c.hexChars)).map backgroundColor = _
      rw [hhex, Option.map_some]
  | boldWeight =>
      rfl
  | italicStyle =>
      rfl
  | underline =>
      rfl

theorem content_injective : Function.Injective content := by
  intro d e h
  rcases append_mark_inj d.not_mem_property e.not_mem_property h with ⟨hproperty, hrest⟩
  have hread := ofText?_property_value d
  rw [hproperty, List.tail_eq_of_cons_eq hrest, ofText?_property_value] at hread
  exact (Option.some.inj hread).symm

end Declaration

def declarationCode : PrefixCode Declaration Char where
  encode := Declaration.render
  nonempty := by
    intro d
    rw [Declaration.render_eq]
    exact List.append_ne_nil_of_right_ne_nil _ (List.cons_ne_nil _ _)
  prefixFree := by
    intro d e h
    rcases h with ⟨rest, h⟩
    rw [Declaration.render_eq, Declaration.render_eq, List.append_assoc] at h
    rcases append_mark_inj d.not_mem_content e.not_mem_content h with ⟨hcontent, _⟩
    exact Declaration.content_injective hcontent

/-! ## Rules -/

theorem Rule.render_injective : Function.Injective Rule.render := by
  intro first second h
  have hselector : first.selector.render = second.selector.render := by
    rw [← selectorOf_rule, h, selectorOf_rule]
  rw [Rule.render, Rule.render, hselector] at h
  have hdeclarations := List.append_cancel_left h
  simp only [List.cons.injEq, true_and] at hdeclarations
  have hencoded : declarationCode.encodeAll first.declarations =
      declarationCode.encodeAll second.declarations :=
    List.append_cancel_right hdeclarations
  cases first
  cases second
  cases Css.render_injective hselector
  cases declarationCode.encodeAll_injective hencoded
  rfl

theorem rules_eq_of_stylesheet_eq {a b : Theme} (h : stylesheet a = stylesheet b) :
    rules a = rules b := by
  have hlines := splitOn_stylesheet a
  rw [h, splitOn_stylesheet b] at hlines
  have hrules := List.append_cancel_right hlines
  rw [← map_render_rules, ← map_render_rules] at hrules
  exact (List.map_injective_iff.mpr Rule.render_injective hrules).symm

/-! ## Styles -/

namespace Declaration

def color? : Declaration → Option Color
  | .color c => some c
  | _ => none

def backgroundColor? : Declaration → Option Color
  | .backgroundColor c => some c
  | _ => none

def toStyle (declarations : List Declaration) : Style where
  color := declarations.findSome? color?
  background := declarations.findSome? backgroundColor?
  bold := declarations.contains .boldWeight
  italic := declarations.contains .italicStyle
  underline := declarations.contains .underline

theorem toStyle_ofStyle (style : Style) : toStyle (ofStyle style) = style := by
  obtain ⟨color, background, bold, italic, underline⟩ := style
  cases color <;> cases background <;> cases bold <;> cases italic <;> cases underline <;> rfl

theorem ofStyle_injective : Function.Injective ofStyle :=
  Function.LeftInverse.injective toStyle_ofStyle

/-- The colors of a document are declared like those of a style that sets nothing else. -/
theorem ofTheme_eq_ofStyle (theme : Theme) :
    ofTheme theme = ofStyle { color := theme.defaultColor, background := theme.backgroundColor } := by
  simp [ofTheme, ofStyle]

theorem colors_of_ofTheme_eq {a b : Theme} (h : ofTheme a = ofTheme b) :
    a.defaultColor = b.defaultColor ∧ a.backgroundColor = b.backgroundColor := by
  rw [ofTheme_eq_ofStyle, ofTheme_eq_ofStyle] at h
  have hstyle := ofStyle_injective h
  exact ⟨congrArg Style.color hstyle, congrArg Style.background hstyle⟩

end Declaration

/-! ## Themes -/

def documentDeclarations (rules : List Rule) : List Declaration :=
  rules.flatMap fun rule => if rule.selector = .document then rule.declarations else []

def categoryDeclarations? (rule : Rule) : Option (Category × List Declaration) :=
  match rule.selector with
  | .document => none
  | .category category => some (category, rule.declarations)

theorem documentDeclarations_rules (theme : Theme) :
    documentDeclarations (rules theme) = Declaration.ofTheme theme := by
  have hdocument : documentDeclarations (documentRules theme) = Declaration.ofTheme theme := by
    unfold documentRules
    split
    · rename_i hempty
      exact hempty.symm
    · simp [documentDeclarations]
  rw [rules, documentDeclarations, List.flatMap_append, ← documentDeclarations, hdocument]
  simp [List.flatMap_map]

theorem filterMap_rules (theme : Theme) :
    (rules theme).filterMap categoryDeclarations? =
      theme.visibleStyles.map fun entry => (entry.1, Declaration.ofStyle entry.2) := by
  have hdocument : (documentRules theme).filterMap categoryDeclarations? = [] := by
    unfold documentRules
    split
    · rfl
    · rfl
  rw [rules, List.filterMap_append, hdocument, List.nil_append, List.filterMap_map]
  exact congrFun List.filterMap_eq_map theme.visibleStyles

/--
A style sheet shows the colors of the document and the styles of the categories in their order. The
name of the theme and its style of normal text do not show.
-/
theorem stylesheet_eq_iff (a b : Theme) :
    stylesheet a = stylesheet b ↔
      a.defaultColor = b.defaultColor ∧ a.backgroundColor = b.backgroundColor ∧
        a.visibleStyles = b.visibleStyles := by
  constructor
  · intro h
    have hrules := rules_eq_of_stylesheet_eq h
    have hdocument : Declaration.ofTheme a = Declaration.ofTheme b := by
      rw [← documentDeclarations_rules, hrules, documentDeclarations_rules]
    have hcategories := filterMap_rules a
    rw [hrules, filterMap_rules] at hcategories
    have hinjective : Function.Injective fun entry : Category × Style =>
        (entry.1, Declaration.ofStyle entry.2) :=
      Function.injective_id.prodMap Declaration.ofStyle_injective
    rcases Declaration.colors_of_ofTheme_eq hdocument with ⟨hdefault, hbackground⟩
    exact ⟨hdefault, hbackground, (List.map_injective_iff.mpr hinjective hcategories).symm⟩
  · intro h
    rcases h with ⟨hdefault, hbackground, hstyles⟩
    have hdocument : Declaration.ofTheme a = Declaration.ofTheme b := by
      rw [Declaration.ofTheme, Declaration.ofTheme, hdefault, hbackground]
    rw [stylesheet, stylesheet, rules, rules, documentRules, documentRules, hdocument, hstyles]

end Css
end Highlighting
