import Highlighting.Css.Stylesheet
import Highlighting.Listing
import Highlighting.Proofs.Color.Hex
import Highlighting.Proofs.Html.Structure
import Highlighting.Proofs.Latex.Macros
import Mathlib.Data.List.Forall2

/-!
# Coverage of themes

The style sheet and the preamble of a theme style the same categories: those that the theme covers,
without normal text, each on one line and in the order of the theme. The rules of the style sheet
fit the spans of a listing, so that exactly one of them applies to a span whose category is covered,
and none to any other span.
-/

namespace Highlighting

/-! ## Covered categories -/

namespace Theme

/-- Categories that a theme covers, in its order, without normal text. -/
def covered (theme : Theme) : List Category :=
  (Assoc.keys theme.styles.entries).filter fun category => category ≠ .normal

theorem map_visibleStyles (theme : Theme) : theme.visibleStyles.map Prod.fst = theme.covered := by
  rw [covered, Assoc.keys, List.filter_map]
  rfl

theorem nodup_covered (theme : Theme) : theme.covered.Nodup :=
  theme.styles.nodup_keys.filter _

end Theme

/-! ## Lines of a style sheet -/

namespace Css

def documentHead : List Char :=
  "pre > code \x7b".toList

def ruleHead (category : Category) : List Char :=
  "code > span.".toList ++ category.short.toList ++ " \x7b".toList

theorem rule_begins (rule : Rule) : rule.selector.render ++ " \x7b".toList <+: rule.render := by
  have hopen : " \x7b".toList = [' ', '{'] := by
    decide
  refine ⟨' ' :: (rule.declarations.flatMap Declaration.render ++ ['}']), ?_⟩
  rw [hopen, Rule.render, List.append_assoc]
  rfl

theorem documentRule_begins (declarations : List Declaration) :
    documentHead <+: Rule.render ⟨.document, declarations⟩ := by
  have hhead : documentHead = Selector.document.render ++ " \x7b".toList := by
    decide
  rw [hhead]
  exact rule_begins ⟨.document, declarations⟩

theorem categoryRule_begins (category : Category) (declarations : List Declaration) :
    ruleHead category <+: Rule.render ⟨.category category, declarations⟩ :=
  rule_begins ⟨.category category, declarations⟩

theorem not_mem_declaration (declaration : Declaration) : '\n' ∉ declaration.render := by
  have hhex : ∀ value : Color, '\n' ∉ value.hexChars :=
    Color.not_mem_hexChars (by decide) (by decide)
  cases declaration with
  | color value =>
      exact List.not_mem_append (List.not_mem_append (by decide) (hhex value)) (by decide)
  | backgroundColor value =>
      exact List.not_mem_append (List.not_mem_append (by decide) (hhex value)) (by decide)
  | boldWeight =>
      decide
  | italicStyle =>
      decide
  | underline =>
      decide

theorem not_mem_selector {c : Char} (hlower : c.isLower = false)
    (hwords : c ∉ "pre > code".toList ++ "code > span.".toList) (selector : Selector) :
    c ∉ selector.render := by
  rw [List.mem_append, not_or] at hwords
  cases selector with
  | document =>
      exact hwords.1
  | category k =>
      exact List.not_mem_append hwords.2 (Category.not_mem_short hlower k)

theorem not_mem_rule (rule : Rule) : '\n' ∉ rule.render := by
  have hdeclarations : '\n' ∉ rule.declarations.flatMap Declaration.render := by
    intro hmem
    rcases List.mem_flatMap.mp hmem with ⟨declaration, _, hchar⟩
    exact not_mem_declaration declaration hchar
  have hselector : '\n' ∉ rule.selector.render :=
    not_mem_selector (by decide) (by decide) rule.selector
  simp [Rule.render, hselector, hdeclarations]

theorem documentRules_cases (theme : Theme) :
    documentRules theme = [] ∧ theme.defaultColor = none ∧ theme.backgroundColor = none ∨
      ∃ declarations, documentRules theme = [⟨.document, declarations⟩] ∧
        ¬ (theme.defaultColor = none ∧ theme.backgroundColor = none) := by
  unfold documentRules Declaration.ofTheme
  cases theme.defaultColor with
  | none =>
      cases theme.backgroundColor with
      | none =>
          exact Or.inl ⟨rfl, rfl, rfl⟩
      | some background =>
          exact Or.inr ⟨_, rfl, by simp⟩
  | some color =>
      exact Or.inr ⟨_, rfl, by simp⟩

def documentLines (theme : Theme) : List (List Char) :=
  (documentRules theme).map Rule.render

theorem documentLines_colored (theme : Theme) :
    (documentLines theme).length ≤ 1 ∧
      (documentLines theme = [] ↔ theme.defaultColor = none ∧ theme.backgroundColor = none) ∧
      ∀ line ∈ documentLines theme, documentHead <+: line := by
  unfold documentLines
  rcases documentRules_cases theme with ⟨hnone, hcolors⟩ | ⟨declarations, hone, hcolors⟩
  · rw [hnone]
    exact ⟨Nat.zero_le 1, by simp [hcolors], by simp⟩
  · rw [hone]
    refine ⟨Nat.le_refl 1, by simp [hcolors], ?_⟩
    intro line hline
    rw [List.map_singleton, List.mem_singleton] at hline
    rw [hline]
    exact documentRule_begins declarations

def categoryLines (theme : Theme) : List (List Char) :=
  theme.visibleStyles.map fun entry =>
    Rule.render ⟨.category entry.1, Declaration.ofStyle entry.2⟩

theorem map_render_rules (theme : Theme) :
    (rules theme).map Rule.render = documentLines theme ++ categoryLines theme := by
  rw [rules, List.map_append, List.map_map]
  rfl

theorem splitOn_stylesheet (theme : Theme) :
    (stylesheet theme).toList.splitOn '\n' =
      documentLines theme ++ categoryLines theme ++ [[]] := by
  have hlines : ∀ line ∈ (rules theme).map Rule.render, '\n' ∉ line := by
    intro line hline
    rcases List.mem_map.mp hline with ⟨rule, _, rfl⟩
    exact not_mem_rule rule
  rw [← map_render_rules, stylesheet, String.toList_ofList, ← splitOn_flatMap_ended hlines,
    List.flatMap_map]

theorem forall₂_categoryLines (theme : Theme) :
    List.Forall₂ (fun line category => ruleHead category <+: line) (categoryLines theme)
      theme.covered := by
  rw [categoryLines, ← theme.map_visibleStyles, List.forall₂_map_left_iff,
    List.forall₂_map_right_iff, List.forall₂_same]
  intro entry _
  exact categoryRule_begins entry.1 (Declaration.ofStyle entry.2)

/-!
## Rules that apply

A rule is read from its line: in front of the brace stands a parent and the elements in it, either
by their name alone or with one of their classes.
-/

def selectorOf (line : List Char) : List Char :=
  (line.takeWhile fun c => c ≠ '{').dropLast

def classesOf (e : Html.Element) : List (List Char) :=
  (e.attribute? "class").elim [] fun value => value.toList.splitOn ' '

/-- Whether the rule on a line applies to an element in its parent. -/
def applies (line : List Char) (parent child : Html.Element) : Bool :=
  let named := parent.name.toList ++ " > ".toList ++ child.name.toList
  selectorOf line = named ∨ ∃ c ∈ classesOf child, selectorOf line = named ++ '.' :: c

theorem selectorOf_rule (rule : Rule) : selectorOf rule.render = rule.selector.render := by
  have hselector : '{' ∉ rule.selector.render :=
    not_mem_selector (by decide) (by decide) rule.selector
  have hbrace : '{' ∉ rule.selector.render ++ [' '] :=
    List.not_mem_append hselector (by decide)
  have hrender : rule.render = (rule.selector.render ++ [' ']) ++
      '{' :: ' ' :: (rule.declarations.flatMap Declaration.render ++ ['}']) := by
    rw [Rule.render, List.append_assoc, List.singleton_append]
  rw [selectorOf, hrender, takeWhile_ne_append hbrace, List.dropLast_concat]

theorem classesOf_spanOf (config : Config) (token : Token) :
    classesOf (Html.Listing.spanOf config token) = [token.category.short.toList] := by
  have hsplit : ∀ category ∈ Category.all,
      category.short.toList.splitOn ' ' = [category.short.toList] := by
    decide
  rw [classesOf, Html.Listing.attribute?_spanOf, Html.Listing.escape_short]
  exact hsplit token.category (Category.mem_all token.category)

theorem render_ne_unclassed (selector : Selector) : selector.render ≠ "code > span".toList := by
  have hcategory : ∀ category ∈ Category.all,
      (Selector.category category).render ≠ "code > span".toList := by
    decide
  cases selector with
  | document =>
      decide
  | category k =>
      exact hcategory k (Category.mem_all k)

theorem render_injective {first second : Selector} (h : first.render = second.render) :
    first = second := by
  have hdocument : ∀ category ∈ Category.all,
      Selector.document.render ≠ (Selector.category category).render := by
    decide
  cases first with
  | document =>
      cases second with
      | document =>
          rfl
      | category k =>
          exact absurd h (hdocument k (Category.mem_all k))
  | category k =>
      cases second with
      | document =>
          exact absurd h.symm (hdocument k (Category.mem_all k))
      | category l =>
          have hshort : k.short.toList = l.short.toList := List.append_cancel_left h
          rw [Category.short_injective (String.toList_injective hshort)]

/-- In a `code` element a rule applies to the spans of its category. -/
theorem applies_spanOf {code : Html.Element} (hcode : code.name = "code") (config : Config)
    (rule : Rule) (token : Token) :
    applies rule.render code (Html.Listing.spanOf config token) =
      decide (rule.selector = .category token.category) := by
  have hspan : (Html.Listing.spanOf config token).name = "span" := rfl
  have hnamed : "code".toList ++ " > ".toList ++ "span".toList = "code > span".toList := by
    decide
  have hclassed : "code > span".toList ++ '.' :: token.category.short.toList =
      (Selector.category token.category).render := rfl
  unfold applies
  rw [selectorOf_rule, classesOf_spanOf, hcode, hspan, hnamed, decide_eq_decide]
  simp only [List.mem_singleton, exists_eq_left, hclassed, render_ne_unclassed, false_or]
  constructor
  · exact render_injective
  · intro h
    rw [h]

def countApplying (text : List Char) (parent child : Html.Element) : Nat :=
  (text.splitOn '\n').countP fun line => applies line parent child

theorem countApplying_stylesheet {code : Html.Element} (hcode : code.name = "code")
    (theme : Theme) (config : Config) (token : Token) :
    countApplying (stylesheet theme).toList code (Html.Listing.spanOf config token) =
      if token.category ∈ theme.covered then 1 else 0 := by
  have hlast : applies [] code (Html.Listing.spanOf config token) = false := by
    simp [applies, selectorOf]
  have hdocument : (documentLines theme).countP
      (fun line => applies line code (Html.Listing.spanOf config token)) = 0 := by
    unfold documentLines
    rcases documentRules_cases theme with ⟨hnone, _⟩ | ⟨declarations, hone, _⟩
    · rw [hnone]
      rfl
    · have happlies := applies_spanOf hcode config ⟨.document, declarations⟩ token
      rw [hone]
      simp [happlies]
  have hcategories : (categoryLines theme).countP
      (fun line => applies line code (Html.Listing.spanOf config token)) =
        theme.covered.count token.category := by
    rw [categoryLines, ← theme.map_visibleStyles, List.countP_map, List.count, List.countP_map]
    apply List.countP_congr
    intro entry _
    simp [applies_spanOf hcode]
  -- A theme covers no category twice, so that the rules for one are counted at most once.
  rw [countApplying, splitOn_stylesheet, List.countP_append, List.countP_append, hdocument,
    hcategories, theme.nodup_covered.count]
  simp [hlast]

end Css

/-! ## Lines of a preamble -/

namespace Latex
namespace Preamble

def shadeHead : List Char :=
  "\\definecolor\x7bshadecolor\x7d\x7bRGB\x7d\x7b".toList

theorem shadeColor_begins (color : Color) : shadeHead <+: shadeColor color :=
  (List.prefix_append shadeHead _).trans (List.prefix_append _ _)

def shadeLines (theme : Theme) : List (List Char) :=
  theme.backgroundColor.toList.map shadeColor

theorem shadeLines_colored (theme : Theme) :
    (shadeLines theme).length ≤ 1 ∧
      (shadeLines theme = [] ↔ theme.backgroundColor = none) ∧
      ∀ line ∈ shadeLines theme, shadeHead <+: line := by
  unfold shadeLines
  cases theme.backgroundColor with
  | none =>
      exact ⟨Nat.zero_le 1, by simp, by simp⟩
  | some color =>
      exact ⟨Nat.le_refl 1, by simp, by simp [shadeColor_begins]⟩

def macroLines (theme : Theme) : List (List Char) :=
  theme.visibleStyles.map fun entry => macroChars entry.1 entry.2

theorem splitOn_preamble (theme : Theme) :
    (preamble theme).toList.splitOn '\n' =
      packages ++ shadeLines theme ++ macroLines theme ++ [[]] := by
  rw [preamble, String.toList_ofList, splitOn_flatMap_ended fun line hline => not_mem_lines hline]
  rfl

theorem forall₂_macroLines (theme : Theme) :
    List.Forall₂ (fun line category => definitionHead category <+: line) (macroLines theme)
      theme.covered := by
  rw [macroLines, ← theme.map_visibleStyles, List.forall₂_map_left_iff,
    List.forall₂_map_right_iff, List.forall₂_same]
  intro entry _
  exact ⟨definitionTail entry.2, (macroChars_eq entry.1 entry.2).symm⟩

end Preamble
end Latex

/-! ## Spans of a listing -/

namespace Html
namespace Listing

/-- The spans of a listing are the elements of its `code` element. -/
theorem filter_span_surround (config : Config) (language : String) (document : Document) :
    let code := codeElement config language document
    (surround config document.length code).descendants.filter (fun e => e.name = "span") =
      code.body.children := by
  intro code
  have hchildren : code.body.descendants = code.body.children := descendants_lines config document
  have hspans : code.body.descendants.filter (fun e => e.name = "span") =
      code.body.descendants := by
    rw [List.filter_eq_self]
    intro e he
    exact decide_eq_true (mem_descendants_codeElement he)
  have hcode : code.name = "code" := rfl
  rcases descendants_surround config document.length code with ⟨outer, hdescendants, houter⟩
  rw [hdescendants, List.filter_append, filter_name_outer houter (by decide), List.filter_cons,
    hspans, hchildren]
  simp [hcode]

theorem map_countApplying (theme : Theme) (config : Config) (language : String)
    (document : Document) :
    let code := codeElement config language document
    code.body.children.map (Css.countApplying (Css.stylesheet theme).toList code) =
      (spanned document.flatten).map fun token =>
        if token.category ∈ theme.covered then 1 else 0 := by
  intro code
  have hchildren : code.body.children = (spanned document.flatten).map (spanOf config) :=
    children_lines config document
  rw [hchildren, List.map_map]
  apply List.map_congr_left
  intro token _
  exact Css.countApplying_stylesheet rfl theme config token

end Listing
end Html

namespace Theme

/--
The style sheet and the preamble of a theme style the covered categories, each on one line and in
the order of the theme, behind the lines for the colors of the document. In a listing, one rule of
the style sheet applies to a span whose category is covered, and none to any other span.
-/
theorem covered_styled (theme : Theme) :
    theme.covered.Nodup ∧
    (∃ documentLines categoryLines : List (List Char),
      (Css.stylesheet theme).toList.splitOn '\n' = documentLines ++ categoryLines ++ [[]] ∧
      documentLines.length ≤ 1 ∧
      (documentLines = [] ↔ theme.defaultColor = none ∧ theme.backgroundColor = none) ∧
      (∀ line ∈ documentLines, Css.documentHead <+: line) ∧
      List.Forall₂ (fun line category => Css.ruleHead category <+: line) categoryLines
        theme.covered) ∧
    (∃ shadeLines macroLines : List (List Char),
      (Latex.preamble theme).toList.splitOn '\n' =
        Latex.Preamble.packages ++ shadeLines ++ macroLines ++ [[]] ∧
      shadeLines.length ≤ 1 ∧
      (shadeLines = [] ↔ theme.backgroundColor = none) ∧
      (∀ line ∈ shadeLines, Latex.Preamble.shadeHead <+: line) ∧
      List.Forall₂ (fun line category => Latex.definitionHead category <+: line) macroLines
        theme.covered) ∧
    ∀ (config : Config) (language : String) (document : Document),
      ∃ (markup : Html.Markup) (code : Html.Element),
        Html.Markup.read (OutputFormat.html.listing config language document).toList =
          some markup ∧
        code ∈ markup.descendants ∧
        code.name = "code" ∧
        markup.descendants.filter (fun e => e.name = "span") = code.body.children ∧
        code.body.children.map (Css.countApplying (Css.stylesheet theme).toList code) =
          (Html.Listing.spanned document.flatten).map fun token =>
            if token.category ∈ theme.covered then 1 else 0 := by
  refine ⟨theme.nodup_covered, ?_, ?_, ?_⟩
  · rcases Css.documentLines_colored theme with ⟨hone, hcolors, hhead⟩
    exact ⟨Css.documentLines theme, Css.categoryLines theme, Css.splitOn_stylesheet theme, hone,
      hcolors, hhead, Css.forall₂_categoryLines theme⟩
  · rcases Latex.Preamble.shadeLines_colored theme with ⟨hone, hcolor, hhead⟩
    exact ⟨Latex.Preamble.shadeLines theme, Latex.Preamble.macroLines theme,
      Latex.Preamble.splitOn_preamble theme, hone, hcolor, hhead,
      Latex.Preamble.forall₂_macroLines theme⟩
  · intro config language document
    let code := Html.Listing.codeElement config language document
    have hcode : code ∈ (Html.Listing.surround config document.length code).descendants := by
      rcases Html.Listing.descendants_surround config document.length code with
        ⟨outer, hdescendants, _⟩
      rw [hdescendants]
      exact List.mem_append_right outer List.mem_cons_self
    exact ⟨Html.Listing.surround config document.length code, code,
      Html.Listing.read_listing config language document, hcode, rfl,
      Html.Listing.filter_span_surround config language document,
      Html.Listing.map_countApplying theme config language document⟩

end Theme
end Highlighting
