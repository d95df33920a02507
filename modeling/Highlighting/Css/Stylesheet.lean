import Highlighting.Theme.Palette

/-!
# Style sheets

The CSS of a theme: at most one rule for the colors of the document, then one rule for each
category that the theme covers, in the order of the theme. A part of a style that is not set
yields no declaration.
-/

namespace Highlighting
namespace Css

inductive Declaration where
  | color (value : Color)
  | backgroundColor (value : Color)
  | boldWeight
  | italicStyle
  | underline
  deriving DecidableEq, Repr

namespace Declaration

def render : Declaration → List Char
  | .color value => "color: ".toList ++ value.hexChars ++ [';', ' ']
  | .backgroundColor value => "background-color: ".toList ++ value.hexChars ++ [';', ' ']
  | .boldWeight => "font-weight: bold; ".toList
  | .italicStyle => "font-style: italic; ".toList
  | .underline => "text-decoration: underline; ".toList

def ofStyle (style : Style) : List Declaration :=
  (style.color.toList.map .color) ++
  (style.background.toList.map .backgroundColor) ++
  (if style.bold then [.boldWeight] else []) ++
  (if style.italic then [.italicStyle] else []) ++
  (if style.underline then [.underline] else [])

def ofTheme (theme : Theme) : List Declaration :=
  (theme.defaultColor.toList.map .color) ++
  (theme.backgroundColor.toList.map .backgroundColor)

end Declaration

/-- What a rule applies to: the document, or the spans of a category. -/
inductive Selector where
  | document
  | category (c : Category)
  deriving DecidableEq, Repr

def Selector.render : Selector → List Char
  | .document => "pre > code".toList
  | .category c => "code > span.".toList ++ c.short.toList

structure Rule where
  selector : Selector
  declarations : List Declaration
  deriving DecidableEq, Repr

def Rule.render (rule : Rule) : List Char :=
  rule.selector.render ++ ' ' :: '{' :: ' ' :: (rule.declarations.flatMap Declaration.render ++
    ['}'])

def documentRules (theme : Theme) : List Rule :=
  match Declaration.ofTheme theme with
  | [] => []
  | declarations => [⟨.document, declarations⟩]

def rules (theme : Theme) : List Rule :=
  documentRules theme ++
    theme.visibleStyles.map fun entry => ⟨.category entry.1, Declaration.ofStyle entry.2⟩

def stylesheet (theme : Theme) : String :=
  String.ofList ((rules theme).flatMap fun rule => rule.render ++ ['\n'])

end Css
end Highlighting
