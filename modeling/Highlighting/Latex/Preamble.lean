import Highlighting.Number.Numeral
import Highlighting.Theme.Palette

/-!
# LaTeX preambles

The declarations that a listing needs: packages, the color behind the code, and one macro for each
category that the theme covers. A macro wraps its argument in one layer for each part of the style
that is set, always in the same order.
-/

namespace Highlighting
namespace Latex

/-- A command that a macro wraps around its argument. -/
inductive Layer where
  | underline
  | italic
  | bold
  | background (color : Color)
  | foreground (color : Color)
  deriving DecidableEq, Repr

namespace Layer

def command : Layer → List Char
  | .underline => "\\underline".toList
  | .italic => "\\textit".toList
  | .bold => "\\textbf".toList
  | .background color => "\\colorbox[rgb]".toList ++ '{' :: (color.rgbChars ++ ['}'])
  | .foreground color => "\\textcolor[rgb]".toList ++ '{' :: (color.rgbChars ++ ['}'])

def wrap (layer : Layer) (body : List Char) : List Char :=
  layer.command ++ '{' :: (body ++ ['}'])

/-- Layers of a style, the outermost first. -/
def ofStyle (style : Style) : List Layer :=
  (if style.underline then [.underline] else []) ++
  (if style.italic then [.italic] else []) ++
  (if style.bold then [.bold] else []) ++
  (style.background.toList.map .background) ++
  (style.color.toList.map .foreground)

end Layer

namespace Preamble

def argument : List Char :=
  ['{', '#', '1', '}']

def macroBody (style : Style) : List Char :=
  (Layer.ofStyle style).foldr Layer.wrap argument

def macroChars (category : Category) (style : Style) : List Char :=
  "\\newcommand\x7b\\".toList ++ category.short.toList ++ "\x7d[1]\x7b".toList ++
    macroBody style ++ ['}']

def packages : List (List Char) :=
  ["\\usepackage\x7bcolor\x7d".toList, "\\usepackage\x7bframed\x7d".toList,
    "\\usepackage\x7bfancyvrb\x7d".toList]

def shadeColor (color : Color) : List Char :=
  "\\definecolor\x7bshadecolor\x7d\x7bRGB\x7d\x7b".toList ++
    Numeral.ofNat color.red.val ++ ',' :: (Numeral.ofNat color.green.val ++
      ',' :: (Numeral.ofNat color.blue.val ++ ['}']))

def lines (theme : Theme) : List (List Char) :=
  packages ++ theme.backgroundColor.toList.map shadeColor ++
    theme.visibleStyles.map fun entry => macroChars entry.1 entry.2

end Preamble

def macroDefinition (category : Category) (style : Style) : String :=
  String.ofList (Preamble.macroChars category style)

def preamble (theme : Theme) : String :=
  String.ofList ((Preamble.lines theme).flatMap fun line => line ++ ['\n'])

end Latex
end Highlighting
