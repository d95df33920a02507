import Highlighting.Html.Listing
import Highlighting.Latex.Listing
import Highlighting.Options.Settings
import Highlighting.Text.Builder

/-!
# Writing listings

Both formats write their listings from left to right into a text builder. An item is checked just
before it is written, so that an improper one ends the writing, and a flag is tested for its truth
whenever the writing depends on it.
-/

namespace Highlighting

/-- Writes the items of a line; an improper one ends the writing. -/
def writeItems (put : TextBuilder → Token → TextBuilder) (builder : TextBuilder)
    (line : List Item) : Except InvalidToken TextBuilder :=
  line.foldlM (fun builder item => item.toToken.map (put builder)) builder

/-! ## HTML -/

namespace Html
namespace Listing

def writeToken (settings : Settings) (builder : TextBuilder) (token : Token) : TextBuilder :=
  let text := escape token.text
  if token.category = .normal then builder.append text
  else
    let opened := builder.append ("<span class=\"" ++ token.category.short ++ "\"")
    let titled :=
      if settings.titleAttributes.isTruthy then
        opened.append (" title=\"" ++ token.category.title ++ "\"")
      else opened
    ((titled.append ">").append text).append "</span>"

def writeLines (settings : Settings) (builder : TextBuilder) :
    List (List Item) → Except InvalidToken TextBuilder
  | [] => .ok builder
  | first :: rest => do
      let builder ← writeItems (writeToken settings) builder first
      rest.foldlM (fun builder line => writeItems (writeToken settings) (builder.append "\n") line)
        builder

def writeCode (settings : Settings) (language : String) (lines : List (List Item)) :
    Except InvalidToken TextBuilder := do
  let opened := TextBuilder.empty.append
    ("<code class=\"" ++ escape (codeClass ++ " " ++ language) ++ "\">")
  let builder ← writeLines settings opened lines
  return builder.append "</code>"

def writeNumber (settings : Settings) (builder : TextBuilder) (n : Int) : TextBuilder :=
  let numeral := Numeral.text n
  let entered :=
    if settings.lineAnchors.isTruthy then
      builder.append ("<a id=\"" ++ numeral ++ "\">" ++ numeral ++ "</a>")
    else builder.append numeral
  entered.append "\n"

def writeNumbers (settings : Settings) (count : Nat) (builder : TextBuilder) : TextBuilder :=
  let opened := builder.append ("<td class=\"lineNumbers\" title=\"" ++ escape toggleTitle ++
    "\" onclick=\"" ++ escape toggleScript ++ "\">")
  let numbers := (List.range count).map fun i : Nat => settings.numberFrom + i
  (numbers.foldl (writeNumber settings) (opened.append "<pre>")).append "</pre></td>"

def writeBlock (code : String) (builder : TextBuilder) : TextBuilder :=
  ((builder.append ("<pre class=\"" ++ codeClass ++ "\">")).append code).append "</pre>"

def layOut (settings : Settings) (count : Nat) (code : String) : String :=
  if settings.inline.isTruthy then code
  else if settings.numberLines.isTruthy then
    let opened := TextBuilder.empty.append
      ("<table class=\"" ++ codeClass ++ "\"><tr class=\"" ++ codeClass ++ "\">")
    let numbered := writeNumbers settings count opened
    let coded := writeBlock code (numbered.append ("<td class=\"" ++ codeClass ++ "\">"))
    (coded.append "</td></tr></table>").build
  else (writeBlock code TextBuilder.empty).build

def write (settings : Settings) (language : String) (lines : List (List Item)) :
    Except InvalidToken String :=
  ((writeCode settings language lines).map TextBuilder.build).map (layOut settings lines.length)

end Listing
end Html

/-! ## LaTeX -/

namespace Latex
namespace Listing

def writeToken (builder : TextBuilder) (token : Token) : TextBuilder :=
  let text := escape token.text
  if token.category = .normal then builder.append text
  else ((builder.append ("\\" ++ token.category.short ++ "\x7b")).append text).append "\x7d"

def writeLines (builder : TextBuilder) (lines : List (List Item)) :
    Except InvalidToken TextBuilder :=
  lines.foldlM (fun builder line =>
    (writeItems writeToken builder line).map fun builder => builder.appendLine "") builder

def bracketOptions (settings : Settings) : String :=
  let numbering : List String :=
    if settings.numberLines.isTruthy then
      "numbers=left," ::
        if settings.numberFrom ≠ 1 then
          ["firstnumber=" ++ Numeral.text settings.numberFrom ++ ","]
        else []
    else []
  String.join (numbering ++ [String.ofList commandCharacters])

def write (settings : Settings) (lines : List (List Item)) : Except InvalidToken String :=
  if settings.inline.isTruthy then
    let opened := TextBuilder.empty.append
      ("\\Verb[" ++ String.ofList commandCharacters ++ "]\x7b")
    (writeLines opened lines).map fun builder => (builder.append "\x7d").build
  else
    let opened := ((TextBuilder.empty.append "\\begin\x7bVerbatim\x7d[").append
      (bracketOptions settings)).append "]\n"
    (writeLines opened lines).map fun builder => (builder.append "\\end\x7bVerbatim\x7d").build

end Listing
end Latex
end Highlighting
