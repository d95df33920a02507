import Highlighting.Latex.Escape
import Highlighting.Number.Numeral
import Highlighting.Options.Basic
import Highlighting.Token.Basic

/-!
# LaTeX listings

A document as verbatim material in which macros are expanded. Every token that is not normal text
is the argument of the macro named by the short code of its category, and every line is followed
by a line end. The language of a document does not show.
-/

namespace Highlighting
namespace Latex
namespace Listing

/-- Declaration of the command characters: backslash, opening brace and closing brace. -/
def commandCharacters : List Char :=
  "commandchars=\\\\\\\x7b\\\x7d".toList

def token (t : Token) : List Char :=
  if t.category = .normal then escapeChars t.text.toList
  else '\\' :: (t.category.short.toList ++ '{' :: (escapeChars t.text.toList ++ ['}']))

def line (tokens : List Token) : List Char :=
  tokens.flatMap token ++ ['\n']

def body (document : Document) : List Char :=
  document.flatMap line

def environmentOptions (config : Config) : List Char :=
  (if config.numberLines then
    "numbers=left,".toList ++
      if config.numberFrom ≠ 1 then
        "firstnumber=".toList ++ Numeral.ofInt config.numberFrom ++ [',']
      else []
  else []) ++ commandCharacters

def header (config : Config) : List Char :=
  if config.inline then "\\Verb[".toList ++ commandCharacters ++ [']', '{']
  else "\\begin\x7bVerbatim\x7d[".toList ++ environmentOptions config ++ [']', '\n']

def footer (config : Config) : List Char :=
  if config.inline then ['}'] else "\\end\x7bVerbatim\x7d".toList

end Listing

def listing (config : Config) (document : Document) : String :=
  String.ofList (Listing.header config ++ Listing.body document ++ Listing.footer config)

end Latex
end Highlighting
