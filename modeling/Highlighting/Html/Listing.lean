import Highlighting.Html.Fragment
import Highlighting.Number.Numeral
import Highlighting.Options.Basic
import Highlighting.Token.Basic

/-!
# HTML listings

A document as HTML. Every token that is not normal text becomes a span whose class is the short
code of its category; lines are joined by line ends inside one `code` element. An inline listing is
that element alone, a numbered one is a table with a column of line numbers, and any other is a
`pre` element.
-/

namespace Highlighting
namespace Html
namespace Listing

def codeClass : String := "sourceCode"

def toggleTitle : String := "Click to toggle line numbers"

def toggleScript : String :=
  "with (this.firstChild.style) \x7b display = (display == '') ? 'none' : '' \x7d"

/-! ## Code -/

def spanAttributes (config : Config) (category : Category) : List Attribute :=
  .classes category.short :: if config.titleAttributes then [.title category.title] else []

def tokenBefore (config : Config) (token : Token) (rest : Fragment) : Fragment :=
  if token.category = .normal then .text token.text rest
  else .element .span (spanAttributes config token.category) (.text token.text .empty) rest

def lineBefore (config : Config) (line : List Token) (rest : Fragment) : Fragment :=
  line.foldr (tokenBefore config) rest

/-- Lines of a document with line ends between them. -/
def lines (config : Config) : Document → Fragment
  | [] => .empty
  | [line] => lineBefore config line .empty
  | line :: next :: rest => lineBefore config line (.text "\n" (lines config (next :: rest)))

def code (config : Config) (language : String) (document : Document) : Fragment :=
  .single .code [.classes (codeClass ++ " " ++ language)] (lines config document)

/-! ## Line numbers -/

def numberBefore (config : Config) (n : Int) (rest : Fragment) : Fragment :=
  let numeral := Numeral.text n
  if config.lineAnchors then
    .element .anchor [.identifier numeral] (.text numeral .empty) (.text "\n" rest)
  else .text numeral (.text "\n" rest)

def numbers (config : Config) : Int → Nat → Fragment
  | _, 0 => .empty
  | start, count + 1 => numberBefore config start (numbers config (start + 1) count)

def gutter (config : Config) (count : Nat) (rest : Fragment) : Fragment :=
  .element .cell [.classes "lineNumbers", .title toggleTitle, .onclick toggleScript]
    (.single .pre [] (numbers config config.numberFrom count)) rest

/-! ## Layouts -/

def block (body : Fragment) : Fragment :=
  .single .pre [.classes codeClass] body

def numberedTable (config : Config) (count : Nat) (body : Fragment) : Fragment :=
  .single .table [.classes codeClass]
    (.single .row [.classes codeClass]
      (gutter config count (.single .cell [.classes codeClass] (block body))))

def fragment (config : Config) (language : String) (document : Document) : Fragment :=
  let body := code config language document
  if config.inline then body
  else if config.numberLines then numberedTable config document.length body
  else block body

end Listing

def listing (config : Config) (language : String) (document : Document) : String :=
  String.ofList (Listing.fragment config language document).render

end Html
end Highlighting
