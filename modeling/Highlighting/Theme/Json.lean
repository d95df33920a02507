import Highlighting.Json.Parser
import Highlighting.Json.Printer
import Highlighting.Theme.Data

/-!
# Theme files

Themes as JSON text. Writing orders the fields by name, so that equal themes have equal text;
reading reports what is wrong with the text or with the data in it.
-/

namespace Highlighting
namespace Theme

def jsonChars (layout : Json.Layout) (theme : Theme) : List Char :=
  Json.print layout theme.toValue

/-- JSON text of a theme, compact where no indentation is given. -/
def toJson (theme : Theme) (indent : Option Int) : String :=
  String.ofList (theme.jsonChars (Json.Layout.ofIndent indent))

def ofJsonChars (cs : List Char) : Except ThemeError Theme :=
  match Json.parse cs with
  | .error e => .error ⟨.invalidJson e, ""⟩
  | .ok value => ofValue value

def ofJson (text : String) : Except ThemeError Theme :=
  ofJsonChars text.toList

end Theme
end Highlighting
