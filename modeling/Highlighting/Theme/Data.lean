import Highlighting.Json.Fault
import Highlighting.Theme.Palette

/-!
# Themes as data

A theme as a data value and back. Colors are written as hexadecimal text, categories by their
title, and parts of a style that are not set are left out. Reading checks every part in a fixed
order and reports the first defect together with the path of the field that has it.
-/

namespace Highlighting

inductive ThemeDefect where
  | invalidJson (e : Json.SyntaxError)
  | notAnObject (kind : String)
  | notAText (value : Value)
  | notStyles
  | notAPair
  | unknownTitle (e : UnknownTitle)
  | unknownFields (names : List String)
  | notABool (value : Value)
  | invalidColor (value : Value)
  deriving Repr

namespace ThemeDefect

def message : ThemeDefect → String
  | .invalidJson e => "invalid JSON: " ++ e.message
  | .notAnObject kind => "expected an object, got " ++ kind
  | .notAText value => "expected a string, got " ++ value.describe
  | .notStyles => "expected a list or object"
  | .notAPair => "expected a [category, style] pair"
  | .unknownTitle e => e.message
  | .unknownFields names => "unknown style fields: " ++ String.intercalate ", " names
  | .notABool value => "expected a boolean, got " ++ value.describe
  | .invalidColor value => "invalid color " ++ value.describe

end ThemeDefect

/-- A defect with the path of its field; the path is empty for the theme as a whole. -/
structure ThemeError where
  defect : ThemeDefect
  path : String
  deriving Repr

namespace ThemeError

def located (path message : String) : String :=
  if path = "" then message else path ++ ": " ++ message

def message (e : ThemeError) : String :=
  located e.path e.defect.message

end ThemeError

/-! ## Writing -/

def Style.toValue (style : Style) : Value :=
  .object (
    (style.color.toList.map fun c => ("color", .text c.toHex)) ++
    (style.background.toList.map fun c => ("background", .text c.toHex)) ++
    (if style.bold then [("bold", .bool true)] else []) ++
    (if style.italic then [("italic", .bool true)] else []) ++
    (if style.underline then [("underline", .bool true)] else []))

namespace Theme

def colorValue : Option Color → Value
  | some c => .text c.toHex
  | none => .null

def entryValue (entry : Category × Style) : Value :=
  .list [.text entry.1.title, entry.2.toValue]

def toValue (theme : Theme) : Value :=
  .object [
    ("name", .text theme.name),
    ("default_color", colorValue theme.defaultColor),
    ("background_color", colorValue theme.backgroundColor),
    ("token_styles", .list (theme.styles.entries.map entryValue))]

end Theme

/-! ## Reading styles -/

def colorAt (path : String) (value : Value) : Except ThemeError Color :=
  match Color.parse? value with
  | some c => .ok c
  | none => .error ⟨.invalidColor value, path⟩

/-- Color of an optional field; a missing field and nothing mean no color. -/
def optionalColorAt (path : String) : Option Value → Except ThemeError (Option Color)
  | none => .ok none
  | some .null => .ok none
  | some value => (colorAt path value).map some

def flagAt (path : String) : Option Value → Except ThemeError Bool
  | none => .ok false
  | some (.bool b) => .ok b
  | some value => .error ⟨.notABool value, path⟩

namespace Style

def fieldNames : List String :=
  ["color", "background", "bold", "italic", "underline"]

def unknownFields (fields : List (String × Value)) : List String :=
  Assoc.sortTexts ((Assoc.keys fields).filter fun name => !fieldNames.contains name)

def fieldPath (path name : String) : String :=
  path ++ "." ++ name

def ofValue (path : String) : Value → Except ThemeError Style
  | .object fields => do
      if unknownFields fields ≠ [] then
        throw ⟨.unknownFields (unknownFields fields), path⟩
      let color ← optionalColorAt (fieldPath path "color") (Assoc.find? "color" fields)
      let background ←
        optionalColorAt (fieldPath path "background") (Assoc.find? "background" fields)
      let bold ← flagAt (fieldPath path "bold") (Assoc.find? "bold" fields)
      let italic ← flagAt (fieldPath path "italic") (Assoc.find? "italic" fields)
      let underline ← flagAt (fieldPath path "underline") (Assoc.find? "underline" fields)
      return ⟨color, background, bold, italic, underline⟩
  | value => .error ⟨.notAnObject value.kindName, path⟩

end Style

/-! ## Reading themes -/

namespace Theme

def entryPath (index : Nat) : String :=
  "token_styles[" ++ Numeral.text index ++ "]"

def entryOfValue (path : String) : Value → Except ThemeError (Category × Style)
  | .list [title, style] =>
      match Category.ofTitle title with
      | .error e => .error ⟨.unknownTitle e, path⟩
      | .ok category => (Style.ofValue path style).map fun s => (category, s)
  | _ => .error ⟨.notAPair, path⟩

def entriesOfValues : Nat → List Value → Except ThemeError (List (Category × Style))
  | _, [] => .ok []
  | index, value :: rest => do
      let entry ← entryOfValue (entryPath index) value
      let others ← entriesOfValues (index + 1) rest
      return entry :: others

def entryValues : Option Value → Except ThemeError (List Value)
  | none => .ok []
  | some (.list items) => .ok items
  | some (.object fields) => .ok (fields.map fun field => .list [.text field.1, field.2])
  | some _ => .error ⟨.notStyles, "token_styles"⟩

def nameOfValue : Option Value → Except ThemeError String
  | none => .ok ""
  | some (.text name) => .ok name
  | some value => .error ⟨.notAText value, "name"⟩

/-- Theme of data: name, styles, and then the colors of the document are checked. -/
def ofValue : Value → Except ThemeError Theme
  | .object fields => do
      let name ← nameOfValue (Assoc.find? "name" fields)
      let values ← entryValues (Assoc.find? "token_styles" fields)
      let entries ← entriesOfValues 0 values
      let defaultColor ← optionalColorAt "default_color" (Assoc.find? "default_color" fields)
      let backgroundColor ←
        optionalColorAt "background_color" (Assoc.find? "background_color" fields)
      return ⟨name, defaultColor, backgroundColor, Table.ofList entries⟩
  | value => .error ⟨.notAnObject value.kindName, ""⟩

end Theme
end Highlighting
