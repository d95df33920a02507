import Highlighting.Color.Basic
import Highlighting.Data.Assoc
import Highlighting.Data.Candidate
import Highlighting.Token.Category

/-!
# Themes

A style says how the tokens of one category are displayed; every part of it may be left unset. A
theme gives styles to some categories, in an order that style sheets follow, and optionally sets
the colors of the document. Its table never repeats a category: a later style for a category
replaces the earlier one in its place.
-/

namespace Highlighting

structure Style where
  color : Option Color := none
  background : Option Color := none
  bold : Bool := false
  italic : Bool := false
  underline : Bool := false
  deriving DecidableEq, Hashable, Repr

namespace Style

def plain : Style := {}

def isPlain (style : Style) : Bool :=
  style.color.isNone && style.background.isNone &&
    !(style.bold || style.italic || style.underline)

end Style

structure Theme where
  name : String
  defaultColor : Option Color
  backgroundColor : Option Color
  styles : Table Category Style
  deriving DecidableEq, Hashable, Repr

inductive EntryError where
  | key (argument : Argument)
  | style (argument : Argument)
  deriving Repr

namespace EntryError

def message : EntryError → String
  | .key argument => "Theme keys must be TokenType, got " ++ argument.describe
  | .style argument => "Theme values must be TokenStyle, got " ++ argument.describe

end EntryError

namespace Theme

abbrev Entry := Candidate Category × Candidate Style

def checkEntry (entry : Entry) : Except EntryError (Category × Style) := do
  let category ← entry.1.check EntryError.key
  let style ← entry.2.check EntryError.style
  return (category, style)

def ofEntries (name : String) (defaultColor backgroundColor : Option Color)
    (entries : List Entry) : Except EntryError Theme := do
  let checked ← entries.mapM checkEntry
  return ⟨name, defaultColor, backgroundColor, Table.ofList checked⟩

/-- Gives a key a candidate style; a proper category keeps its place, a stray key is new. -/
def insertEntry (entry : Entry) : List Entry → List Entry
  | [] => [entry]
  | first :: rest =>
      match first.1, entry.1 with
      | .fit c, .fit d =>
          if c = d then (first.1, entry.2) :: rest else first :: insertEntry entry rest
      | _, _ => first :: insertEntry entry rest

/-- Entries of a mapping filled from left to right: a category occurs once, with its last style. -/
def mappingEntries (entries : List Entry) : List Entry :=
  entries.foldl (fun mapping entry => insertEntry entry mapping) []

def ofMapping (name : String) (defaultColor backgroundColor : Option Color)
    (entries : List Entry) : Except EntryError Theme :=
  ofEntries name defaultColor backgroundColor (mappingEntries entries)

def styleFor (theme : Theme) (category : Category) : Style :=
  (theme.styles.find? category).getD .plain

def visibleStyles (theme : Theme) : List (Category × Style) :=
  theme.styles.entries.filter fun entry => entry.1 ≠ .normal

end Theme
end Highlighting
