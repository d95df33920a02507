import Highlighting.Html.Entity

/-!
# HTML fragments

A fragment is a forest of elements and text: each node is followed by the rest of the forest, and
an element has a forest as its body. Rendering is the only place where a fragment becomes
characters; there, text and attribute values are escaped and every element is closed.
-/

namespace Highlighting
namespace Html

inductive Tag where
  | code
  | span
  | pre
  | table
  | row
  | cell
  | anchor
  deriving DecidableEq, Repr

def Tag.name : Tag → String
  | .code => "code"
  | .span => "span"
  | .pre => "pre"
  | .table => "table"
  | .row => "tr"
  | .cell => "td"
  | .anchor => "a"

/-- Attributes that listings use, with their values before escaping. -/
inductive Attribute where
  | classes (value : String)
  | title (value : String)
  | onclick (value : String)
  | identifier (value : String)
  deriving DecidableEq, Repr

namespace Attribute

def name : Attribute → String
  | .classes _ => "class"
  | .title _ => "title"
  | .onclick _ => "onclick"
  | .identifier _ => "id"

def value : Attribute → String
  | .classes v => v
  | .title v => v
  | .onclick v => v
  | .identifier v => v

def render (a : Attribute) : List Char :=
  ' ' :: (a.name.toList ++ '=' :: '"' :: (escapeChars a.value.toList ++ ['"']))

end Attribute

inductive Fragment where
  | empty
  | text (content : String) (rest : Fragment)
  | element (tag : Tag) (attributes : List Attribute) (body rest : Fragment)
  deriving Repr, Inhabited

namespace Fragment

def openTag (tag : Tag) (attributes : List Attribute) : List Char :=
  '<' :: (tag.name.toList ++ attributes.flatMap Attribute.render ++ ['>'])

def closeTag (tag : Tag) : List Char :=
  '<' :: '/' :: (tag.name.toList ++ ['>'])

def render : Fragment → List Char
  | .empty => []
  | .text content rest => escapeChars content.toList ++ rest.render
  | .element tag attributes body rest =>
      openTag tag attributes ++ body.render ++ closeTag tag ++ rest.render

def single (tag : Tag) (attributes : List Attribute) (body : Fragment) : Fragment :=
  .element tag attributes body .empty

end Fragment
end Html
end Highlighting
