import Highlighting.Error
import Highlighting.Writer

/-!
# Listings of untyped lines

Callers hand over lines of items, name the format of the listing and ask for a layout. The layout
is resolved first; then the listing is written, or the first improper item is reported. What is
written is the listing of the tokens that the items stand for.
-/

namespace Highlighting

inductive OutputFormat where
  | html
  | latex
  deriving DecidableEq, Repr

namespace OutputFormat

def listing (format : OutputFormat) (config : Config) (language : String)
    (document : Document) : String :=
  match format with
  | .html => Html.listing config language document
  | .latex => Latex.listing config document

def render (format : OutputFormat) (config : Config) (language : String)
    (lines : List (List Item)) : Except InvalidToken String :=
  (Document.ofItems lines).map (format.listing config language)

/-- Writes a listing from left to right and checks every item when its turn comes. -/
def write (format : OutputFormat) (settings : Settings) (language : String)
    (lines : List (List Item)) : Except InvalidToken String :=
  match format with
  | .html => Html.Listing.write settings language lines
  | .latex => Latex.Listing.write settings lines

/-- Listing in the layout that a request asks for, which is resolved before any line is read. -/
def respond (format : OutputFormat) (request : LayoutRequest) (language : String)
    (lines : List (List Item)) : Except Error String := do
  let settings ← request.resolve.mapError .option
  (format.write settings language lines).mapError .token

end OutputFormat
end Highlighting
