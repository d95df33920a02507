import Highlighting.Css.Stylesheet
import Highlighting.Error
import Highlighting.Latex.Preamble
import Highlighting.Listing
import Highlighting.Theme.Json
import Highlighting.Proofs.Html.Markup
import Highlighting.Proofs.Html.Entity
import Highlighting.Proofs.Html.Elements
import Highlighting.Proofs.Html.Structure
import Highlighting.Proofs.Latex.Containment
import Highlighting.Proofs.Latex.Escape
import Highlighting.Proofs.Latex.Decoding
import Highlighting.Proofs.Latex.Macros
import Highlighting.Proofs.Data.Assoc
import Highlighting.Proofs.Json.Strings
import Highlighting.Proofs.Json.Values
import Highlighting.Proofs.Color.Hex
import Highlighting.Proofs.Color.Decimals
import Highlighting.Proofs.Theme.RoundTrip
import Highlighting.Proofs.Data.PrefixCode
import Highlighting.Proofs.Data.Lines
import Highlighting.Proofs.Html.Decoding
import Highlighting.Proofs.Json.Extension
import Highlighting.Proofs.Theme.Damage
import Highlighting.Proofs.Data.Report
import Highlighting.Proofs.Theme.Defects
import Highlighting.Proofs.Number.Numeral
import Highlighting.Proofs.Html.Numbering
import Highlighting.Proofs.Latex.Numbering
import Highlighting.Proofs.Latex.Unescaping
import Highlighting.Proofs.Css.Coverage
import Highlighting.Proofs.Listing.Items
import Highlighting.Proofs.Listing.Writing
import Highlighting.Proofs.Listing.Options
import Highlighting.Proofs.Css.Decoding
import Highlighting.Proofs.Number.Rounding
import Highlighting.Proofs.Color.Hundredths
import Highlighting.Proofs.Latex.Preamble
import Highlighting.Proofs.Text.Replacement
import Highlighting.Proofs.Html.Escaping
import Highlighting.Proofs.Options.Resolution
import Highlighting.Proofs.Options.Canonical
import Highlighting.Proofs.Options.Concatenation
import Highlighting.Proofs.Color.Grammar
import Highlighting.Proofs.Theme.Construction
import Highlighting.Proofs.Json.Delimited
import Highlighting.Proofs.Json.Splitting
import Highlighting.Proofs.Json.Fields
import Highlighting.Proofs.Theme.Spellings
import Highlighting.Proofs.Json.Regions
import Highlighting.Proofs.Theme.FileLayout
import Highlighting.Proofs.Theme.FieldOrder
import Highlighting.Proofs.Latex.Nesting
import Highlighting.Proofs.Text.Deletion
import Highlighting.Proofs.Html.Decorations
import Highlighting.Proofs.Html.Undecorated
import Highlighting.Proofs.Text.Quoted
import Highlighting.Proofs.Token.Description
import Highlighting.Proofs.Text.LowerCase
import Highlighting.Proofs.Theme.Lookup
