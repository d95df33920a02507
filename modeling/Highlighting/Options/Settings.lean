import Highlighting.Options.Basic

/-!
# Layout settings

The settings of a listing as its caller has given them. The kind of a flag is never checked:
whatever is given is kept, and tested for its truth wherever it is read. Settings that come from
options have truth values for flags. The configuration of settings has the truth of every flag.
-/

namespace Highlighting

structure Settings where
  numberLines : Argument := .data (.bool false)
  numberFrom : Int := 1
  lineAnchors : Argument := .data (.bool false)
  titleAttributes : Argument := .data (.bool false)
  inline : Argument := .data (.bool false)
  deriving Repr

namespace Settings

def argument (missing : Argument) (name : String) (fields : List (String × Argument)) : Argument :=
  (Assoc.find? name fields).getD missing

/-- Settings of named arguments; only the start number is checked, and other names are ignored. -/
def ofFields (fields : List (String × Argument)) : Except OptionError Settings :=
  let flag (f : Flag) := argument (.data (.bool false)) f.field fields
  (startNumber "number_from" (argument (.data (.int 1)) "number_from" fields)).map fun start => {
    numberLines := flag .numberLines
    numberFrom := start
    lineAnchors := flag .lineAnchors
    titleAttributes := flag .titleAttributes
    inline := flag .inline }

def ofConfig (config : Config) : Settings where
  numberLines := .data (.bool config.numberLines)
  numberFrom := config.numberFrom
  lineAnchors := .data (.bool config.lineAnchors)
  titleAttributes := .data (.bool config.titleAttributes)
  inline := .data (.bool config.inline)

def ofOptions (options : List (Candidate FormatOption)) : Except OptionError Settings :=
  (Config.ofOptions options).map ofConfig

def toOptions (settings : Settings) : List FormatOption :=
  (if settings.numberLines.isTruthy then [.flag .numberLines] else []) ++
  (if settings.numberFrom ≠ 1 then [.numberFrom settings.numberFrom] else []) ++
  (if settings.lineAnchors.isTruthy then [.flag .lineAnchors] else []) ++
  (if settings.titleAttributes.isTruthy then [.flag .titleAttributes] else []) ++
  (if settings.inline.isTruthy then [.flag .inline] else [])

/-- What the settings come to when every flag is tested for its truth. -/
def config (settings : Settings) : Config where
  numberLines := settings.numberLines.isTruthy
  numberFrom := settings.numberFrom
  lineAnchors := settings.lineAnchors.isTruthy
  titleAttributes := settings.titleAttributes.isTruthy
  inline := settings.inline.isTruthy

end Settings

inductive LayoutRequest where
  | settings (s : Settings)
  | options (request : FormatRequest)
  deriving Repr

def LayoutRequest.resolve : LayoutRequest → Except OptionError Settings
  | .settings s => .ok s
  | .options request => request.resolve.map Settings.ofConfig

end Highlighting
