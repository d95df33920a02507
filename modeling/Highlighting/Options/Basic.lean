import Highlighting.Data.Assoc
import Highlighting.Data.Candidate

/-!
# Format options

Options say how a listing is laid out: four flags, and the number of the first line. They come as
a sequence in which flags may stand anywhere and the first start number counts. They are resolved
into a configuration, in which a flag is set or not, and every configuration has a canonical sequence
of options.
-/

namespace Highlighting

inductive Flag where
  | numberLines
  | lineAnchors
  | titleAttributes
  | inline
  deriving DecidableEq, Repr

namespace Flag

def field : Flag → String
  | .numberLines => "number_lines"
  | .lineAnchors => "line_anchors"
  | .titleAttributes => "title_attributes"
  | .inline => "inline"

end Flag

inductive FormatOption where
  | flag (f : Flag)
  | numberFrom (start : Int)
  deriving DecidableEq, Repr

inductive OptionError where
  | notAnOption (argument : Argument)
  | startNotInteger (what : String) (argument : Argument)
  deriving Repr

namespace OptionError

def message : OptionError → String
  | .notAnOption argument => "Not a format option: " ++ argument.describe
  | .startNotInteger what argument => what ++ " requires an int, got " ++ argument.describe

end OptionError

/-- Start number that is handed over: an integer, where truth values are not integers. -/
def startNumber (what : String) : Argument → Except OptionError Int
  | .data (.int start) => .ok start
  | argument => .error (.startNotInteger what argument)

def FormatOption.ofStart (argument : Argument) : Except OptionError FormatOption :=
  (startNumber "NumberFrom" argument).map .numberFrom

structure Config where
  numberLines : Bool := false
  numberFrom : Int := 1
  lineAnchors : Bool := false
  titleAttributes : Bool := false
  inline : Bool := false
  deriving DecidableEq, Repr

namespace Config

def firstStart (options : List FormatOption) : Option Int :=
  options.findSome? fun option =>
    match option with
    | .numberFrom start => some start
    | .flag _ => none

def ofList (options : List FormatOption) : Config where
  numberLines := options.contains (.flag .numberLines)
  numberFrom := (firstStart options).getD 1
  lineAnchors := options.contains (.flag .lineAnchors)
  titleAttributes := options.contains (.flag .titleAttributes)
  inline := options.contains (.flag .inline)

def ofOptions (options : List (Candidate FormatOption)) : Except OptionError Config :=
  (options.mapM (Candidate.check OptionError.notAnOption)).map ofList

/-- Canonical sequence of options: fixed order, and no start number where it is one. -/
def toOptions (config : Config) : List FormatOption :=
  (if config.numberLines then [.flag .numberLines] else []) ++
  (if config.numberFrom ≠ 1 then [.numberFrom config.numberFrom] else []) ++
  (if config.lineAnchors then [.flag .lineAnchors] else []) ++
  (if config.titleAttributes then [.flag .titleAttributes] else []) ++
  (if config.inline then [.flag .inline] else [])

end Config

inductive FormatRequest where
  | unspecified
  | config (c : Config)
  | single (o : FormatOption)
  | sequence (options : List (Candidate FormatOption))
  deriving Repr

namespace FormatRequest

def resolve : FormatRequest → Except OptionError Config
  | .unspecified => .ok {}
  | .config c => .ok c
  | .single o => Config.ofOptions [.fit o]
  | .sequence options => Config.ofOptions options

end FormatRequest
end Highlighting
