import Highlighting.Number.Numeral

/-!
# Faults in JSON text

What can be wrong with a JSON text, and where. A scanner reports the rest of the text from the
fault on; its place in the whole text is a character position with a line and a column.
-/

namespace Highlighting
namespace Json

inductive Complaint where
  | byteOrderMark
  | extraData
  | expectingValue
  | expectingComma
  | expectingColon
  | expectingName
  | unterminatedString
  | controlCharacter
  | invalidEscape
  | invalidUnit
  deriving DecidableEq, Repr

namespace Complaint

def message : Complaint → String
  | .byteOrderMark => "Unexpected UTF-8 BOM (decode using utf-8-sig)"
  | .extraData => "Extra data"
  | .expectingValue => "Expecting value"
  | .expectingComma => "Expecting ',' delimiter"
  | .expectingColon => "Expecting ':' delimiter"
  | .expectingName => "Expecting property name enclosed in double quotes"
  | .unterminatedString => "Unterminated string starting at"
  | .controlCharacter => "Invalid control character at"
  | .invalidEscape => "Invalid \\escape"
  | .invalidUnit => "Invalid \\uXXXX escape"

end Complaint

/-- A complaint with the rest of the text from the fault on. -/
structure Fault where
  complaint : Complaint
  rest : List Char
  deriving DecidableEq, Repr

/-- A complaint with its place: lines and columns count from one, positions from zero. -/
structure SyntaxError where
  complaint : Complaint
  line : Nat
  column : Nat
  position : Nat
  deriving DecidableEq, Repr

def Fault.locate (text : List Char) (fault : Fault) : SyntaxError :=
  let position := text.length - fault.rest.length
  let before := text.take position
  { complaint := fault.complaint
    line := before.count '\n' + 1
    column := (before.reverse.takeWhile (· ≠ '\n')).length + 1
    position := position }

def SyntaxError.message (e : SyntaxError) : String :=
  e.complaint.message ++ ": line " ++ Numeral.text e.line ++ " column " ++
    Numeral.text e.column ++ " (char " ++ Numeral.text e.position ++ ")"

end Json
end Highlighting
