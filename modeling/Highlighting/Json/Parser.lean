import Highlighting.Data.Assoc
import Highlighting.Data.Value
import Highlighting.Json.Fault

/-!
# Reading JSON text

A scanner takes the beginning of the text and returns what it read with the rest. Nesting is
bounded by a depth, and the items of a list by a budget; both start above the length of the text,
which every level and every item shortens, so that a text never runs out of them.
-/

namespace Highlighting
namespace Json

abbrev Scanned (α : Type) := Except Fault (α × List Char)

/-! ## Blanks -/

def isBlank (c : Char) : Bool :=
  c == ' ' || c == '\t' || c == '\n' || c == '\r'

def skipBlanks (cs : List Char) : List Char :=
  cs.dropWhile isBlank

/-! ## Strings -/

def shortEscape? (c : Char) : Option Char :=
  match c with
  | '"' => some '"'
  | '\\' => some '\\'
  | '/' => some '/'
  | 'b' => some '\x08'
  | 'f' => some '\x0c'
  | 'n' => some '\n'
  | 'r' => some '\r'
  | 't' => some '\t'
  | _ => none

def unit? (a b c d : Char) : Option Nat :=
  match Numeral.hexDigit? a, Numeral.hexDigit? b, Numeral.hexDigit? c, Numeral.hexDigit? d with
  | some a, some b, some c, some d => some (((a * 16 + b) * 16 + c) * 16 + d)
  | _, _, _, _ => none

def isHigh (n : Nat) : Bool :=
  decide (0xd800 ≤ n ∧ n < 0xdc00)

def isLow (n : Nat) : Bool :=
  decide (0xdc00 ≤ n ∧ n < 0xe000)

/-- Part of a string: a character, or a UTF-16 code unit that was written as an escape. -/
inductive Piece where
  | char (c : Char)
  | unit (n : Nat)
  deriving DecidableEq, Repr

namespace Piece

/-- Character of a part; half a surrogate pair yields the replacement character. -/
def toChar : Piece → Char
  | .char c => c
  | .unit n => if isHigh n || isLow n then '\ufffd' else Char.ofNat n

/-- Puts a part in front of others; the two halves of a surrogate pair become one character. -/
def cons (piece : Piece) (pieces : List Piece) : List Piece :=
  match piece, pieces with
  | .unit high, .unit low :: rest =>
      if isHigh high && isLow low then
        .char (Char.ofNat (0x10000 + (high - 0xd800) * 0x400 + (low - 0xdc00))) :: rest
      else piece :: pieces
  | _, _ => piece :: pieces

end Piece

def Scanned.cons (piece : Piece) (scanned : Scanned (List Piece)) : Scanned (List Piece) :=
  scanned.map fun read => (piece.cons read.1, read.2)

/--
Parts of a string behind its opening quote, up to and with the closing one. The escape of a code
unit needs four digits and one further character behind them.
-/
def scanPieces (opening : List Char) : List Char → Scanned (List Piece)
  | [] => .error ⟨.unterminatedString, opening⟩
  | '"' :: rest => .ok ([], rest)
  | ['\\'] => .error ⟨.unterminatedString, opening⟩
  | '\\' :: 'u' :: a :: b :: c :: d :: rest =>
      match unit? a b c d, rest with
      | some n, _ :: _ => (scanPieces opening rest).cons (.unit n)
      | _, _ => .error ⟨.invalidUnit, 'u' :: a :: b :: c :: d :: rest⟩
  | '\\' :: 'u' :: rest => .error ⟨.invalidUnit, 'u' :: rest⟩
  | '\\' :: c :: rest =>
      match shortEscape? c with
      | some escaped => (scanPieces opening rest).cons (.char escaped)
      | none => .error ⟨.invalidEscape, '\\' :: c :: rest⟩
  | c :: rest =>
      if c.toNat < 0x20 then .error ⟨.controlCharacter, c :: rest⟩
      else (scanPieces opening rest).cons (.char c)

/-- Text of a string behind its opening quote, which `opening` begins with. -/
def scanString (opening cs : List Char) : Scanned String :=
  (scanPieces opening cs).map fun read => (String.ofList (read.1.map Piece.toChar), read.2)

/-! ## Numbers -/

def isDigit (c : Char) : Bool :=
  (Numeral.digit? c).isSome

def spanDigits (cs : List Char) : List Char × List Char :=
  (cs.takeWhile isDigit, cs.dropWhile isDigit)

def scanFraction (cs : List Char) : Option (List Char × List Char) :=
  match cs with
  | '.' :: rest =>
      match spanDigits rest with
      | ([], _) => none
      | digits => some digits
  | _ => none

def scanExponent (cs : List Char) : Option (Int × List Char) :=
  match cs with
  | mark :: rest =>
      if mark = 'e' ∨ mark = 'E' then
        let (negative, rest) := match rest with
          | '-' :: rest => (true, rest)
          | '+' :: rest => (false, rest)
          | _ => (false, rest)
        match spanDigits rest with
        | ([], _) => none
        | (digits, rest) =>
            let power : Int := Numeral.toNat digits
            some (if negative then -power else power, rest)
      else none
  | [] => none

def scanWhole (cs : List Char) : Option (List Char × List Char) :=
  match cs with
  | '0' :: rest => some (['0'], rest)
  | _ =>
      match spanDigits cs with
      | ([], _) => none
      | digits => some digits

/-- Longest number: an integer, or a binary64 number where there is a fraction or an exponent. -/
def scanNumber (cs : List Char) : Option (Value × List Char) :=
  let (negative, cs) := match cs with
    | '-' :: rest => (true, rest)
    | _ => (false, cs)
  match scanWhole cs with
  | none => none
  | some (whole, rest) =>
      let (fraction, rest) := (scanFraction rest).getD ([], rest)
      match fraction, scanExponent rest with
      | [], none =>
          let n : Int := Numeral.toNat whole
          some (.int (if negative then -n else n), rest)
      | _, exponent =>
          let (power, rest) := exponent.getD (0, rest)
          let decimal : Decimal := ⟨Numeral.toNat (whole ++ fraction), power - fraction.length⟩
          some (.float (decimal.toBinary64 negative), rest)

/-! ## Values -/

def scanItems (item : List Char → Scanned Value) : Nat → List Char → Scanned (List Value)
  | 0, cs => .error ⟨.expectingValue, cs⟩
  | budget + 1, cs =>
      match item cs with
      | .error fault => .error fault
      | .ok (value, rest) =>
          match skipBlanks rest with
          | ']' :: rest => .ok ([value], rest)
          | ',' :: rest =>
              (scanItems item budget (skipBlanks rest)).map fun read => (value :: read.1, read.2)
          | rest => .error ⟨.expectingComma, rest⟩

def scanField (item : List Char → Scanned Value) (cs : List Char) : Scanned (String × Value) :=
  match cs with
  | '"' :: rest =>
      match scanString cs rest with
      | .error fault => .error fault
      | .ok (name, rest) =>
          match skipBlanks rest with
          | ':' :: rest =>
              (item (skipBlanks rest)).map fun read => ((name, read.1), read.2)
          | rest => .error ⟨.expectingColon, rest⟩
  | _ => .error ⟨.expectingName, cs⟩

def scanFields (item : List Char → Scanned Value) :
    Nat → List Char → Scanned (List (String × Value))
  | 0, cs => .error ⟨.expectingName, cs⟩
  | budget + 1, cs =>
      match scanField item cs with
      | .error fault => .error fault
      | .ok (field, rest) =>
          match skipBlanks rest with
          | '}' :: rest => .ok ([field], rest)
          | ',' :: rest =>
              (scanFields item budget (skipBlanks rest)).map fun read =>
                (field :: read.1, read.2)
          | rest => .error ⟨.expectingComma, rest⟩

def scanList (item : List Char → Scanned Value) (cs : List Char) : Scanned Value :=
  match skipBlanks cs with
  | ']' :: rest => .ok (.list [], rest)
  | rest => (scanItems item (rest.length + 1) rest).map fun read => (.list read.1, read.2)

/-- An object behind its opening bracket; a repeated name keeps its place and its last value. -/
def scanObject (item : List Char → Scanned Value) (cs : List Char) : Scanned Value :=
  match skipBlanks cs with
  | '}' :: rest => .ok (.object [], rest)
  | rest =>
      (scanFields item (rest.length + 1) rest).map fun read =>
        (.object (Assoc.ofList read.1), read.2)

/-- A value, nested at most as deeply as the given depth. -/
def scanValue : Nat → List Char → Scanned Value
  | 0, cs => .error ⟨.expectingValue, cs⟩
  | depth + 1, cs =>
      match cs with
      | '"' :: rest => (scanString cs rest).map fun read => (.text read.1, read.2)
      | '[' :: rest => scanList (scanValue depth) rest
      | '{' :: rest => scanObject (scanValue depth) rest
      | 'n' :: 'u' :: 'l' :: 'l' :: rest => .ok (.null, rest)
      | 't' :: 'r' :: 'u' :: 'e' :: rest => .ok (.bool true, rest)
      | 'f' :: 'a' :: 'l' :: 's' :: 'e' :: rest => .ok (.bool false, rest)
      | 'N' :: 'a' :: 'N' :: rest => .ok (.float .nan, rest)
      | 'I' :: 'n' :: 'f' :: 'i' :: 'n' :: 'i' :: 't' :: 'y' :: rest =>
          .ok (.float (.infinite false), rest)
      | '-' :: 'I' :: 'n' :: 'f' :: 'i' :: 'n' :: 'i' :: 't' :: 'y' :: rest =>
          .ok (.float (.infinite true), rest)
      | _ =>
          match scanNumber cs with
          | some read => .ok read
          | none => .error ⟨.expectingValue, cs⟩

def scanText (cs : List Char) : Except Fault Value :=
  match cs with
  | '\ufeff' :: _ => .error ⟨.byteOrderMark, cs⟩
  | _ =>
      match scanValue (cs.length + 1) (skipBlanks cs) with
      | .error fault => .error fault
      | .ok (value, rest) =>
          match skipBlanks rest with
          | [] => .ok value
          | rest => .error ⟨.extraData, rest⟩

def parse (cs : List Char) : Except SyntaxError Value :=
  (scanText cs).mapError (Fault.locate cs)

end Json
end Highlighting
