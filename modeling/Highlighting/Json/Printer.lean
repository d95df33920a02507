import Highlighting.Data.Assoc
import Highlighting.Data.Value

/-!
# JSON text

Data values as JSON text. The fields of an object are ordered by name, and every character outside
the visible ASCII range is escaped. A compact text is one line; an indented one has every item
and every field on a line of its own.
-/

namespace Highlighting
namespace Json

/-! ## Strings -/

def escapeUnit (n : Nat) : List Char :=
  '\\' :: 'u' :: Numeral.hex 4 n

def highSurrogate (n : Nat) : Nat :=
  0xd800 + (n - 0x10000) / 0x400

def lowSurrogate (n : Nat) : Nat :=
  0xdc00 + (n - 0x10000) % 0x400

def escapeChar (c : Char) : List Char :=
  if c = '"' then ['\\', '"']
  else if c = '\\' then ['\\', '\\']
  else if c = '\n' then ['\\', 'n']
  else if c = '\r' then ['\\', 'r']
  else if c = '\t' then ['\\', 't']
  else if c = '\x08' then ['\\', 'b']
  else if c = '\x0c' then ['\\', 'f']
  else if 0x20 ≤ c.toNat ∧ c.toNat < 0x7f then [c]
  else if c.toNat < 0x10000 then escapeUnit c.toNat
  else escapeUnit (highSurrogate c.toNat) ++ escapeUnit (lowSurrogate c.toNat)

def printString (text : String) : List Char :=
  '"' :: (text.toList.flatMap escapeChar ++ ['"'])

/-! ## Layout -/

/-- Whether items share one line or stand on lines of their own, indented per level. -/
inductive Layout where
  | compact
  | indented (width : Nat)
  deriving DecidableEq, Repr

namespace Layout

/-- Layout for an optional indentation; a negative one counts as zero. -/
def ofIndent : Option Int → Layout
  | none => .compact
  | some width => .indented width.toNat

def lead (layout : Layout) (level : Nat) : List Char :=
  match layout with
  | .compact => []
  | .indented width => '\n' :: List.replicate (width * level) ' '

def separator (layout : Layout) (level : Nat) : List Char :=
  match layout with
  | .compact => [',', ' ']
  | .indented _ => ',' :: layout.lead level

end Layout

/-! ## Values -/

def printFloat : Binary64 → List Char
  | .nan => "NaN".toList
  | .infinite negative => Binary64.signText negative ++ "Infinity".toList
  | x => x.describe

mutual

def printAt (layout : Layout) (level : Nat) : Value → List Char
  | .null => "null".toList
  | .bool true => "true".toList
  | .bool false => "false".toList
  | .int i => Numeral.ofInt i
  | .float x => printFloat x
  | .text t => printString t
  | .list [] => ['[', ']']
  | .list (item :: rest) =>
      '[' :: (layout.lead (level + 1) ++ printAt layout (level + 1) item ++
        printItems layout (level + 1) rest ++ layout.lead level ++ [']'])
  | .object [] => ['{', '}']
  | .object ((key, value) :: rest) =>
      '{' :: (layout.lead (level + 1) ++ printString key ++ ':' :: ' ' ::
        printAt layout (level + 1) value ++ printFields layout (level + 1) rest ++
        layout.lead level ++ ['}'])
termination_by structural value => value

def printItems (layout : Layout) (level : Nat) : List Value → List Char
  | [] => []
  | item :: rest =>
      layout.separator level ++ printAt layout level item ++ printItems layout level rest
termination_by structural items => items

def printFields (layout : Layout) (level : Nat) : List (String × Value) → List Char
  | [] => []
  | (key, value) :: rest =>
      layout.separator level ++ printString key ++ ':' :: ' ' :: printAt layout level value ++
        printFields layout level rest
termination_by structural fields => fields

end

end Json

namespace Value

mutual

def sorted : Value → Value
  | .list items => .list (sortedItems items)
  | .object fields => .object (Assoc.sortByKey (sortedFields fields))
  | value => value
termination_by structural value => value

def sortedItems : List Value → List Value
  | [] => []
  | item :: rest => sorted item :: sortedItems rest
termination_by structural items => items

def sortedFields : List (String × Value) → List (String × Value)
  | [] => []
  | (key, value) :: rest => (key, sorted value) :: sortedFields rest
termination_by structural fields => fields

end

end Value

namespace Json

def print (layout : Layout) (value : Value) : List Char :=
  printAt layout 0 value.sorted

end Json
end Highlighting
