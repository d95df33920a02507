import Highlighting.Number.Decimal
import Highlighting.Text.Quoted

/-!
# Data values

The values that a theme file can hold and that an untyped caller can hand over: nothing, truth
values, integers, binary64 numbers, texts, lists, and objects whose fields keep their order. A
value can be shown in a message, has a truth value, and names its kind.
-/

namespace Highlighting

inductive Value where
  | null
  | bool (b : Bool)
  | int (i : Int)
  | float (x : Binary64)
  | text (t : String)
  | list (items : List Value)
  | object (fields : List (String × Value))
  deriving Repr, Inhabited

namespace Value

mutual

def describeChars : Value → List Char
  | .null => "None".toList
  | .bool true => "True".toList
  | .bool false => "False".toList
  | .int i => Numeral.ofInt i
  | .float x => x.describe
  | .text t => Quoted.encode t.toList
  | .list [] => ['[', ']']
  | .list (item :: rest) => '[' :: (describeChars item ++ describeItems rest ++ [']'])
  | .object [] => ['{', '}']
  | .object ((key, value) :: rest) =>
      '{' :: (Quoted.encode key.toList ++ ':' :: ' ' :: describeChars value ++
        describeFields rest ++ ['}'])
termination_by structural value => value

def describeItems : List Value → List Char
  | [] => []
  | item :: rest => ',' :: ' ' :: (describeChars item ++ describeItems rest)
termination_by structural items => items

def describeFields : List (String × Value) → List Char
  | [] => []
  | (key, value) :: rest =>
      ',' :: ' ' :: (Quoted.encode key.toList ++ ':' :: ' ' :: describeChars value ++
        describeFields rest)
termination_by structural fields => fields

end

def describe (value : Value) : String :=
  String.ofList value.describeChars

def isTruthy : Value → Bool
  | .null => false
  | .bool b => b
  | .int i => i != 0
  | .float x => !x.isZero
  | .text t => t != ""
  | .list items => !items.isEmpty
  | .object fields => !fields.isEmpty

def kindName : Value → String
  | .null => "NoneType"
  | .bool _ => "bool"
  | .int _ => "int"
  | .float _ => "float"
  | .text _ => "str"
  | .list _ => "list"
  | .object _ => "dict"

end Value
end Highlighting
