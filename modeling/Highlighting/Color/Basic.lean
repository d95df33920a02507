import Highlighting.Number.Decimal
import Highlighting.Data.Value

/-!
# Colors

A color is three 8-bit channels. Its hexadecimal text is `#rrggbb` in lower case; reading accepts
either case and at most one leading `#`. LaTeX takes the channels divided by 255, with two
decimals.
-/

namespace Highlighting

abbrev Channel := Fin 256

structure Color where
  red : Channel
  green : Channel
  blue : Channel
  deriving DecidableEq, Hashable, Repr

inductive ChannelName where
  | red
  | green
  | blue
  deriving DecidableEq, Repr

namespace ChannelName

def label : ChannelName → String
  | .red => "red"
  | .green => "green"
  | .blue => "blue"

end ChannelName

inductive ColorError where
  | notInteger (channel : ChannelName) (value : Value)
  | outOfRange (channel : ChannelName) (value : Int)
  | invalidHex (text : String)
  deriving Repr

namespace ColorError

def message : ColorError → String
  | .notInteger channel value =>
      channel.label ++ " channel must be an int, got " ++ value.describe
  | .outOfRange channel value =>
      channel.label ++ " channel out of range 0-255: " ++ Numeral.text value
  | .invalidHex text => "Invalid hex color: " ++ quoted text

end ColorError

namespace Channel

/-- Channel of a value: an integer from 0 to 255, where truth values are not integers. -/
def ofValue (name : ChannelName) : Value → Except ColorError Channel
  | .int i =>
      if h : 0 ≤ i ∧ i < 256 then .ok ⟨i.toNat, by omega⟩ else .error (.outOfRange name i)
  | value => .error (.notInteger name value)

def normalized (c : Channel) : Binary64 :=
  Binary64.ofRatio false c.val 255

def hex (c : Channel) : List Char :=
  Numeral.hex 2 c.val

def ofHex? (high low : Char) : Option Channel :=
  match Numeral.hexDigit? high, Numeral.hexDigit? low with
  | some h, some l => some (Fin.ofNat 256 (16 * h + l))
  | _, _ => none

end Channel

namespace Color

def ofValues (red green blue : Value) : Except ColorError Color := do
  let r ← Channel.ofValue .red red
  let g ← Channel.ofValue .green green
  let b ← Channel.ofValue .blue blue
  return ⟨r, g, b⟩

def ofNats (red green blue : Nat) : Color :=
  ⟨Fin.ofNat 256 red, Fin.ofNat 256 green, Fin.ofNat 256 blue⟩

/-! ## Hexadecimal text -/

def ofDigits? : List Char → Option Color
  | [r₁, r₂, g₁, g₂, b₁, b₂] =>
      match Channel.ofHex? r₁ r₂, Channel.ofHex? g₁ g₂, Channel.ofHex? b₁ b₂ with
      | some r, some g, some b => some ⟨r, g, b⟩
      | _, _, _ => none
  | _ => none

def dropMark : List Char → List Char
  | '#' :: rest => rest
  | cs => cs

def ofHex? (text : String) : Option Color :=
  ofDigits? (dropMark text.toList)

def ofHex (text : String) : Except ColorError Color :=
  match ofHex? text with
  | some color => .ok color
  | none => .error (.invalidHex text)

/-- Color of any value: only hexadecimal texts denote one. -/
def parse? : Value → Option Color
  | .text t => ofHex? t
  | _ => none

def hexChars (color : Color) : List Char :=
  '#' :: (color.red.hex ++ color.green.hex ++ color.blue.hex)

def toHex (color : Color) : String :=
  String.ofList color.hexChars

/-! ## Normalised channels -/

def normalized (color : Color) : Binary64 × Binary64 × Binary64 :=
  (color.red.normalized, color.green.normalized, color.blue.normalized)

def rgbChars (color : Color) : List Char :=
  let (r, g, b) := color.normalized
  r.fixed 2 ++ ',' :: (g.fixed 2 ++ ',' :: b.fixed 2)

theorem rgbChars_eq (color : Color) :
    color.rgbChars = color.red.normalized.fixed 2 ++ ',' :: (color.green.normalized.fixed 2 ++
      ',' :: color.blue.normalized.fixed 2) := by
  rfl

def toRgb (color : Color) : String :=
  String.ofList color.rgbChars

end Color
end Highlighting
