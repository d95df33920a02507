import Highlighting.Theme.Basic

/-!
# Palettes

The four themes that come with the library, and their look-up by name in any letter case.
-/

namespace Highlighting
namespace Palette

def colored (red green blue : Nat) : Style :=
  { color := some (.ofNats red green blue) }

def boldColored (red green blue : Nat) : Style :=
  { color := some (.ofNats red green blue), bold := true }

def italicColored (red green blue : Nat) : Style :=
  { color := some (.ofNats red green blue), italic := true }

def pygments : Theme where
  name := "pygments"
  defaultColor := none
  backgroundColor := none
  styles := ⟨[
    (.keyword, boldColored 0x00 0x70 0x20),
    (.dataType, colored 0x90 0x20 0x00),
    (.decimal, colored 0x40 0xa0 0x70),
    (.baseN, colored 0x40 0xa0 0x70),
    (.float, colored 0x40 0xa0 0x70),
    (.character, colored 0x40 0x70 0xa0),
    (.string, colored 0x40 0x70 0xa0),
    (.comment, italicColored 0x60 0xa0 0xb0),
    (.other, colored 0x00 0x70 0x20),
    (.alert, boldColored 0xff 0x00 0x00),
    (.function, colored 0x06 0x28 0x7e),
    (.error, boldColored 0xff 0x00 0x00)], by decide⟩

def kate : Theme where
  name := "kate"
  defaultColor := none
  backgroundColor := none
  styles := ⟨[
    (.keyword, { bold := true }),
    (.dataType, colored 0x80 0x00 0x00),
    (.decimal, colored 0x00 0x00 0xff),
    (.baseN, colored 0x00 0x00 0xff),
    (.float, colored 0x80 0x00 0x80),
    (.character, colored 0xff 0x00 0xff),
    (.string, colored 0xdd 0x00 0x00),
    (.comment, italicColored 0x80 0x80 0x80),
    (.alert, boldColored 0x00 0xff 0x00),
    (.function, colored 0x00 0x00 0x80),
    (.error, boldColored 0xff 0x00 0x00)], by decide⟩

def tango : Theme where
  name := "tango"
  defaultColor := none
  backgroundColor := some (.ofNats 0xf8 0xf8 0xf8)
  styles := ⟨[
    (.keyword, boldColored 0x20 0x4a 0x87),
    (.dataType, colored 0x20 0x4a 0x87),
    (.decimal, colored 0x00 0x00 0xcf),
    (.baseN, colored 0x00 0x00 0xcf),
    (.float, colored 0x00 0x00 0xcf),
    (.character, colored 0x4e 0x9a 0x06),
    (.string, colored 0x4e 0x9a 0x06),
    (.comment, italicColored 0x8f 0x59 0x02),
    (.other, colored 0x8f 0x59 0x02),
    (.alert, colored 0xef 0x29 0x29),
    (.function, colored 0x00 0x00 0x00),
    (.error, boldColored 0xa4 0x00 0x00)], by decide⟩

def espresso : Theme where
  name := "espresso"
  defaultColor := some (.ofNats 0xbd 0xae 0x9d)
  backgroundColor := some (.ofNats 0x2a 0x21 0x1c)
  styles := ⟨[
    (.keyword, boldColored 0x43 0xa8 0xed),
    (.dataType, { underline := true }),
    (.decimal, colored 0x44 0xaa 0x43),
    (.baseN, colored 0x44 0xaa 0x43),
    (.float, colored 0x44 0xaa 0x43),
    (.character, colored 0x04 0x9b 0x0a),
    (.string, colored 0x04 0x9b 0x0a),
    (.comment, italicColored 0x00 0x66 0xff),
    (.alert, colored 0xff 0xff 0x00),
    (.function, boldColored 0xff 0x93 0x58),
    (.error, boldColored 0xff 0xff 0x00)], by decide⟩

def all : List Theme :=
  [pygments, kate, tango, espresso]

def default : Theme := pygments

def names : List String :=
  Assoc.sortTexts (all.map Theme.name)

/-! ## Look-up by name -/

/--
Lower-case form of a character as far as palette names need it: the capital ASCII letters and the
Kelvin sign are the only characters whose lower-case form is a single ASCII letter.
-/
def foldChar (c : Char) : Char :=
  if 'A' ≤ c ∧ c ≤ 'Z' then Char.ofNat (c.toNat + 32)
  else if c = '\u212a' then 'k'
  else c

def find? : Value → Option Theme
  | .text name => all.find? fun theme => theme.name.toList = name.toList.map foldChar
  | _ => none

structure UnknownTheme where
  name : Value
  available : List String
  deriving Repr

namespace UnknownTheme

def message (e : UnknownTheme) : String :=
  "Unknown theme: " ++ e.name.describe ++ ". Available: " ++ String.intercalate ", " e.available

end UnknownTheme

def get (name : Value) : Except UnknownTheme Theme :=
  match find? name with
  | some theme => .ok theme
  | none => .error ⟨name, names⟩

end Palette
end Highlighting
