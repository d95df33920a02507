import Highlighting.Number.Numeral
import Highlighting.Number.Binary64

/-!
# Decimal text of binary64 numbers

Reading takes a decimal to the nearest binary64 number. Writing chooses the fewest digits that
read back as the same number, and of those the nearest to it; numbers from 10^-4 up to 10^16 are
written positionally and the others with an exponent of at least two digits. A second form has a
fixed number of places.
-/

namespace Highlighting

/-- The number `significand * 10 ^ exponent`. -/
structure Decimal where
  significand : Nat
  exponent : Int
  deriving DecidableEq, Repr

namespace Decimal

def ratio (d : Decimal) : Nat × Nat :=
  match d.exponent with
  | .ofNat e => (d.significand * Nat.pow 10 e, 1)
  | .negSucc e => (d.significand, Nat.pow 10 (e + 1))

def digitCount (d : Decimal) : Nat :=
  (Numeral.ofNat d.significand).length

def leading (d : Decimal) : Int :=
  d.exponent + d.digitCount - 1

/-- Nearest binary64 number; magnitudes outside the format are recognised by the leading digit. -/
def toBinary64 (negative : Bool) (d : Decimal) : Binary64 :=
  if d.significand = 0 then .zero negative
  else if 310 < d.leading then .infinite negative
  else if d.leading < -330 then .zero negative
  else .ofRatio negative d.ratio.1 d.ratio.2

/-- Removes zeros from the end of the significand, at most as many as the fuel allows. -/
def strip : Nat → Decimal → Decimal
  | 0, d => d
  | fuel + 1, d =>
      if d.significand ≠ 0 ∧ d.significand % 10 = 0 then
        strip fuel ⟨d.significand / 10, d.exponent + 1⟩
      else d

end Decimal

namespace Binary64

def quotientLe (a b : Nat × Nat) : Bool :=
  decide (a.1 * b.2 ≤ b.1 * a.2)

/--
Whether a decimal reads back as the number with this significand and exponent. The numbers that
do lie between the two half-way points, and these belong to it when the significand is even. Below
a power of two the neighbour is only half as far.
-/
def readsBack (significand : Nat) (exponent : Int) (d : Decimal) : Bool :=
  let below := if significand = hidden ∧ minExponent < exponent then 1 else 2
  let low := ratio (4 * significand - below) (exponent - 2)
  let high := ratio (4 * significand + 2) (exponent - 2)
  if significand % 2 = 0 then quotientLe low d.ratio && quotientLe d.ratio high
  else !quotientLe d.ratio low && !quotientLe high d.ratio

def nearerBelow (value : Nat × Nat) (below above : Decimal) : Bool :=
  let sum := (below.ratio.1 * above.ratio.2 + above.ratio.1 * below.ratio.2,
    below.ratio.2 * above.ratio.2)
  let double := (2 * value.1, value.2)
  if quotientLe sum double then
    quotientLe double sum && below.significand % 2 == 0
  else true

def onGrid? (significand : Nat) (exponent : Int) (power : Int) : Option Decimal :=
  let value := ratio significand exponent
  let floor := match power with
    | .ofNat p => value.1 / (value.2 * Nat.pow 10 p)
    | .negSucc p => value.1 * Nat.pow 10 (p + 1) / value.2
  let below : Decimal := ⟨floor, power⟩
  let above : Decimal := ⟨floor + 1, power⟩
  match readsBack significand exponent below, readsBack significand exponent above with
  | true, true => some (if nearerBelow value below above then below else above)
  | true, false => some below
  | false, true => some above
  | false, false => none

def leadingPower (significand : Nat) (exponent : Int) : Int :=
  let value := ratio significand exponent
  if value.2 ≤ value.1 then (Numeral.ofNat (value.1 / value.2)).length - 1
  else
    let digits := (Numeral.ofNat (value.2 / value.1)).length
    if value.1 * Nat.pow 10 (digits - 1) = value.2 then -((digits : Int) - 1) else -(digits : Int)

/--
The decimal of fewest digits that reads back as a positive finite number: ever finer grids are
tried, from one digit to seventeen. Seventeen digits always read back, so the search succeeds.
-/
def shortest (significand : Nat) (exponent : Int) : Decimal :=
  let leading := leadingPower significand exponent
  let found := (List.range 17).findSome? fun (finer : Nat) =>
    onGrid? significand exponent (leading - finer)
  (found.getD ⟨0, 0⟩).strip 20

def signText (negative : Bool) : List Char :=
  if negative then ['-'] else []

def positional (digits : List Char) (leading : Int) : List Char :=
  match leading with
  | .ofNat n =>
      let whole := digits.take (n + 1) ++ List.replicate (n + 1 - digits.length) '0'
      let fraction := digits.drop (n + 1)
      whole ++ '.' :: (if fraction.isEmpty then ['0'] else fraction)
  | .negSucc n => '0' :: '.' :: (List.replicate n '0' ++ digits)

def scientific (digits : List Char) (leading : Int) : List Char :=
  let fraction := digits.drop 1
  let mark := if leading < 0 then ['e', '-'] else ['e', '+']
  let power := Numeral.ofNat leading.natAbs
  digits.take 1 ++ (if fraction.isEmpty then [] else '.' :: fraction) ++ mark ++
    List.replicate (2 - power.length) '0' ++ power

def describe : Binary64 → List Char
  | .nan => "nan".toList
  | .infinite negative => signText negative ++ "inf".toList
  | .finite negative significand exponent =>
      if significand = 0 then signText negative ++ "0.0".toList
      else
        let d := shortest significand exponent
        let digits := Numeral.ofNat d.significand
        signText negative ++
          if -4 ≤ d.leading ∧ d.leading < 16 then positional digits d.leading
          else scientific digits d.leading

/-- Text with a fixed number of places; the exact value is rounded to the nearest, ties to even. -/
def fixed (places : Nat) : Binary64 → List Char
  | .nan => "nan".toList
  | .infinite negative => signText negative ++ "inf".toList
  | .finite negative significand exponent =>
      let value := ratio significand exponent
      let units := roundDiv (value.1 * Nat.pow 10 places) value.2
      let fraction := Numeral.ofNat (units % Nat.pow 10 places)
      signText negative ++ Numeral.ofNat (units / Nat.pow 10 places) ++
        if places = 0 then []
        else '.' :: (List.replicate (places - fraction.length) '0' ++ fraction)

end Binary64
end Highlighting
