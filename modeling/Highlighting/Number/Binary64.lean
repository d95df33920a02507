import Highlighting.Number.Rounding

/-!
# Binary64 numbers

Floating-point numbers of the IEEE 754 binary64 format in exact form: a sign, a significand below
2^53 and a power of two, or an infinity, or a value that is not a number. Quotients are rounded
to the nearest such number, a tie going to the even significand, in natural-number arithmetic.
-/

namespace Highlighting

/-- A binary64 number; `finite` stands for the significand times that power of two. -/
inductive Binary64 where
  | finite (negative : Bool) (significand : Nat) (exponent : Int)
  | infinite (negative : Bool)
  | nan
  deriving DecidableEq, Hashable, Repr, Inhabited

namespace Binary64

def minExponent : Int := -1074

def maxExponent : Int := 971

/-- Significands of numbers that are not subnormal start here. -/
def hidden : Nat := Nat.pow 2 52

def zero (negative : Bool) : Binary64 :=
  .finite negative 0 minExponent

def scaledQuotient (num den : Nat) (exponent : Int) : Nat :=
  match exponent with
  | .ofNat e => roundDiv num (den * Nat.pow 2 e)
  | .negSucc e => roundDiv (num * Nat.pow 2 (e + 1)) den

def quotientAtLeast (num den : Nat) (power : Int) : Bool :=
  match power with
  | .ofNat p => decide (den * Nat.pow 2 p ≤ num)
  | .negSucc p => decide (den ≤ num * Nat.pow 2 (p + 1))

/-- Number nearest to a quotient of natural numbers; a zero denominator is not meaningful. -/
def ofRatio (negative : Bool) (num den : Nat) : Binary64 :=
  if num = 0 then zero negative
  else
    let guess : Int := (Nat.log2 num : Int) - (Nat.log2 den : Int)
    let leading := if quotientAtLeast num den guess then guess else guess - 1
    let exponent := max (leading - 52) minExponent
    let significand := scaledQuotient num den exponent
    let (significand, exponent) :=
      if significand = 2 * hidden then (hidden, exponent + 1) else (significand, exponent)
    if maxExponent < exponent then .infinite negative
    else .finite negative significand exponent

def ratio (significand : Nat) (exponent : Int) : Nat × Nat :=
  match exponent with
  | .ofNat e => (significand * Nat.pow 2 e, 1)
  | .negSucc e => (significand, Nat.pow 2 (e + 1))

def isZero : Binary64 → Bool
  | .finite _ significand _ => significand == 0
  | _ => false

end Binary64
end Highlighting
