import Highlighting.Number.Numeral
import Mathlib

/-!
# Laws of numerals

The numeral of an integer is the text that the standard library prints for it, so that it can be
read back. It has no characters but digits and a sign.
-/

namespace Highlighting
namespace Numeral

theorem ofInt_eq_repr (i : Int) : ofInt i = i.repr.toList := by
  cases i with
  | ofNat n =>
      show Nat.toDigits 10 n = n.repr.toList
      rw [Nat.toList_repr]
  | negSucc n =>
      show '-' :: Nat.toDigits 10 (n + 1) = ("-" ++ (n + 1).repr).toList
      rw [String.toList_append, Nat.toList_repr]
      rfl

theorem not_mem_repr {c : Char} (hsign : c ≠ '-') (hdigit : c.isDigit = false) (i : Int) :
    c ∉ i.repr.toList := by
  intro h
  rw [← ofInt_eq_repr] at h
  rcases mem_ofInt h with hc | hc
  · exact hsign hc
  · rw [hdigit] at hc
    cases hc

theorem ofNat_injective : Function.Injective ofNat :=
  Function.LeftInverse.injective fun _ =>
    Nat.ofDigitChars_toDigits (by decide) (by decide)

end Numeral
end Highlighting
