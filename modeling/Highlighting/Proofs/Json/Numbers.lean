import Highlighting.Json.Parser

/-!
# JSON numbers

A number has a whole part, and perhaps a fraction and an exponent, each of which is read as far as
it goes. It is therefore the same number in a longer text only where it ends in front of a character
that no part of a number goes on with.
-/

namespace Highlighting
namespace Json

/-! ## Digits -/

def continuesNumber (c : Char) : Bool :=
  isDigit c || c == '.' || c == 'e' || c == 'E'

/-- A text that begins with a character in front of which every number ends. -/
def EndsNumber (rest : List Char) : Prop :=
  ∃ c cs, rest = c :: cs ∧ continuesNumber c = false

theorem EndsNumber.ne_nil {rest : List Char} (h : EndsNumber rest) : rest ≠ [] := by
  obtain ⟨c, cs, rfl, _⟩ := h
  exact List.cons_ne_nil c cs

theorem not_mark_of_not_continues {c : Char} (h : continuesNumber c = false) :
    c ≠ '.' ∧ c ≠ 'e' ∧ c ≠ 'E' := by
  simp only [continuesNumber, Bool.or_eq_false_iff, beq_eq_false_iff_ne] at h
  exact ⟨h.1.1.2, h.1.2, h.2⟩

theorem spanDigits_append {cs : List Char} (h : (spanDigits cs).2 ≠ []) (tail : List Char) :
    spanDigits (cs ++ tail) = ((spanDigits cs).1, (spanDigits cs).2 ++ tail) := by
  induction cs with
  | nil =>
      exact absurd rfl h
  | cons c cs ih =>
      cases hc : isDigit c with
      | true =>
          have hspan : ∀ ds, spanDigits (c :: ds) = (c :: (spanDigits ds).1, (spanDigits ds).2) := by
            intro ds
            simp [spanDigits, hc]
          rw [hspan] at h
          rw [List.cons_append, hspan, hspan, ih h]
      | false =>
          simp [spanDigits, hc]

def scanDigits (cs : List Char) : Option (List Char × List Char) :=
  match spanDigits cs with
  | ([], _) => none
  | digits => some digits

theorem scanDigits_append {cs digits rest : List Char} (h : scanDigits cs = some (digits, rest))
    (hrest : rest ≠ []) (tail : List Char) :
    scanDigits (cs ++ tail) = some (digits, rest ++ tail) := by
  unfold scanDigits at h ⊢
  split at h
  · cases h
  · rename_i hdigits
    have hspan := Option.some.inj h
    rw [spanDigits_append (by rwa [hspan]), hspan]
    cases digits with
    | nil =>
        exact absurd hspan (hdigits rest)
    | cons c digits =>
        rfl

theorem exists_digit_of_scanDigits {cs : List Char} {read : List Char × List Char}
    (h : scanDigits cs = some read) : ∃ c rest, cs = c :: rest ∧ isDigit c = true := by
  cases cs with
  | nil =>
      cases h
  | cons c cs =>
      cases hc : isDigit c with
      | true =>
          exact ⟨c, cs, rfl, hc⟩
      | false =>
          have hnone : scanDigits (c :: cs) = none := by
            simp [scanDigits, spanDigits, hc]
          rw [hnone] at h
          cases h

theorem scanWhole_of_ne {c : Char} (h : c ≠ '0') (cs : List Char) :
    scanWhole (c :: cs) = scanDigits (c :: cs) := by
  unfold scanWhole
  split
  · rename_i heq
    exact absurd (List.cons.inj heq).1 h
  · rfl

theorem scanWhole_append {cs whole rest : List Char} (h : scanWhole cs = some (whole, rest))
    (hrest : rest ≠ []) (tail : List Char) :
    scanWhole (cs ++ tail) = some (whole, rest ++ tail) := by
  cases cs with
  | nil =>
      cases h
  | cons c cs =>
      by_cases hc : c = '0'
      · subst hc
        cases h
        rfl
      · rw [scanWhole_of_ne hc] at h
        rw [List.cons_append, scanWhole_of_ne hc, ← List.cons_append]
        exact scanDigits_append h hrest tail

theorem exists_digit_of_scanWhole {cs : List Char} {read : List Char × List Char}
    (h : scanWhole cs = some read) : ∃ c rest, cs = c :: rest ∧ isDigit c = true := by
  cases cs with
  | nil =>
      cases h
  | cons c cs =>
      by_cases hc : c = '0'
      · exact ⟨c, cs, rfl, by rw [hc]; decide⟩
      · rw [scanWhole_of_ne hc] at h
        exact exists_digit_of_scanDigits h

/-! ## Fractions and exponents -/

theorem scanFraction_of_ne {c : Char} (h : c ≠ '.') (cs : List Char) :
    scanFraction (c :: cs) = none := by
  unfold scanFraction
  split
  · rename_i heq
    exact absurd (List.cons.inj heq).1 h
  · rfl

theorem scanFraction_append {cs fraction rest : List Char}
    (h : scanFraction cs = some (fraction, rest)) (hrest : rest ≠ []) (tail : List Char) :
    scanFraction (cs ++ tail) = some (fraction, rest ++ tail) := by
  cases cs with
  | nil =>
      cases h
  | cons c cs =>
      by_cases hc : c = '.'
      · subst hc
        have hdigits : scanDigits cs = some (fraction, rest) := h
        exact scanDigits_append hdigits hrest tail
      · rw [scanFraction_of_ne hc] at h
        cases h

def exponentSign (cs : List Char) : Bool × List Char :=
  match cs with
  | '-' :: rest => (true, rest)
  | '+' :: rest => (false, rest)
  | _ => (false, cs)

theorem exponentSign_append {cs : List Char} (h : cs ≠ []) (tail : List Char) :
    exponentSign (cs ++ tail) = ((exponentSign cs).1, (exponentSign cs).2 ++ tail) := by
  cases cs with
  | nil =>
      exact absurd rfl h
  | cons c cs =>
      by_cases hminus : c = '-'
      · subst hminus
        rfl
      by_cases hplus : c = '+'
      · subst hplus
        rfl
      have hnone : ∀ ds, exponentSign (c :: ds) = (false, c :: ds) := by
        intro ds
        simp [exponentSign, hminus, hplus]
      rw [List.cons_append, hnone, hnone, List.cons_append]

theorem scanExponent_cons (c : Char) (cs : List Char) :
    scanExponent (c :: cs) =
      if c = 'e' ∨ c = 'E' then
        (scanDigits (exponentSign cs).2).map fun read =>
          (if (exponentSign cs).1 then -(Numeral.toNat read.1 : Int) else Numeral.toNat read.1,
            read.2)
      else none := by
  unfold scanExponent
  by_cases hmark : c = 'e' ∨ c = 'E'
  · simp only [if_pos hmark]
    split
    · rename_i rest hread
      have hspan : spanDigits (exponentSign cs).2 = ([], rest) := hread
      rw [scanDigits, hspan]
      rfl
    · rename_i digits rest hdigits hread
      have hspan : spanDigits (exponentSign cs).2 = (digits, rest) := hread
      rw [scanDigits, hspan]
      cases digits with
      | nil =>
          exact absurd rfl hdigits
      | cons d digits =>
          rfl
  · simp only [if_neg hmark]

theorem scanExponent_of_ne {c : Char} (hlower : c ≠ 'e') (hupper : c ≠ 'E') (cs : List Char) :
    scanExponent (c :: cs) = none := by
  rw [scanExponent_cons, if_neg (by simp [hlower, hupper])]

theorem exists_mark_of_scanExponent {cs : List Char} {read : Int × List Char}
    (h : scanExponent cs = some read) : ∃ c rest, cs = c :: rest ∧ (c = 'e' ∨ c = 'E') := by
  cases cs with
  | nil =>
      cases h
  | cons c cs =>
      by_cases hmark : c = 'e' ∨ c = 'E'
      · exact ⟨c, cs, rfl, hmark⟩
      · rw [scanExponent_cons, if_neg hmark] at h
        cases h

theorem scanExponent_append {cs rest : List Char} {power : Int}
    (h : scanExponent cs = some (power, rest)) (hrest : rest ≠ []) (tail : List Char) :
    scanExponent (cs ++ tail) = some (power, rest ++ tail) := by
  obtain ⟨c, cs, rfl, hmark⟩ := exists_mark_of_scanExponent h
  rw [scanExponent_cons, if_pos hmark] at h
  obtain ⟨⟨digits, digitsRest⟩, hdigits, hread⟩ := Option.map_eq_some_iff.mp h
  obtain ⟨rfl, rfl⟩ := Prod.mk.inj hread
  have hcs : cs ≠ [] := by
    intro h
    rcases h with rfl
    cases hdigits
  rw [List.cons_append, scanExponent_cons, if_pos hmark, exponentSign_append hcs,
    scanDigits_append hdigits hrest]
  rfl

/-! ## Parts of a number -/

def numberValue (negative : Bool) (whole fraction : List Char) (power : Option Int) : Value :=
  match fraction, power with
  | [], none =>
      let n : Int := Numeral.toNat whole
      .int (if negative then -n else n)
  | _, power =>
      let decimal : Decimal :=
        ⟨Numeral.toNat (whole ++ fraction), power.getD 0 - fraction.length⟩
      .float (decimal.toBinary64 negative)

def optionalFraction (cs : List Char) : List Char × List Char :=
  (scanFraction cs).getD ([], cs)

def optionalExponent (cs : List Char) : Option Int × List Char :=
  match scanExponent cs with
  | some (power, rest) => (some power, rest)
  | none => (none, cs)

def scanUnsigned (negative : Bool) (cs : List Char) : Option (Value × List Char) :=
  (scanWhole cs).map fun read =>
    let fraction := optionalFraction read.2
    let exponent := optionalExponent fraction.2
    (numberValue negative read.1 fraction.1 exponent.1, exponent.2)

def numberSign (cs : List Char) : Bool × List Char :=
  match cs with
  | '-' :: rest => (true, rest)
  | _ => (false, cs)

theorem scanNumber_eq (cs : List Char) :
    scanNumber cs = scanUnsigned (numberSign cs).1 (numberSign cs).2 := by
  unfold scanNumber scanUnsigned
  split
  rename_i negative rest hread
  have hsign : numberSign cs = (negative, rest) := hread
  rw [hsign]
  cases scanWhole rest with
  | none =>
      rfl
  | some read =>
      obtain ⟨whole, rest⟩ := read
      simp only [Option.map_some, optionalFraction, optionalExponent]
      generalize (scanFraction rest).getD ([], rest) = fraction
      obtain ⟨fraction, rest⟩ := fraction
      cases scanExponent rest with
      | none =>
          cases fraction with
          | nil =>
              rfl
          | cons c fraction =>
              rfl
      | some exponent =>
          cases fraction with
          | nil =>
              rfl
          | cons c fraction =>
              rfl

theorem numberSign_of_ne {c : Char} (h : c ≠ '-') (cs : List Char) :
    numberSign (c :: cs) = (false, c :: cs) := by
  simp [numberSign, h]

theorem optionalExponent_append {cs : List Char} (h : EndsNumber (optionalExponent cs).2)
    (tail : List Char) :
    optionalExponent (cs ++ tail) = ((optionalExponent cs).1, (optionalExponent cs).2 ++ tail) := by
  unfold optionalExponent at h ⊢
  cases hexponent : scanExponent cs with
  | some read =>
      simp only [hexponent] at h
      rw [scanExponent_append hexponent h.ne_nil]
  | none =>
      simp only [hexponent] at h
      obtain ⟨c, ds, rfl, hc⟩ := h
      have hmark := not_mark_of_not_continues hc
      rw [List.cons_append, scanExponent_of_ne hmark.2.1 hmark.2.2]

theorem exists_cons_of_optionalExponent {cs : List Char}
    (h : EndsNumber (optionalExponent cs).2) : ∃ c ds, cs = c :: ds ∧ c ≠ '.' := by
  unfold optionalExponent at h
  cases hexponent : scanExponent cs with
  | some read =>
      obtain ⟨c, ds, rfl, rfl | rfl⟩ := exists_mark_of_scanExponent hexponent
      · exact ⟨'e', ds, rfl, by decide⟩
      · exact ⟨'E', ds, rfl, by decide⟩
  | none =>
      simp only [hexponent] at h
      obtain ⟨c, ds, rfl, hc⟩ := h
      exact ⟨c, ds, rfl, (not_mark_of_not_continues hc).1⟩

theorem optionalFraction_append {cs ds : List Char} {c : Char}
    (h : (optionalFraction cs).2 = c :: ds) (hc : c ≠ '.') (tail : List Char) :
    optionalFraction (cs ++ tail) = ((optionalFraction cs).1, (optionalFraction cs).2 ++ tail) := by
  unfold optionalFraction at h ⊢
  cases hfraction : scanFraction cs with
  | some read =>
      rw [hfraction] at h
      have hne : read.2 ≠ [] := by
        rw [show read.2 = c :: ds from h]
        exact List.cons_ne_nil c ds
      rw [scanFraction_append hfraction hne]
      rfl
  | none =>
      rw [hfraction] at h
      obtain rfl : cs = c :: ds := h
      rw [List.cons_append, scanFraction_of_ne hc]
      rfl

theorem scanUnsigned_append {negative : Bool} {cs rest : List Char} {value : Value}
    (h : scanUnsigned negative cs = some (value, rest)) (hrest : EndsNumber rest)
    (tail : List Char) :
    scanUnsigned negative (cs ++ tail) = some (value, rest ++ tail) := by
  obtain ⟨⟨whole, behind⟩, hwhole, hread⟩ := Option.map_eq_some_iff.mp h
  obtain ⟨rfl, rfl⟩ := Prod.mk.inj hread
  obtain ⟨c, ds, hfraction, hc⟩ := exists_cons_of_optionalExponent hrest
  have hbehind : behind ≠ [] := by
    intro h
    rcases h with rfl
    cases hfraction
  rw [scanUnsigned, scanWhole_append hwhole hbehind, Option.map_some]
  simp only [optionalFraction_append hfraction hc, optionalExponent_append hrest]

/-! ## Numbers -/

def BeginsNumber (cs : List Char) : Prop :=
  ∃ c rest, cs = c :: rest ∧ (isDigit c = true ∨ c = '-')

theorem exists_digit_of_scanUnsigned {negative : Bool} {cs : List Char}
    {read : Value × List Char} (h : scanUnsigned negative cs = some read) :
    ∃ c rest, cs = c :: rest ∧ isDigit c = true := by
  obtain ⟨whole, hwhole, _⟩ := Option.map_eq_some_iff.mp h
  exact exists_digit_of_scanWhole hwhole

theorem scanNumber_append {cs rest : List Char} {value : Value}
    (h : scanNumber cs = some (value, rest)) (hrest : EndsNumber rest) (tail : List Char) :
    scanNumber (cs ++ tail) = some (value, rest ++ tail) := by
  rw [scanNumber_eq] at h ⊢
  cases cs with
  | nil =>
      cases h
  | cons c cs =>
      by_cases hc : c = '-'
      · subst hc
        have hunsigned : scanUnsigned true cs = some (value, rest) := h
        exact scanUnsigned_append hunsigned hrest tail
      · rw [numberSign_of_ne hc] at h
        rw [List.cons_append, numberSign_of_ne hc]
        exact scanUnsigned_append h hrest tail

/-- A number begins with a digit, or with a minus sign in front of one. -/
theorem exists_digit_of_scanNumber {cs : List Char} {read : Value × List Char}
    (h : scanNumber cs = some read) :
    ∃ c rest, isDigit c = true ∧ (cs = c :: rest ∨ cs = '-' :: c :: rest) := by
  rw [scanNumber_eq] at h
  obtain ⟨c, rest, hcs, hc⟩ := exists_digit_of_scanUnsigned h
  refine ⟨c, rest, hc, ?_⟩
  cases cs with
  | nil =>
      cases hcs
  | cons d cs =>
      by_cases hd : d = '-'
      · subst hd
        exact Or.inr (congrArg _ hcs)
      · rw [numberSign_of_ne hd] at hcs
        exact Or.inl hcs

theorem beginsNumber_of_scanNumber {cs : List Char} {read : Value × List Char}
    (h : scanNumber cs = some read) : BeginsNumber cs := by
  obtain ⟨c, rest, hc, rfl | rfl⟩ := exists_digit_of_scanNumber h
  · exact ⟨c, rest, rfl, Or.inl hc⟩
  · exact ⟨'-', c :: rest, rfl, Or.inr rfl⟩

theorem scanValue_number {cs : List Char} {read : Value × List Char}
    (h : scanNumber cs = some read) (depth : Nat) : scanValue (depth + 1) cs = .ok read := by
  obtain ⟨c, rest, hc, hcs⟩ := exists_digit_of_scanNumber h
  -- No other value begins with a digit; the one with a minus sign goes on with a letter.
  rcases hcs with rfl | rfl
  · unfold scanValue
    split
    case h_10 =>
      rw [h]
    all_goals
      rename_i heq
      rw [(List.cons.inj heq).1] at hc
      exact absurd hc (by decide)
  · unfold scanValue
    split
    case h_10 =>
      rw [h]
    case h_9 =>
      rename_i heq
      rw [(List.cons.inj (List.cons.inj heq).2).1] at hc
      exact absurd hc (by decide)
    all_goals
      rename_i heq
      exact absurd (List.cons.inj heq).1 (by decide)

end Json
end Highlighting
