import Highlighting.Proofs.Json.Extension
import Mathlib.Data.List.TakeWhile

/-!
# Numbers and strings in front of a delimiter

A number ends at the end of the text and in front of a blank, a comma or a closing bracket, and a
string ends at its closing quote. What a scanner leaves is an end of what it was given, so that it
splits a text of its own off: this text is read as the same number in front of all such characters,
and as the same string in front of everything.
-/

namespace Highlighting
namespace Json

variable {α : Type}

/-! ## Numbers -/

/--
A text that no number goes on with: it is empty, or begins with a character that is no part of a
number.
-/
def Delimited (tail : List Char) : Prop :=
  ∀ c rest, tail = c :: rest → continuesNumber c = false ∧ c ≠ '-' ∧ c ≠ '+'

def followedBy (tail : List Char) (read : α × List Char) : α × List Char :=
  (read.1, read.2 ++ tail)

theorem delimited_nil : Delimited [] := by
  intro c rest h
  cases h

theorem delimited_cons {c : Char} (hc : continuesNumber c = false) (hminus : c ≠ '-')
    (hplus : c ≠ '+') (rest : List Char) : Delimited (c :: rest) := by
  intro c' rest' h
  rw [← (List.cons.inj h).1]
  exact ⟨hc, hminus, hplus⟩

theorem delimited_bracket (rest : List Char) : Delimited (']' :: rest) :=
  delimited_cons rfl (by decide) (by decide) rest

theorem delimited_comma (rest : List Char) : Delimited (',' :: rest) :=
  delimited_cons rfl (by decide) (by decide) rest

theorem delimited_brace (rest : List Char) : Delimited ('}' :: rest) :=
  delimited_cons rfl (by decide) (by decide) rest

theorem isDigit_of_not_continues {c : Char} (h : continuesNumber c = false) :
    isDigit c = false := by
  simp only [continuesNumber, Bool.or_eq_false_iff] at h
  exact h.1.1.1

theorem delimited_of_isBlank {c : Char} (h : isBlank c = true) (rest : List Char) :
    Delimited (c :: rest) := by
  simp only [isBlank, Bool.or_eq_true, beq_iff_eq] at h
  rcases h with ((rfl | rfl) | rfl) | rfl
  all_goals
    exact delimited_cons rfl (by decide) (by decide) rest

theorem delimited_blanks_append {blanks : List Char} (h : ∀ c ∈ blanks, isBlank c = true)
    {tail : List Char} (htail : Delimited tail) : Delimited (blanks ++ tail) := by
  cases blanks with
  | nil =>
      exact htail
  | cons c blanks =>
      exact delimited_of_isBlank (h c List.mem_cons_self) (blanks ++ tail)

theorem spanDigits_suffix (cs : List Char) : (spanDigits cs).2 <:+ cs :=
  List.dropWhile_suffix isDigit

theorem scanDigits_eq (cs : List Char) :
    scanDigits cs = if (spanDigits cs).1 = [] then none else some (spanDigits cs) := by
  unfold scanDigits
  split
  · rename_i rest hspan
    rw [hspan]
    rfl
  · rename_i hdigits
    rw [if_neg]
    intro hnil
    exact hdigits (spanDigits cs).2 (Prod.ext hnil rfl)

theorem scanDigits_suffix {cs : List Char} {read : List Char × List Char}
    (h : scanDigits cs = some read) : read.2 <:+ cs := by
  rw [scanDigits_eq] at h
  split at h
  · cases h
  · cases h
    exact spanDigits_suffix cs

theorem scanWhole_suffix {cs : List Char} {read : List Char × List Char}
    (h : scanWhole cs = some read) : read.2 <:+ cs := by
  cases cs with
  | nil =>
      cases h
  | cons c cs =>
      by_cases hc : c = '0'
      · subst hc
        cases h
        exact List.suffix_cons '0' cs
      · rw [scanWhole_of_ne hc] at h
        exact scanDigits_suffix h

theorem optionalFraction_suffix (cs : List Char) : (optionalFraction cs).2 <:+ cs := by
  unfold optionalFraction
  cases h : scanFraction cs with
  | none =>
      exact List.suffix_refl cs
  | some read =>
      cases cs with
      | nil =>
          cases h
      | cons c cs =>
          by_cases hc : c = '.'
          · subst hc
            have hdigits : scanDigits cs = some read := h
            exact (scanDigits_suffix hdigits).trans (List.suffix_cons '.' cs)
          · rw [scanFraction_of_ne hc] at h
            cases h

theorem exponentSign_suffix (cs : List Char) : (exponentSign cs).2 <:+ cs := by
  unfold exponentSign
  split
  · exact List.suffix_cons '-' _
  · exact List.suffix_cons '+' _
  · exact List.suffix_refl cs

theorem optionalExponent_suffix (cs : List Char) : (optionalExponent cs).2 <:+ cs := by
  unfold optionalExponent
  cases h : scanExponent cs with
  | none =>
      exact List.suffix_refl cs
  | some read =>
      rcases exists_mark_of_scanExponent h with ⟨c, rest, rfl, hmark⟩
      rw [scanExponent_cons, if_pos hmark] at h
      rcases Option.map_eq_some_iff.mp h with ⟨digits, hdigits, hread⟩
      have hrest : digits.2 = read.2 := congrArg Prod.snd hread
      have hsuffix := scanDigits_suffix hdigits
      rw [hrest] at hsuffix
      exact (hsuffix.trans (exponentSign_suffix rest)).trans (List.suffix_cons c rest)

theorem scanNumber_suffix {cs : List Char} {read : Value × List Char}
    (h : scanNumber cs = some read) : read.2 <:+ cs := by
  rw [scanNumber_eq] at h
  rcases Option.map_eq_some_iff.mp h with ⟨whole, hwhole, rfl⟩
  have hsign : (numberSign cs).2 <:+ cs := by
    unfold numberSign
    split
    · exact List.suffix_cons '-' _
    · exact List.suffix_refl cs
  exact (((optionalExponent_suffix _).trans (optionalFraction_suffix _)).trans
    (scanWhole_suffix hwhole)).trans hsign

section Numbers

variable {tail : List Char}

theorem spanDigits_delimited (h : Delimited tail) (cs : List Char) :
    spanDigits (cs ++ tail) = followedBy tail (spanDigits cs) := by
  induction cs with
  | nil =>
      cases tail with
      | nil =>
          rfl
      | cons c rest =>
          have hdigit := isDigit_of_not_continues (h c rest rfl).1
          simp [spanDigits, followedBy, hdigit]
  | cons c cs ih =>
      cases hc : isDigit c with
      | true =>
          have hspan : ∀ ds, spanDigits (c :: ds) =
              (c :: (spanDigits ds).1, (spanDigits ds).2) := by
            intro ds
            simp [spanDigits, hc]
          rw [List.cons_append, hspan, hspan, ih]
          rfl
      | false =>
          simp [spanDigits, followedBy, hc]

theorem scanDigits_delimited (h : Delimited tail) (cs : List Char) :
    scanDigits (cs ++ tail) = (scanDigits cs).map (followedBy tail) := by
  rw [scanDigits_eq, scanDigits_eq, spanDigits_delimited h]
  by_cases hnil : (spanDigits cs).1 = []
  · rw [if_pos hnil]
    exact if_pos hnil
  · rw [if_neg hnil]
    exact if_neg hnil

theorem scanWhole_delimited (h : Delimited tail) (cs : List Char) :
    scanWhole (cs ++ tail) = (scanWhole cs).map (followedBy tail) := by
  have hwhole : ∀ {c : Char} (ds : List Char), c ≠ '0' →
      scanWhole (c :: ds) = scanDigits (c :: ds) := fun ds hc => scanWhole_of_ne hc ds
  cases cs with
  | nil =>
      cases tail with
      | nil =>
          rfl
      | cons c rest =>
          have hzero : c ≠ '0' := by
            intro hc
            have hstop := (h c rest rfl).1
            rw [hc] at hstop
            cases hstop
          rw [List.nil_append, hwhole rest hzero]
          exact scanDigits_delimited h []
  | cons c cs =>
      by_cases hc : c = '0'
      · subst hc
        rfl
      · rw [List.cons_append, hwhole _ hc, hwhole _ hc]
        exact scanDigits_delimited h (c :: cs)

theorem scanFraction_delimited (h : Delimited tail) (cs : List Char) :
    scanFraction (cs ++ tail) = (scanFraction cs).map (followedBy tail) := by
  cases cs with
  | nil =>
      cases tail with
      | nil =>
          rfl
      | cons c rest =>
          exact scanFraction_of_ne (not_mark_of_not_continues (h c rest rfl).1).1 rest
  | cons c cs =>
      by_cases hc : c = '.'
      · subst hc
        exact scanDigits_delimited h cs
      · rw [List.cons_append, scanFraction_of_ne hc, scanFraction_of_ne hc]
        rfl

theorem exponentSign_delimited (h : Delimited tail) (cs : List Char) :
    exponentSign (cs ++ tail) = followedBy tail (exponentSign cs) := by
  cases cs with
  | nil =>
      cases tail with
      | nil =>
          rfl
      | cons c rest =>
          have hsign := (h c rest rfl).2
          simp [exponentSign, followedBy, hsign.1, hsign.2]
  | cons c cs =>
      exact exponentSign_append (List.cons_ne_nil c cs) tail

theorem scanExponent_delimited (h : Delimited tail) (cs : List Char) :
    scanExponent (cs ++ tail) = (scanExponent cs).map (followedBy tail) := by
  cases cs with
  | nil =>
      cases tail with
      | nil =>
          rfl
      | cons c rest =>
          have hmark := not_mark_of_not_continues (h c rest rfl).1
          exact scanExponent_of_ne hmark.2.1 hmark.2.2 rest
  | cons c cs =>
      rw [List.cons_append, scanExponent_cons, scanExponent_cons]
      by_cases hmark : c = 'e' ∨ c = 'E'
      · rw [if_pos hmark, if_pos hmark, exponentSign_delimited h, followedBy,
          scanDigits_delimited h, Option.map_map, Option.map_map]
        rfl
      · rw [if_neg hmark, if_neg hmark]
        rfl

theorem optionalFraction_delimited (h : Delimited tail) (cs : List Char) :
    optionalFraction (cs ++ tail) = followedBy tail (optionalFraction cs) := by
  rw [optionalFraction, optionalFraction, scanFraction_delimited h]
  cases scanFraction cs with
  | none =>
      rfl
  | some read =>
      rfl

theorem optionalExponent_delimited (h : Delimited tail) (cs : List Char) :
    optionalExponent (cs ++ tail) = followedBy tail (optionalExponent cs) := by
  rw [optionalExponent, optionalExponent, scanExponent_delimited h]
  cases scanExponent cs with
  | none =>
      rfl
  | some read =>
      rfl

theorem scanUnsigned_delimited (h : Delimited tail) (negative : Bool) (cs : List Char) :
    scanUnsigned negative (cs ++ tail) = (scanUnsigned negative cs).map (followedBy tail) := by
  rw [scanUnsigned, scanUnsigned, scanWhole_delimited h, Option.map_map, Option.map_map]
  apply congrArg (fun f => Option.map f (scanWhole cs))
  funext read
  simp only [Function.comp_apply, followedBy, optionalFraction_delimited h,
    optionalExponent_delimited h]

/-- A number that ends by itself ends in front of a delimiter. -/
theorem scanNumber_delimited (h : Delimited tail) (cs : List Char) :
    scanNumber (cs ++ tail) = (scanNumber cs).map (followedBy tail) := by
  rw [scanNumber_eq, scanNumber_eq, ← scanUnsigned_delimited h]
  cases cs with
  | nil =>
      cases tail with
      | nil =>
          rfl
      | cons c rest =>
          rw [List.nil_append, numberSign_of_ne (h c rest rfl).2.1]
          rfl
  | cons c cs =>
      by_cases hc : c = '-'
      · subst hc
        rfl
      · rw [List.cons_append, numberSign_of_ne hc, numberSign_of_ne hc, List.cons_append]

end Numbers

/-- A number is split off in front of a delimiter. -/
theorem exists_number_of_scanNumber {cs rest : List Char} {value : Value}
    (h : scanNumber cs = some (value, rest)) (hrest : Delimited rest) :
    ∃ read, cs = read ++ rest ∧
      ∀ tail, Delimited tail → scanNumber (read ++ tail) = some (value, tail) := by
  rcases scanNumber_suffix h with ⟨read, rfl⟩
  rw [scanNumber_delimited hrest] at h
  rcases Option.map_eq_some_iff.mp h with ⟨number, hnumber, hread⟩
  refine ⟨read, rfl, ?_⟩
  intro tail htail
  have hvalue : number.1 = value := congrArg Prod.fst hread
  have hnil : number.2 = [] := List.append_left_eq_self.mp (congrArg Prod.snd hread)
  rw [scanNumber_delimited htail, hnumber, Option.map_some, followedBy, hvalue, hnil]
  rfl

/-! ## Strings -/

theorem exists_pieces_of_scanPieces {opening cs rest : List Char} {pieces : List Piece}
    (h : scanPieces opening cs = .ok (pieces, rest)) :
    ∃ read, cs = read ++ rest ∧
      ∀ opening' tail, scanPieces opening' (read ++ tail) = .ok (pieces, tail) := by
  fun_induction scanPieces opening cs generalizing pieces rest with
  | case2 cs =>
      cases h
      exact ⟨['"'], rfl, fun _ _ => rfl⟩
  | case4 a b c d n e cs hunit ih =>
      rcases cons_eq_ok h with ⟨others, hothers, rfl⟩
      rcases ih hothers with ⟨read, hcs, hread⟩
      refine ⟨'\\' :: 'u' :: a :: b :: c :: d :: read, by rw [hcs]; rfl, ?_⟩
      intro opening' tail
      -- The escape of a code unit needs a character behind it, which the closing quote is at last.
      have hne : read ++ tail ≠ [] := by
        intro hnil
        have hrest := hread opening' tail
        rw [hnil] at hrest
        cases hrest
      have hunits := scanPieces_unit opening' hunit hne
      rw [hread] at hunits
      exact hunits
  | case7 c cs _ hu escaped hescape ih =>
      rcases cons_eq_ok h with ⟨others, hothers, rfl⟩
      rcases ih hothers with ⟨read, hcs, hread⟩
      refine ⟨'\\' :: c :: read, by rw [hcs]; rfl, ?_⟩
      intro opening' tail
      have hshort := scanPieces_shortEscape opening' hu hescape (read ++ tail)
      rw [hread] at hshort
      exact hshort
  | case10 c cs hquote hlast _ _ hescape hcontrol ih =>
      rcases cons_eq_ok h with ⟨others, hothers, rfl⟩
      rcases ih hothers with ⟨read, hcs, hread⟩
      have hbackslash : c ≠ '\\' := by
        intro hc
        cases cs with
        | nil =>
            exact hlast hc rfl
        | cons d cs =>
            exact hescape d cs hc rfl
      refine ⟨c :: read, by rw [hcs]; rfl, ?_⟩
      intro opening' tail
      have hchar := scanPieces_cons opening' hquote hbackslash (Nat.le_of_not_lt hcontrol)
        (read ++ tail)
      rw [hread] at hchar
      exact hchar
  | _ =>
      cases h

theorem exists_string_of_scanString {opening cs rest : List Char} {text : String}
    (h : scanString opening cs = .ok (text, rest)) :
    ∃ read, cs = read ++ rest ∧
      ∀ opening' tail, scanString opening' (read ++ tail) = .ok (text, tail) := by
  rcases map_eq_ok h with ⟨pieces, hpieces, htext⟩
  cases htext
  rcases exists_pieces_of_scanPieces hpieces with ⟨read, hcs, hread⟩
  refine ⟨read, hcs, ?_⟩
  intro opening' tail
  rw [scanString, hread]
  rfl

end Json
end Highlighting
