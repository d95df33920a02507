import Mathlib.Data.List.Infix

/-!
# Prefix codes

A code that writes every symbol as a word, where no word is empty or begins another one. Symbols
that are written one after the other can then be told apart without any mark between them.
-/

namespace Highlighting

/-- Words for symbols, none of them empty and none of them the beginning of another. -/
structure PrefixCode (σ α : Type) where
  encode : σ → List α
  nonempty : ∀ s, encode s ≠ []
  prefixFree : ∀ {s t}, encode s <+: encode t → s = t

namespace PrefixCode

/-! ## Codes with a reader -/

section Readers

variable {σ α : Type} {encode : σ → List α} {read : List α → List σ}

theorem ne_nil_of_read (h : ∀ s rest, read (encode s ++ rest) = s :: read rest) (s : σ) :
    encode s ≠ [] := by
  intro hempty
  have hlength := congrArg List.length (h s [])
  simp [hempty] at hlength

theorem eq_of_prefix_of_read (h : ∀ s rest, read (encode s ++ rest) = s :: read rest) {s t : σ}
    (hstart : encode s <+: encode t) : s = t := by
  rcases hstart with ⟨rest, heq⟩
  have hread := h t []
  rw [List.append_nil, ← heq, h s rest] at hread
  exact List.head_eq_of_cons_eq hread

end Readers

/-! ## Encoded symbols -/

variable {σ α : Type} (code : PrefixCode σ α)

def encodeAll (symbols : List σ) : List α :=
  symbols.flatMap code.encode

theorem encodeAll_intercalate (separator : List σ) (lists : List (List σ)) :
    code.encodeAll (separator.intercalate lists) =
      (code.encodeAll separator).intercalate (lists.map code.encodeAll) := by
  induction lists with
  | nil =>
      rfl
  | cons list rest ih =>
      cases rest with
      | nil =>
          simp
      | cons next rest =>
          rw [List.map_cons, List.map_cons, List.intercalate_cons_cons, List.intercalate_cons_cons,
            ← List.map_cons, ← ih]
          simp [encodeAll]

theorem encode_append_inj {s t : σ} {a b : List α} (h : code.encode s ++ a = code.encode t ++ b) :
    s = t ∧ a = b := by
  have hleft : code.encode s <+: code.encode t ++ b := ⟨a, h⟩
  have hright : code.encode t <+: code.encode t ++ b := List.prefix_append _ _
  have hst : s = t := by
    rcases List.prefix_or_prefix_of_prefix hleft hright with hst | hts
    · exact code.prefixFree hst
    · exact (code.prefixFree hts).symm
  subst hst
  exact ⟨rfl, List.append_cancel_left h⟩

/-- Where the words of some symbols begin a text of words, the symbols begin its symbols. -/
theorem prefix_of_encodeAll_prefix {first second : List σ}
    (h : code.encodeAll first <+: code.encodeAll second) : first <+: second := by
  induction first generalizing second with
  | nil =>
      exact List.nil_prefix
  | cons s first ih =>
      rcases h with ⟨rest, heq⟩
      cases second with
      | nil =>
          have hempty := (List.append_eq_nil_iff.mp (List.append_eq_nil_iff.mp heq).1).1
          exact absurd hempty (code.nonempty s)
      | cons t second =>
          rw [encodeAll, encodeAll, List.flatMap_cons, List.flatMap_cons,
            List.append_assoc] at heq
          rcases code.encode_append_inj heq with ⟨rfl, hrest⟩
          exact List.cons_prefix_cons.mpr ⟨rfl, ih ⟨rest, hrest⟩⟩

theorem encodeAll_injective : Function.Injective code.encodeAll := by
  intro first second h
  have hfirst : first <+: second :=
    code.prefix_of_encodeAll_prefix (h ▸ List.prefix_refl _)
  have hsecond : second <+: first :=
    code.prefix_of_encodeAll_prefix (h ▸ List.prefix_refl _)
  exact hfirst.eq_of_length_le hsecond.length_le

end PrefixCode
end Highlighting
