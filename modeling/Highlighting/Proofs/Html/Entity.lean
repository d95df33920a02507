import Highlighting.Html.Entity

/-!
# Laws of character entities

Encoded text holds no character that could be read as markup, and decoding it gives the text back
whatever follows it.
-/

namespace Highlighting
namespace Html

theorem escapeChars_cons (c : Char) (cs : List Char) :
    escapeChars (c :: cs) = escapeChar c ++ escapeChars cs :=
  rfl

theorem mem_escapeChar {c d : Char} (h : d ∈ escapeChar c) :
    d ≠ '<' ∧ d ≠ '>' ∧ d ≠ '"' ∧ d ≠ '\'' := by
  unfold escapeChar at h
  split at h
  · revert d
    simp
  · revert d
    simp
  · revert d
    simp
  · revert d
    simp
  · revert d
    simp
  · rename_i hlt hgt hquote hapostrophe
    rw [List.mem_singleton] at h
    subst h
    exact ⟨hlt, hgt, hquote, hapostrophe⟩

theorem mem_escapeChars {cs : List Char} {d : Char} (h : d ∈ escapeChars cs) :
    d ≠ '<' ∧ d ≠ '>' ∧ d ≠ '"' ∧ d ≠ '\'' := by
  rcases List.mem_flatMap.mp h with ⟨c, _, hd⟩
  exact mem_escapeChar hd

def entities : List (List Char) :=
  ["&amp;".toList, "&lt;".toList, "&gt;".toList, "&quot;".toList, "&#x27;".toList]

theorem escapeChar_cases (c : Char) :
    escapeChar c = [c] ∨ c ∈ ['&', '<', '>', '"', '\''] ∧ escapeChar c ∈ entities := by
  unfold escapeChar
  split
  · exact Or.inr (by decide)
  · exact Or.inr (by decide)
  · exact Or.inr (by decide)
  · exact Or.inr (by decide)
  · exact Or.inr (by decide)
  · exact Or.inl rfl

/-- A character that no entity uses is in an encoded text only if it is in the text. -/
theorem mem_of_mem_escapeChars {cs : List Char} {d : Char} (hd : ∀ entity ∈ entities, d ∉ entity)
    (h : d ∈ escapeChars cs) : d ∈ cs := by
  rcases List.mem_flatMap.mp h with ⟨c, hc, hmem⟩
  rcases escapeChar_cases c with hplain | hentity
  · rw [hplain, List.mem_singleton] at hmem
    rw [hmem]
    exact hc
  · exact absurd hmem (hd _ hentity.2)

theorem escapeChars_eq_self {cs : List Char} (h : ∀ c ∈ cs, c ∉ ['&', '<', '>', '"', '\'']) :
    escapeChars cs = cs := by
  induction cs with
  | nil =>
      rfl
  | cons c cs ih =>
      have hrest := ih fun d hd => h d (List.mem_cons_of_mem c hd)
      rcases escapeChar_cases c with hplain | hentity
      · rw [escapeChars_cons, hplain, hrest, List.singleton_append]
      · exact absurd hentity.1 (h c List.mem_cons_self)

theorem unescapeChars_cons {c : Char} (h : c ≠ '&') (rest : List Char) :
    unescapeChars (c :: rest) = c :: unescapeChars rest := by
  rw [unescapeChars]
  all_goals
    intro tail hc
    exact absurd hc h

theorem unescapeChars_escapeChar_append (c : Char) (rest : List Char) :
    unescapeChars (escapeChar c ++ rest) = c :: unescapeChars rest := by
  unfold escapeChar
  split
  · rfl
  · rfl
  · rfl
  · rfl
  · rfl
  · rename_i hamp _ _ _ _
    exact unescapeChars_cons hamp rest

theorem unescapeChars_escapeChars_append (cs rest : List Char) :
    unescapeChars (escapeChars cs ++ rest) = cs ++ unescapeChars rest := by
  induction cs with
  | nil =>
      rfl
  | cons c cs ih =>
      rw [escapeChars_cons, List.append_assoc, unescapeChars_escapeChar_append, ih,
        List.cons_append]

theorem unescapeChars_escapeChars (cs : List Char) : unescapeChars (escapeChars cs) = cs := by
  simpa [unescapeChars] using unescapeChars_escapeChars_append cs []

end Html
end Highlighting
