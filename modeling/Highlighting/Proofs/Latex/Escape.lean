import Highlighting.Latex.Escape

/-!
# Laws of escapes in verbatim material

A character is written as itself or as a backslash with one of three words, and reading the escapes
gives the character back whatever follows it.
-/

namespace Highlighting
namespace Latex

def escapeWords : List (List Char) :=
  [['{'], ['}'], "textbackslash\x7b\x7d".toList]

theorem escapeChar_cases (c : Char) :
    escapeChar c = [c] ∧ c ≠ '\\' ∧ c ≠ '}' ∨ ∃ word ∈ escapeWords, escapeChar c = '\\' :: word := by
  unfold escapeChar
  split
  · exact Or.inr ⟨"textbackslash\x7b\x7d".toList, by decide, rfl⟩
  · exact Or.inr ⟨['{'], by decide, rfl⟩
  · exact Or.inr ⟨['}'], by decide, rfl⟩
  · rename_i hbackslash _ hclose
    exact Or.inl ⟨rfl, hbackslash, hclose⟩

/-- A character that no escape uses is in an escaped text only if it is in the text. -/
theorem mem_of_mem_escapeChars {cs : List Char} {d : Char} (hd : d ≠ '\\')
    (hwords : ∀ word ∈ escapeWords, d ∉ word) (h : d ∈ escapeChars cs) : d ∈ cs := by
  rcases List.mem_flatMap.mp h with ⟨c, hc, hmem⟩
  rcases escapeChar_cases c with ⟨hplain, _, _⟩ | ⟨word, hword, hescape⟩
  · rw [hplain, List.mem_singleton] at hmem
    rw [hmem]
    exact hc
  · rw [hescape, List.mem_cons] at hmem
    rcases hmem with hmem | hmem
    · exact absurd hmem hd
    · exact absurd hmem (hwords word hword)

theorem unescapeChars_cons {c : Char} (h : c ≠ '\\') (rest : List Char) :
    unescapeChars (c :: rest) = c :: unescapeChars rest := by
  rw [unescapeChars]
  all_goals
    intro tail hc
    exact absurd hc h

theorem unescapeChars_escapeChar_append (c : Char) (rest : List Char) :
    unescapeChars (escapeChar c ++ rest) = c :: unescapeChars rest := by
  unfold escapeChar
  split
  · rfl
  · rfl
  · rfl
  · rename_i hbackslash _ _
    exact unescapeChars_cons hbackslash rest

end Latex
end Highlighting
