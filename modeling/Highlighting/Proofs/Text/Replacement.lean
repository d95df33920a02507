import Highlighting.Proofs.Data.Assoc
import Mathlib.Data.List.Basic

/-!
# Replacements in turn

A replacement puts a word for every occurrence of a pattern, over the whole text. When single
characters are replaced in turn, every replacement goes over the words that the ones before it have
left. It changes none of them if no word holds a character that is still to be replaced; then the
replacements together write every character of the text on its own.
-/

namespace Highlighting
namespace Replacement

def replaceAll (pattern word : List Char) : List Char → List Char
  | [] => []
  | c :: cs =>
      if pattern <+: c :: cs then word ++ replaceAll pattern word (cs.drop (pattern.length - 1))
      else c :: replaceAll pattern word cs
termination_by cs => cs.length
decreasing_by
  · rw [List.length_drop, List.length_cons]
    omega
  · exact Nat.lt_succ_self _

def inTurn (replacements : List (Char × List Char)) (cs : List Char) : List Char :=
  replacements.foldl (fun text entry => replaceAll [entry.1] entry.2 text) cs

def wordFor (replacements : List (Char × List Char)) (c : Char) : List Char :=
  (Assoc.find? c replacements).getD [c]

/-- No word holds a character that is replaced by a later entry. -/
def Settled (replacements : List (Char × List Char)) : Prop :=
  replacements.Pairwise fun earlier later => later.1 ∉ earlier.2

instance (replacements : List (Char × List Char)) : Decidable (Settled replacements) :=
  inferInstanceAs (Decidable (List.Pairwise _ _))

theorem replaceAll_singleton (c : Char) (word cs : List Char) :
    replaceAll [c] word cs = cs.flatMap fun d => if c = d then word else [d] := by
  induction cs with
  | nil =>
      rw [replaceAll, List.flatMap_nil]
  | cons d cs ih =>
      have hstart : [c] <+: d :: cs ↔ c = d := by
        rw [List.cons_prefix_cons, and_iff_left List.nil_prefix]
      rw [replaceAll, List.flatMap_cons, ← ih]
      by_cases hcd : c = d
      · rw [if_pos (hstart.mpr hcd), if_pos hcd]
        rfl
      · rw [if_neg fun h => hcd (hstart.mp h), if_neg hcd]
        rfl

theorem wordFor_cons (entry : Char × List Char) (rest : List (Char × List Char)) (c : Char) :
    wordFor (entry :: rest) c = if entry.1 = c then entry.2 else wordFor rest c := by
  rw [wordFor, Assoc.find?]
  split
  · rfl
  · rfl

theorem wordFor_of_not_mem {replacements : List (Char × List Char)} {c : Char}
    (h : c ∉ Assoc.keys replacements) : wordFor replacements c = [c] := by
  rw [wordFor, Assoc.find?_eq_none_of_not_mem h, Option.getD_none]

theorem flatMap_wordFor_eq_self {replacements : List (Char × List Char)} {word : List Char}
    (h : ∀ entry ∈ replacements, entry.1 ∉ word) : word.flatMap (wordFor replacements) = word := by
  have hword : ∀ c ∈ word, wordFor replacements c = [c] := by
    intro c hc
    apply wordFor_of_not_mem
    intro hmem
    rcases List.mem_map.mp hmem with ⟨entry, hentry, rfl⟩
    exact h entry hentry hc
  rw [List.flatMap_congr hword, List.flatMap_singleton']

/-- Replacing in turn is writing every character on its own. -/
theorem inTurn_eq_flatMap {replacements : List (Char × List Char)} (h : Settled replacements)
    (cs : List Char) : inTurn replacements cs = cs.flatMap (wordFor replacements) := by
  induction replacements generalizing cs with
  | nil =>
      exact (List.flatMap_singleton' cs).symm
  | cons entry rest ih =>
      rcases List.pairwise_cons.mp h with ⟨hentry, hrest⟩
      have hfirst : inTurn (entry :: rest) cs = inTurn rest (replaceAll [entry.1] entry.2 cs) := rfl
      rw [hfirst, ih hrest, replaceAll_singleton, List.flatMap_assoc]
      apply List.flatMap_congr
      intro c _
      rw [wordFor_cons]
      split
      · exact flatMap_wordFor_eq_self hentry
      · exact List.flatMap_singleton _ _

end Replacement
end Highlighting
