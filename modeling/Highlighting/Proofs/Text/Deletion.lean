import Mathlib.Data.List.Infix
import Mathlib.Data.List.Nodup

/-!
# Deleting words

The words of a set are deleted from a text from left to right. Where every word begins with a mark
that it has nowhere else, words do not overlap, and a text can be cut into its words and into the
characters that are kept. The cut shows at once what is left of the text and where words occur in it.
-/

namespace Highlighting
namespace Deletion

section Words

variable (IsWord : List Char → Prop) [DecidablePred IsWord]

def wordsAt (cs : List Char) : List (List Char) :=
  cs.inits.filter fun word => IsWord word

/-- Words of a text from left to right, also where they overlap. -/
def occurrences : List Char → List (List Char)
  | [] => []
  | c :: cs => wordsAt IsWord (c :: cs) ++ occurrences cs

/-- Text without its words, which are looked for behind the end of the one before. -/
def deleteAll : List Char → List Char
  | [] => []
  | c :: cs =>
      match wordsAt IsWord (c :: cs) with
      | [] => c :: deleteAll cs
      | word :: _ => deleteAll (cs.drop (word.length - 1))
termination_by cs => cs.length
decreasing_by
  · exact Nat.lt_succ_self _
  · rw [List.length_drop, List.length_cons]
    omega

/-- Every word begins with a mark that it has nowhere else. -/
def Marked (mark : Char) : Prop :=
  ∀ word, IsWord word → ∃ rest, word = mark :: rest ∧ mark ∉ rest

/-- Text cut into characters that are kept, and words that are not. -/
inductive Cut : List Char → List Char → List (List Char) → Prop where
  | nil : Cut [] [] []
  | keep {c : Char} {cs kept : List Char} {words : List (List Char)}
      (hnone : wordsAt IsWord (c :: cs) = []) (h : Cut cs kept words) : Cut (c :: cs) (c :: kept) words
  | word {c : Char} {cs rest kept : List Char} {words : List (List Char)}
      (hone : wordsAt IsWord (c :: (cs ++ rest)) = [c :: cs])
      (hinside : ∀ after, after <:+ cs → after ≠ [] → wordsAt IsWord (after ++ rest) = [])
      (h : Cut rest kept words) : Cut (c :: (cs ++ rest)) kept ((c :: cs) :: words)

end Words

variable {IsWord : List Char → Prop} [DecidablePred IsWord]

/-! ## Words at one place -/

theorem mem_wordsAt {word cs : List Char} : word ∈ wordsAt IsWord cs ↔ word <+: cs ∧ IsWord word := by
  rw [wordsAt, List.mem_filter, List.mem_inits, decide_eq_true_iff]

theorem wordsAt_eq_nil_iff {cs : List Char} :
    wordsAt IsWord cs = [] ↔ ∀ word, word <+: cs → ¬ IsWord word := by
  rw [List.eq_nil_iff_forall_not_mem]
  constructor
  · intro h word hstart hword
    exact h word (mem_wordsAt.mpr ⟨hstart, hword⟩)
  · intro h word hmem
    exact h word (mem_wordsAt.mp hmem).1 (mem_wordsAt.mp hmem).2

theorem nodup_inits (cs : List Char) : cs.inits.Nodup := by
  induction cs with
  | nil =>
      exact List.nodup_singleton []
  | cons c cs ih =>
      rw [List.inits_cons, List.nodup_cons]
      constructor
      · intro hmem
        rcases List.mem_map.mp hmem with ⟨front, _, heq⟩
        cases heq
      · exact ih.map List.cons_injective

theorem wordsAt_append {word rest : List Char} (hword : IsWord word)
    (honly : ∀ other, other <+: word ++ rest → IsWord other → other = word) :
    wordsAt IsWord (word ++ rest) = [word] := by
  have hperm : (wordsAt IsWord (word ++ rest)).Perm [word] := by
    apply (List.perm_ext_iff_of_nodup ((nodup_inits _).filter _) (List.nodup_singleton word)).mpr
    intro other
    rw [List.mem_singleton, ← wordsAt, mem_wordsAt]
    constructor
    · intro h
      exact honly other h.1 h.2
    · intro heq
      rw [heq]
      exact ⟨List.prefix_append word rest, hword⟩
  exact List.perm_singleton.mp hperm

theorem wordsAt_of_ne {mark c : Char} (hmark : Marked IsWord mark) (hc : c ≠ mark) (cs : List Char) :
    wordsAt IsWord (c :: cs) = [] := by
  rw [wordsAt_eq_nil_iff]
  intro word hstart hword
  rcases hmark word hword with ⟨rest, heq, _⟩
  rw [heq] at hstart
  exact hc (List.cons_prefix_cons.mp hstart).1.symm

theorem occurrences_append {a rest : List Char}
    (h : ∀ after, after <:+ a → after ≠ [] → wordsAt IsWord (after ++ rest) = []) :
    occurrences IsWord (a ++ rest) = occurrences IsWord rest := by
  induction a with
  | nil =>
      rfl
  | cons c a ih =>
      have hfirst := h (c :: a) (List.suffix_refl _) (List.cons_ne_nil c a)
      have hrest := ih fun after hafter => h after (hafter.trans (List.suffix_cons c a))
      rw [List.cons_append] at hfirst
      rw [List.cons_append, occurrences, hfirst, hrest, List.nil_append]

/-! ## Cuts -/

namespace Cut

variable {cs kept : List Char} {words : List (List Char)}

theorem deleteAll_eq (h : Cut IsWord cs kept words) : deleteAll IsWord cs = kept := by
  induction h with
  | nil =>
      rw [deleteAll]
  | keep hnone h ih =>
      rw [deleteAll, hnone, ih]
  | @word c cs rest kept words hone hinside h ih =>
      have hdrop : (cs ++ rest).drop ((c :: cs).length - 1) = rest :=
        List.drop_left
      rw [deleteAll, hone]
      simp only [hdrop]
      exact ih

/-- The words of a cut are all there are, at whatever place. -/
theorem occurrences_eq (h : Cut IsWord cs kept words) : occurrences IsWord cs = words := by
  induction h with
  | nil =>
      rfl
  | keep hnone h ih =>
      rw [occurrences, hnone, ih, List.nil_append]
  | word hone hinside h ih =>
      rw [occurrences, hone, occurrences_append hinside, ih, List.singleton_append]

variable {mark : Char}

theorem cons_of_ne (hmark : Marked IsWord mark) {c : Char} (hc : c ≠ mark)
    (h : Cut IsWord cs kept words) : Cut IsWord (c :: cs) (c :: kept) words :=
  .keep (wordsAt_of_ne hmark hc cs) h

theorem append_of_not_mem (hmark : Marked IsWord mark) {a : List Char} (ha : mark ∉ a)
    (h : Cut IsWord cs kept words) : Cut IsWord (a ++ cs) (a ++ kept) words := by
  induction a with
  | nil =>
      exact h
  | cons c a ih =>
      rw [List.mem_cons, not_or] at ha
      exact cons_of_ne hmark (Ne.symm ha.1) (ih ha.2)

theorem append_word (hmark : Marked IsWord mark) {word : List Char} (hword : IsWord word)
    (honly : ∀ other, other <+: word ++ cs → IsWord other → other = word)
    (h : Cut IsWord cs kept words) : Cut IsWord (word ++ cs) kept (word :: words) := by
  have hone := wordsAt_append hword honly
  rcases hmark word hword with ⟨rest, heq, hrest⟩
  rw [heq] at hone ⊢
  apply Cut.word hone _ h
  intro after hafter hne
  cases after with
  | nil =>
      exact absurd rfl hne
  | cons c after =>
      have hmem : c ∈ rest := hafter.subset List.mem_cons_self
      have hc : c ≠ mark := fun heq => hrest (heq ▸ hmem)
      exact wordsAt_of_ne hmark hc (after ++ cs)

end Cut
end Deletion
end Highlighting
