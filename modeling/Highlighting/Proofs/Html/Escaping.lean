import Highlighting.Proofs.Html.Entity
import Highlighting.Proofs.Text.Replacement

/-!
# Escaping as an encoding

The entities can be put for their characters in turn, the one for the ampersand first: the later
replacements then find nothing in the entities that are already there, and every character is
written on its own. In an escaped text the ampersands begin entities and nothing else, so that a
reader from left to right gives the text back, also in front of any other text.
-/

namespace Highlighting
namespace Html

def unescape (text : String) : String :=
  String.ofList (unescapeChars text.toList)

/-! ## Replacing in turn -/

def replacements : List (Char × List Char) :=
  [('&', "&amp;".toList), ('<', "&lt;".toList), ('>', "&gt;".toList), ('"', "&quot;".toList),
    ('\'', "&#x27;".toList)]

/-- Every entity begins with the ampersand, which is replaced first. -/
theorem settled_replacements : Replacement.Settled replacements := by
  decide

theorem wordFor_replacements (c : Char) : Replacement.wordFor replacements c = escapeChar c := by
  unfold escapeChar
  split
  · rfl
  · rfl
  · rfl
  · rfl
  · rfl
  · rename_i hamp hlt hgt hquote hapostrophe
    have hkeys : Assoc.keys replacements = ['&', '<', '>', '"', '\''] := rfl
    apply Replacement.wordFor_of_not_mem
    simp only [hkeys, List.mem_cons, List.not_mem_nil, or_false, not_or]
    exact ⟨hamp, hlt, hgt, hquote, hapostrophe⟩

theorem inTurn_replacements (cs : List Char) :
    Replacement.inTurn replacements cs = escapeChars cs := by
  rw [Replacement.inTurn_eq_flatMap settled_replacements, funext wordFor_replacements, escapeChars]

/-! ## Ampersands -/

theorem entities_prefix_free : ∀ a ∈ entities, ∀ b ∈ entities, a <+: b → a = b := by
  decide

theorem amp_not_mem_tail : ∀ entity ∈ entities, '&' ∉ entity.tail := by
  decide

theorem entity_of_escapeChar {c : Char} {before after : List Char}
    (h : escapeChar c = before ++ '&' :: after) : before = [] ∧ escapeChar c ∈ entities := by
  have hamp : '&' ∈ escapeChar c := by
    rw [h]
    exact List.mem_append_right before List.mem_cons_self
  have hentity : escapeChar c ∈ entities := by
    rcases escapeChar_cases c with hplain | hentity
    · rw [hplain, List.mem_singleton] at hamp
      rw [← hamp]
      exact List.mem_cons_self
    · exact hentity.2
  refine ⟨?_, hentity⟩
  cases before with
  | nil =>
      rfl
  | cons d before =>
      have hmem : '&' ∈ (escapeChar c).tail := by
        rw [h]
        exact List.mem_append_right before List.mem_cons_self
      exact absurd hmem (amp_not_mem_tail _ hentity)

theorem exists_entity {cs before after : List Char} (h : escapeChars cs = before ++ '&' :: after) :
    ∃ entity ∈ entities, entity <+: '&' :: after := by
  induction cs generalizing before with
  | nil =>
      exact absurd h.symm (List.append_ne_nil_of_right_ne_nil before (List.cons_ne_nil '&' after))
  | cons c cs ih =>
      rw [escapeChars_cons] at h
      rcases List.append_eq_append_iff.mp h with ⟨middle, _, hrest⟩ | ⟨middle, hword, hrest⟩
      · exact ih hrest
      · cases middle with
        | nil =>
            have hbegin : escapeChars cs = [] ++ '&' :: after := hrest.symm
            exact ih hbegin
        | cons d middle =>
            -- The ampersand lies within what is written for the first character.
            injection hrest with hd hafter
            subst hd
            rcases entity_of_escapeChar hword with ⟨rfl, hentity⟩
            refine ⟨escapeChar c, hentity, escapeChars cs, ?_⟩
            rw [hword, hafter]
            rfl

theorem existsUnique_entity {cs before after : List Char}
    (h : escapeChars cs = before ++ '&' :: after) :
    ∃! entity, entity ∈ entities ∧ entity <+: '&' :: after := by
  rcases exists_entity h with ⟨entity, hentity, hstart⟩
  refine ⟨entity, ⟨hentity, hstart⟩, ?_⟩
  intro other hother
  rcases List.prefix_or_prefix_of_prefix hother.2 hstart with hle | hle
  · exact entities_prefix_free other hother.1 entity hentity hle
  · exact (entities_prefix_free entity hentity other hother.1 hle).symm

/-! ## Texts that stay as they are -/

theorem length_le_escapeChars (cs : List Char) : cs.length ≤ (escapeChars cs).length := by
  induction cs with
  | nil =>
      exact Nat.le_refl 0
  | cons c cs ih =>
      have hword : 0 < (escapeChar c).length := by
        rw [List.length_pos_iff]
        intro hnil
        have hread := unescapeChars_escapeChar_append c []
        rw [hnil] at hread
        cases hread
      rw [escapeChars_cons, List.length_append, List.length_cons]
      omega

theorem one_lt_length_escapeChar {c : Char} (h : c ∈ ['&', '<', '>', '"', '\'']) :
    1 < (escapeChar c).length := by
  simp only [List.mem_cons, List.not_mem_nil, or_false] at h
  rcases h with rfl | rfl | rfl | rfl | rfl
  all_goals decide

theorem not_mem_of_escapeChars_eq_self {cs : List Char} (h : escapeChars cs = cs) :
    ∀ c ∈ cs, c ∉ ['&', '<', '>', '"', '\''] := by
  induction cs with
  | nil =>
      intro c hc
      cases hc
  | cons c cs ih =>
      rw [escapeChars_cons] at h
      have hc : c ∉ ['&', '<', '>', '"', '\''] := by
        intro hspecial
        have hlength := congrArg List.length h
        have hword := one_lt_length_escapeChar hspecial
        have hrest := length_le_escapeChars cs
        rw [List.length_append, List.length_cons] at hlength
        omega
      rcases escapeChar_cases c with hplain | hentity
      · rw [hplain] at h
        intro d hd
        rcases List.mem_cons.mp hd with rfl | hd
        · exact hc
        · exact ih (List.tail_eq_of_cons_eq h) d hd
      · exact absurd hentity.1 hc

/-! ## Reading from left to right -/

theorem word_eq_escapeChar : ∀ entry ∈ replacements, entry.2 = escapeChar entry.1 := by
  decide

theorem unescapeChars_word_append {entry : Char × List Char} (h : entry ∈ replacements)
    (rest : List Char) : unescapeChars (entry.2 ++ rest) = entry.1 :: unescapeChars rest := by
  rw [word_eq_escapeChar entry h, unescapeChars_escapeChar_append]

/-- Where no entity begins, the reader takes one character as it is. -/
theorem unescapeChars_of_no_entity {c : Char} {rest : List Char}
    (h : ∀ entity ∈ entities, ¬ entity <+: c :: rest) :
    unescapeChars (c :: rest) = c :: unescapeChars rest := by
  rw [unescapeChars]
  · intro tail hc hrest
    exact h "&amp;".toList (by decide) ⟨tail, by rw [hc, hrest]; rfl⟩
  · intro tail hc hrest
    exact h "&lt;".toList (by decide) ⟨tail, by rw [hc, hrest]; rfl⟩
  · intro tail hc hrest
    exact h "&gt;".toList (by decide) ⟨tail, by rw [hc, hrest]; rfl⟩
  · intro tail hc hrest
    exact h "&quot;".toList (by decide) ⟨tail, by rw [hc, hrest]; rfl⟩
  · intro tail hc hrest
    exact h "&#x27;".toList (by decide) ⟨tail, by rw [hc, hrest]; rfl⟩

/-! ## Texts -/

theorem unescape_escape_append (a s : String) : unescape (escape a ++ s) = a ++ unescape s := by
  rw [unescape, escape, String.toList_append, String.toList_ofList,
    unescapeChars_escapeChars_append, String.ofList_append, String.ofList_toList, ← unescape]

theorem escape_eq_self_iff (text : String) :
    escape text = text ↔ ∀ c ∈ text.toList, c ∉ ['&', '<', '>', '"', '\''] := by
  constructor
  · intro h
    have hchars := congrArg String.toList h
    rw [escape, String.toList_ofList] at hchars
    exact not_mem_of_escapeChars_eq_self hchars
  · intro h
    rw [escape, escapeChars_eq_self h, String.ofList_toList]

/--
Escaping loses nothing and is safe where it stands. Replacing the five characters in turn, each over
the whole text, is writing every character on its own. An escaped text has none of the characters
that could be read as markup, except for ampersands that each begin one entity. The reader takes an
entity where one begins and a single character elsewhere; it gives an escaped text back in front of
any other text. A text stays as it is exactly if it has none of the five characters.
-/
theorem escape_lossless :
    (∀ text : String,
      (escape text).toList = Replacement.inTurn replacements text.toList ∧
        (escape text).toList = text.toList.flatMap escapeChar) ∧
    (∀ text : String,
      (∀ c ∈ (escape text).toList, c ≠ '<' ∧ c ≠ '>' ∧ c ≠ '"' ∧ c ≠ '\'') ∧
        ∀ before after, (escape text).toList = before ++ '&' :: after →
          ∃! entity, entity ∈ entities ∧ entity <+: '&' :: after) ∧
    (∀ rest : List Char,
      (∀ entry ∈ replacements, unescapeChars (entry.2 ++ rest) = entry.1 :: unescapeChars rest) ∧
        ∀ c, (∀ entity ∈ entities, ¬ entity <+: c :: rest) →
          unescapeChars (c :: rest) = c :: unescapeChars rest) ∧
    (∀ a s : String, unescape (escape a ++ s) = a ++ unescape s) ∧
    (∀ a : String, unescape (escape a) = a) ∧
    ∀ text : String,
      escape text = text ↔ ∀ c ∈ text.toList, c ∉ ['&', '<', '>', '"', '\''] := by
  have hchars : ∀ text : String, (escape text).toList = escapeChars text.toList := by
    intro text
    rw [escape, String.toList_ofList]
  refine ⟨?_, ?_, ?_, unescape_escape_append, ?_, escape_eq_self_iff⟩
  · intro text
    rw [inTurn_replacements, hchars]
    exact ⟨rfl, rfl⟩
  · intro text
    rw [hchars]
    exact ⟨fun c hc => mem_escapeChars hc, fun before after h => existsUnique_entity h⟩
  · intro rest
    exact ⟨fun entry h => unescapeChars_word_append h rest,
      fun c h => unescapeChars_of_no_entity h⟩
  · intro a
    rw [unescape, hchars, unescapeChars_escapeChars, String.ofList_toList]

end Html
end Highlighting
