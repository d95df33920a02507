import Highlighting.Listing
import Highlighting.Proofs.Data.PrefixCode
import Highlighting.Proofs.Latex.Containment
import Highlighting.Proofs.Latex.Escape
import Highlighting.Proofs.Token.Segmentation
import Mathlib.Data.List.Basic

/-!
# Decoding LaTeX listings

Two documents have the same listing exactly if they differ only in where normal text is cut into
tokens. The lines of a listing write every symbol of the document with a word of a prefix code: a
character of normal text as it is escaped, and a token that is not normal text as its macro with the
escaped text up to the closing brace. Macros and escapes both begin with a backslash, but no short
code begins the way an escape goes on.
-/

namespace Highlighting
namespace Latex

/-! ## Words -/

def argumentCode : PrefixCode (Option Char) Char where
  encode
    | some c => escapeChar c
    | none => ['}']
  nonempty := by
    intro s
    cases s with
    | some c =>
        exact PrefixCode.ne_nil_of_read unescapeChars_escapeChar_append c
    | none =>
        exact List.cons_ne_nil _ _
  prefixFree := by
    -- The closing brace is the only word that begins with a brace.
    have hclose : ∀ (c : Char) (a b : List Char), escapeChar c ++ a ≠ '}' :: b := by
      intro c a b heq
      rcases escapeChar_cases c with ⟨hplain, _, hc⟩ | ⟨word, _, hword⟩
      · rw [hplain] at heq
        exact hc (List.head_eq_of_cons_eq heq)
      · rw [hword] at heq
        exact absurd (List.head_eq_of_cons_eq heq) (by decide)
    intro s t h
    rcases h with ⟨rest, h⟩
    cases s with
    | some c =>
        cases t with
        | some d =>
            rw [PrefixCode.eq_of_prefix_of_read unescapeChars_escapeChar_append ⟨rest, h⟩]
        | none =>
            exact absurd h (hclose c rest [])
    | none =>
        cases t with
        | some d =>
            have heq : escapeChar d ++ [] = '}' :: rest := by
              simpa using h.symm
            exact absurd heq (hclose d [] rest)
        | none =>
            rfl

theorem encodeAll_argument (cs : List Char) :
    argumentCode.encodeAll (cs.map some ++ [none]) = escapeChars cs ++ ['}'] := by
  simp [PrefixCode.encodeAll, argumentCode, escapeChars, List.flatMap_map]

theorem argument_inj {a b : List Char}
    (h : escapeChars a ++ ['}'] <+: escapeChars b ++ ['}']) : a = b := by
  rw [← encodeAll_argument, ← encodeAll_argument] at h
  have hsymbols := argumentCode.prefix_of_encodeAll_prefix h
  rcases List.prefix_concat_iff.mp hsymbols with heq | hmem
  · have hsome : Function.Injective (some : Char → Option Char) := fun _ _ => Option.some.inj
    exact List.map_injective_iff.mpr hsome (List.append_cancel_right heq)
  · have hnone := hmem.subset (List.mem_append_right (a.map some) List.mem_cons_self)
    rcases List.mem_map.mp hnone with ⟨_, _, hc⟩
    cases hc

namespace Listing

/-! ## Symbols -/

theorem macroHead_injective {c d : Category} (h : macroHead c = macroHead d) : c = d := by
  have hshort := List.append_cancel_right (List.cons.inj h).2
  exact Category.short_injective (String.toList_injective hshort)

theorem length_macroHead : ∀ category ∈ Category.all, category ≠ .normal →
    (macroHead category).length = 4 := by
  decide

theorem escape_unlike_macroHead : ∀ category ∈ Category.all, category ≠ .normal →
    ∀ word ∈ escapeWords,
      ('\\' :: word).isPrefixOf (macroHead category) = false ∧
        (macroHead category).isPrefixOf ('\\' :: word) = false := by
  decide

/-- Neither of an escaped character and a macro can be read as the beginning of the other. -/
theorem escapeChar_append_ne_macroHead_append (c : Char) {category : Category}
    (h : category ≠ .normal) (a b : List Char) :
    escapeChar c ++ a ≠ macroHead category ++ b := by
  intro heq
  rcases escapeChar_cases c with ⟨hplain, hc, _⟩ | ⟨word, hmem, hword⟩
  · rw [hplain] at heq
    exact hc (List.head_eq_of_cons_eq heq)
  · have hunlike := escape_unlike_macroHead category (Category.mem_all category) h word hmem
    rw [hword] at heq
    have hleft : '\\' :: word <+: macroHead category ++ b := ⟨a, heq⟩
    exact not_prefix_of_unlike hunlike hleft (List.prefix_append _ _)

theorem macro_append_inj {c d : Category} (hc : c ≠ .normal) (hd : d ≠ .normal)
    {a b : List Char} (h : macroHead c ++ a = macroHead d ++ b) : c = d ∧ a = b := by
  have hlength : (macroHead c).length = (macroHead d).length := by
    rw [length_macroHead c (Category.mem_all c) hc, length_macroHead d (Category.mem_all d) hd]
  rcases List.append_inj h hlength with ⟨hhead, hrest⟩
  exact ⟨macroHead_injective hhead, hrest⟩

def symbolCode : PrefixCode Symbol Char where
  encode
    | .letter c => escapeChar c
    | .marked category text _ => macroHead category ++ (escapeChars text.toList ++ ['}'])
  nonempty := by
    intro s
    cases s with
    | letter c =>
        exact PrefixCode.ne_nil_of_read unescapeChars_escapeChar_append c
    | marked category text h =>
        exact List.cons_ne_nil _ _
  prefixFree := by
    intro s t h
    rcases h with ⟨rest, h⟩
    cases s with
    | letter c =>
        cases t with
        | letter d =>
            rw [PrefixCode.eq_of_prefix_of_read unescapeChars_escapeChar_append ⟨rest, h⟩]
        | marked category text hmarked =>
            exact absurd h (escapeChar_append_ne_macroHead_append c hmarked _ _)
    | marked category text hmarked =>
        cases t with
        | letter d =>
            simp only [List.append_assoc] at h
            rw [← List.append_nil (escapeChar d)] at h
            exact absurd h.symm (escapeChar_append_ne_macroHead_append d hmarked _ _)
        | marked category' text' hmarked' =>
            simp only [List.append_assoc] at h
            rcases macro_append_inj hmarked hmarked' h with ⟨rfl, harguments⟩
            rw [← List.append_assoc] at harguments
            rw [String.toList_injective (argument_inj ⟨rest, harguments⟩)]

theorem token_eq_encodeAll (t : Token) : token t = symbolCode.encodeAll t.symbols := by
  unfold token Token.symbols
  split
  · simp [PrefixCode.encodeAll, symbolCode, escapeChars, List.flatMap_map]
  · simp [PrefixCode.encodeAll, symbolCode, macroHead]

theorem line_eq_encodeAll (tokens : List Token) :
    line tokens = symbolCode.encodeAll (lineSymbols tokens ++ [.letter '\n']) := by
  have hline : symbolCode.encodeAll (lineSymbols tokens) = tokens.flatMap token := by
    rw [PrefixCode.encodeAll, lineSymbols, List.flatMap_assoc]
    apply List.flatMap_congr
    intro t _
    exact (token_eq_encodeAll t).symm
  rw [PrefixCode.encodeAll, List.flatMap_append, ← PrefixCode.encodeAll, hline]
  rfl

theorem body_eq_encodeAll (document : Document) :
    body document = symbolCode.encodeAll document.endedSymbols := by
  rw [PrefixCode.encodeAll, Document.endedSymbols, List.flatMap_assoc]
  apply List.flatMap_congr
  intro tokens _
  exact line_eq_encodeAll tokens

/-! ## Listings -/

theorem listing_eq_iff_body (config : Config) {first second : Document} :
    listing config first = listing config second ↔ body first = body second := by
  constructor
  · intro h
    have hchars := List.append_cancel_right (String.ofList_injective h)
    exact List.append_cancel_left hchars
  · intro h
    rw [listing, listing, h]

/-- Listings show the merged form of a document, and nothing else. -/
theorem listing_eq_iff_merged (config : Config) (l₁ l₂ : String) {first second : Document}
    (hfirst : first.LinesApart) (hsecond : second.LinesApart) :
    OutputFormat.latex.listing config l₁ first = OutputFormat.latex.listing config l₂ second ↔
      first.merged = second.merged := by
  rw [← endedSymbols_eq_iff hfirst hsecond]
  change listing config first = listing config second ↔ _
  rw [listing_eq_iff_body, body_eq_encodeAll, body_eq_encodeAll]
  exact symbolCode.encodeAll_injective.eq_iff

/-- Normal text that looks like a macro, cut in two places, with an empty piece beside the macro. -/
theorem listing_eq_of_recut :
    OutputFormat.latex.listing { numberLines := true, numberFrom := 0 } "c"
        [[⟨.keyword, "\\"⟩, ⟨.normal, "\\kw\x7b"⟩, ⟨.normal, "a\x7d"⟩], []] =
      OutputFormat.latex.listing { numberLines := true, numberFrom := 0 } "tex"
        [[⟨.keyword, "\\"⟩, ⟨.normal, ""⟩, ⟨.normal, "\\"⟩, ⟨.normal, "kw\x7ba\x7d"⟩], []] := by
  apply (listing_eq_iff_merged _ "c" "tex" (by decide) (by decide)).mpr
  decide

end Listing
end Latex
end Highlighting
