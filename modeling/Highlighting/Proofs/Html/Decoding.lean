import Highlighting.Proofs.Data.PrefixCode
import Highlighting.Proofs.Html.Structure
import Highlighting.Proofs.Token.Segmentation
import Mathlib.Data.List.Basic
import Mathlib.Data.Sum.Basic

/-!
# Decoding HTML listings

Two documents have the same listing exactly if they have the same language and differ only in where
normal text is cut into tokens. A listing can be read, so that equal listings have equal `code`
elements; and the body of this element writes every symbol of the document with a word of a prefix
code, whose letters are the characters and elements of the body.
-/

namespace Highlighting
namespace Html

/-! ## Encoded characters -/

def escapeCode : PrefixCode Char Char where
  encode := escapeChar
  nonempty := PrefixCode.ne_nil_of_read unescapeChars_escapeChar_append
  prefixFree := PrefixCode.eq_of_prefix_of_read unescapeChars_escapeChar_append

theorem escapeChars_injective : Function.Injective escapeChars :=
  escapeCode.encodeAll_injective

theorem escape_injective : Function.Injective escape := by
  intro a b h
  exact String.toList_injective (escapeChars_injective (String.ofList_injective h))

/-! ## Contents of a forest -/

/-- Characters and elements of a forest from left to right, without those inside of the elements. -/
def Markup.contents : Markup → List (Char ⊕ Element)
  | .empty => []
  | .char c rest => .inl c :: rest.contents
  | .element name attributes body rest => .inr ⟨name, attributes, body⟩ :: rest.contents

def Markup.ofContents (contents : List (Char ⊕ Element)) : Markup :=
  contents.foldr (Sum.elim Markup.char Markup.cons) .empty

namespace Markup

theorem ofContents_contents (markup : Markup) : ofContents markup.contents = markup := by
  induction markup with
  | empty =>
      rfl
  | char c rest ih =>
      have hchar : ofContents (char c rest).contents = char c (ofContents rest.contents) := rfl
      rw [hchar, ih]
  | element name attributes body rest _ ih =>
      have helement : ofContents (element name attributes body rest).contents =
          element name attributes body (ofContents rest.contents) := rfl
      rw [helement, ih]

theorem contents_injective : Function.Injective contents :=
  Function.LeftInverse.injective ofContents_contents

theorem contents_chars (cs : List Char) (rest : Markup) :
    (chars cs rest).contents = cs.map Sum.inl ++ rest.contents := by
  induction cs with
  | nil =>
      rfl
  | cons c cs ih =>
      have hcons : (chars (c :: cs) rest).contents = .inl c :: (chars cs rest).contents := rfl
      rw [hcons, ih, List.map_cons, List.cons_append]

theorem cons_inj {a b : Element} {first second : Markup} (h : cons a first = cons b second) :
    a = b ∧ first = second := by
  have hcontents : Sum.inr a :: first.contents = Sum.inr b :: second.contents :=
    congrArg contents h
  injection hcontents with helement hrest
  exact ⟨Sum.inr_injective helement, contents_injective hrest⟩

theorem ofElement_injective : Function.Injective ofElement := by
  intro a b h
  exact (cons_inj h).1

end Markup

namespace Listing

/-! ## Symbols -/

theorem spanOf_injective {config : Config} {s t : Token} (h : spanOf config s = spanOf config t) :
    s = t := by
  have hcategory : s.category = t.category := by
    have hclass := congrArg (fun e => e.attribute? "class") h
    simp only [attribute?_spanOf, Option.some.injEq] at hclass
    exact Category.short_injective (escape_injective hclass)
  have htext : s.text = t.text := by
    have hbody := congrArg (fun e => e.body.contents) h
    simp only [spanOf, Markup.contents_chars, Markup.contents, List.append_nil] at hbody
    have hchars := List.map_injective_iff.mpr Sum.inl_injective hbody
    exact String.toList_injective (escapeChars_injective hchars)
  cases s
  cases t
  cases hcategory
  cases htext
  rfl

def symbolCode (config : Config) : PrefixCode Symbol (Char ⊕ Element) where
  encode
    | .letter c => (escapeCode.encode c).map Sum.inl
    | .marked category text _ => [.inr (spanOf config ⟨category, text⟩)]
  nonempty := by
    intro s
    cases s with
    | letter c =>
        simpa using escapeCode.nonempty c
    | marked category text h =>
        simp
  prefixFree := by
    intro s t h
    -- A letter is written with characters only, and a marked token with an element.
    cases s with
    | letter c =>
        cases t with
        | letter d =>
            have hchars := (List.prefix_map_iff_of_injective Sum.inl_injective).mp h
            rw [escapeCode.prefixFree hchars]
        | marked category text hmarked =>
            rcases List.exists_mem_of_ne_nil _ (escapeCode.nonempty c) with ⟨d, hd⟩
            have hmem := h.subset (List.mem_map_of_mem hd)
            cases List.mem_singleton.mp hmem
    | marked category text hmarked =>
        cases t with
        | letter d =>
            have hmem := h.subset List.mem_cons_self
            rcases List.mem_map.mp hmem with ⟨_, _, heq⟩
            cases heq
        | marked category' text' hmarked' =>
            have hspan := Sum.inr_injective (List.cons_prefix_cons.mp h).1
            cases spanOf_injective hspan
            rfl

theorem contents_tokenBefore (config : Config) (token : Token) (rest : Fragment) :
    (tokenBefore config token rest).markup.contents =
      (symbolCode config).encodeAll token.symbols ++ rest.markup.contents := by
  unfold tokenBefore Token.symbols
  split
  · rename_i h
    have hletters : ∀ cs : List Char, (symbolCode config).encodeAll (cs.map Symbol.letter) =
        (escapeChars cs).map Sum.inl := by
      intro cs
      simp [PrefixCode.encodeAll, symbolCode, escapeCode, escapeChars, List.flatMap_map,
        List.map_flatMap]
    rw [hletters, Fragment.markup, Markup.contents_chars]
  · rfl

theorem contents_lines (config : Config) (document : Document) :
    (lines config document).markup.contents =
      (symbolCode config).encodeAll document.symbols := by
  have hcollect := collect_lines (fun fragment => fragment.markup.contents)
    (fun token => (symbolCode config).encodeAll token.symbols)
    ((symbolCode config).encodeAll [.letter '\n']) rfl (contents_tokenBefore config)
    (fun rest => Markup.contents_chars _ _) document
  rw [hcollect, Document.symbols, PrefixCode.encodeAll_intercalate, List.map_map]
  congr 1
  apply List.map_congr_left
  intro line _
  exact List.flatMap_assoc.symm

theorem markup_lines_eq_iff (config : Config) {first second : Document} :
    (lines config first).markup = (lines config second).markup ↔
      first.symbols = second.symbols := by
  rw [← Markup.contents_injective.eq_iff, contents_lines, contents_lines,
    (symbolCode config).encodeAll_injective.eq_iff]

/-! ## Listings -/

theorem codeElement_eq_iff (config : Config) {l₁ l₂ : String} {first second : Document} :
    codeElement config l₁ first = codeElement config l₂ second ↔
      l₁ = l₂ ∧ first.symbols = second.symbols := by
  rw [← markup_lines_eq_iff config]
  constructor
  · intro h
    have hclass := congrArg (fun e => e.attribute? "class") h
    simp only [codeElement, Element.attribute?, List.lookup_cons_self, Option.some.injEq] at hclass
    exact ⟨String.append_right_inj _ |>.mp (escape_injective hclass), congrArg Element.body h⟩
  · intro h
    rcases h with ⟨rfl, hbody⟩
    rw [codeElement, codeElement, hbody]

theorem inTable_inj {gutter gutter' pre pre' : Element}
    (h : inTable gutter pre = inTable gutter' pre') : pre = pre' := by
  have hrow := Markup.ofElement_injective (congrArg Element.body (Markup.ofElement_injective h))
  have hcells := Markup.cons_inj (congrArg Element.body hrow)
  have hcell := Markup.ofElement_injective hcells.2
  exact Markup.ofElement_injective (congrArg Element.body hcell)

theorem classed_injective (name : String) : Function.Injective (classed name) := by
  intro a b h
  exact congrArg Element.body h

theorem surround_inj {config : Config} {m n : Nat} {a b : Element}
    (h : surround config m a = surround config n b) : a = b := by
  unfold surround at h
  split at h
  · exact Markup.ofElement_injective h
  split at h
  · have hpre := inTable_inj h
    exact Markup.ofElement_injective (classed_injective "pre" hpre)
  · have hpre := Markup.ofElement_injective h
    exact Markup.ofElement_injective (classed_injective "pre" hpre)

theorem listing_eq_iff_surround {c₁ c₂ : Config} {l₁ l₂ : String} {first second : Document} :
    listing c₁ l₁ first = listing c₂ l₂ second ↔
      surround c₁ first.length (codeElement c₁ l₁ first) =
        surround c₂ second.length (codeElement c₂ l₂ second) := by
  constructor
  · intro h
    have hread := read_listing c₁ l₁ first
    rw [h, read_listing] at hread
    exact (Option.some.inj hread).symm
  · intro h
    rw [listing, listing, ← Fragment.write_markup, ← Fragment.write_markup, markup_fragment,
      markup_fragment, h]

/--
Listings show the language and the merged form of a document, and nothing else. The documents have
a line at least, since no line and one empty line have the same body.
-/
theorem listing_eq_iff (config : Config) (l₁ l₂ : String) {first second : Document}
    (hfirst : first ≠ []) (hsecond : second ≠ []) (hfirst' : first.LinesApart)
    (hsecond' : second.LinesApart) :
    listing config l₁ first = listing config l₂ second ↔
      l₁ = l₂ ∧ first.merged = second.merged := by
  have hsymbols := symbols_eq_iff hfirst hsecond hfirst' hsecond'
  rw [listing_eq_iff_surround, ← hsymbols]
  constructor
  · intro h
    exact (codeElement_eq_iff config).mp (surround_inj h)
  · intro h
    have hcode := (codeElement_eq_iff config).mpr h
    have hlength : first.length = second.length := by
      have hmerged := congrArg List.length (hsymbols.mp h.2)
      simpa [Document.merged] using hmerged
    rw [hcode, hlength]

/-- Normal text that is cut in two, with an empty piece between the halves. -/
theorem listing_eq_recut :
    listing { numberLines := true } "c" [[⟨.keyword, "if"⟩, ⟨.normal, " <b> "⟩], []] =
      listing { numberLines := true } "c"
        [[⟨.keyword, "if"⟩, ⟨.normal, " <"⟩, ⟨.normal, ""⟩, ⟨.normal, "b> "⟩], []] := by
  apply (listing_eq_iff _ "c" "c" (by decide) (by decide) (by decide) (by decide)).mpr
  exact ⟨rfl, by decide⟩

end Listing
end Html
end Highlighting
