import Highlighting.Proofs.Html.Decoding
import Highlighting.Proofs.Latex.Numbering
import Highlighting.Proofs.Listing.Writing

/-!
# Options that show

Two configurations give the same listings exactly if they agree on the options that show in the
layout they ask for. Where they agree on these, every step of the writing is the same. Conversely,
the options that show are read back from a listing: the layout from its outermost element or its
first characters, the titles from a span, the numbers and anchors from the column of numbers, and in
LaTeX the numbers from the header.
-/

namespace Highlighting

/-! ## HTML -/

namespace Html
namespace Listing

structure SameOptions (c₁ c₂ : Config) : Prop where
  titles : c₁.titleAttributes = c₂.titleAttributes
  inline : c₁.inline = c₂.inline
  numbers : c₁.inline = true ∨ (c₁.numberLines = c₂.numberLines ∧
    (c₁.numberLines = true → c₁.numberFrom = c₂.numberFrom ∧ c₁.lineAnchors = c₂.lineAnchors))

variable {c₁ c₂ : Config}

theorem lines_congr (h : c₁.titleAttributes = c₂.titleAttributes) (document : Document) :
    lines c₁ document = lines c₂ document := by
  have htoken : ∀ token rest, tokenBefore c₁ token rest = tokenBefore c₂ token rest := by
    intro token rest
    rw [tokenBefore, tokenBefore, spanAttributes, spanAttributes, h]
  have hline : ∀ line rest, lineBefore c₁ line rest = lineBefore c₂ line rest := by
    intro line rest
    rw [lineBefore, lineBefore, funext₂ htoken]
  induction document with
  | nil =>
      rfl
  | cons line rest ih =>
      cases rest with
      | nil =>
          exact hline line .empty
      | cons next rest =>
          rw [lines, lines, ih, hline]

theorem numbers_congr (h : c₁.lineAnchors = c₂.lineAnchors) (start : Int) (count : Nat) :
    numbers c₁ start count = numbers c₂ start count := by
  induction count generalizing start with
  | zero =>
      rfl
  | succ count ih =>
      rw [numbers, numbers, ih, numberBefore, numberBefore, h]

theorem fragment_congr (h : SameOptions c₁ c₂) (language : String) (document : Document) :
    fragment c₁ language document = fragment c₂ language document := by
  have hcode : code c₁ language document = code c₂ language document := by
    rw [code, code, lines_congr h.titles]
  unfold fragment
  rw [hcode, ← h.inline]
  rcases h.numbers with hinline | ⟨hlines, hnumbers⟩
  · rw [if_pos hinline, if_pos hinline]
  · rw [← hlines]
    by_cases hnumbered : c₁.numberLines = true
    · rcases hnumbers hnumbered with ⟨hfrom, hanchors⟩
      simp only [numberedTable, gutter, hfrom, numbers_congr hanchors]
    · simp only [if_neg hnumbered]

def outerName (config : Config) : String :=
  if config.inline then "code" else if config.numberLines then "table" else "pre"

theorem children_surround (config : Config) (count : Nat) {code : Element}
    (h : code.name = "code") :
    (surround config count code).children.map Element.name = [outerName config] := by
  unfold surround outerName
  split
  · rw [← h]
    rfl
  split
  · rfl
  · rfl

theorem layout_of_outerName (h : outerName c₁ = outerName c₂) :
    c₁.inline = c₂.inline ∧ (c₁.inline = true ∨ c₁.numberLines = c₂.numberLines) := by
  have hnames : ∀ i₁ i₂ n₁ n₂ : Bool,
      (if i₁ then "code" else if n₁ then "table" else "pre") =
          (if i₂ then "code" else if n₂ then "table" else "pre") →
        i₁ = i₂ ∧ (i₁ = true ∨ n₁ = n₂) := by
    decide
  exact hnames c₁.inline c₂.inline c₁.numberLines c₂.numberLines h

theorem isSome_title_spanOf (config : Config) (token : Token) :
    ((spanOf config token).attribute? "title").isSome = config.titleAttributes := by
  unfold spanOf spanAttributes
  split
  · rename_i h
    simp [Element.attribute?, Attribute.name, List.lookup, h]
  · rename_i h
    simp [Element.attribute?, Attribute.name, h]

theorem titles_of_codeElement {language : String} {document : Document}
    (hmarked : spanned document.flatten ≠ [])
    (h : codeElement c₁ language document = codeElement c₂ language document) :
    c₁.titleAttributes = c₂.titleAttributes := by
  rcases List.exists_mem_of_ne_nil _ hmarked with ⟨token, htoken⟩
  have hspans := congrArg (fun e => e.body.children) h
  simp only [codeElement, children_lines, List.map_inj_left] at hspans
  rw [← isSome_title_spanOf c₁ token, hspans token htoken, isSome_title_spanOf]

theorem numbers_of_listing {language : String} {document : Document} (hne : document ≠ [])
    (h₁ : c₁.numberLines = true) (h₂ : c₂.numberLines = true) (hinline₁ : c₁.inline = false)
    (hinline₂ : c₂.inline = false)
    (h : listing c₁ language document = listing c₂ language document) :
    c₁.numberFrom = c₂.numberFrom ∧ c₁.lineAnchors = c₂.lineAnchors := by
  have hlength : document.length ≠ 0 := by
    simpa using hne
  constructor
  · have hnumbers := gutterNumbers_listing c₁ language document h₁ hinline₁
    rw [h, gutterNumbers_listing c₂ language document h₂ hinline₂] at hnumbers
    have hfirst := congrArg List.head? (Option.some.inj hnumbers)
    simpa [List.head?_range, hlength] using hfirst.symm
  · have hread := read_numbered c₁ language document h₁ hinline₁
    rw [h, read_numbered c₂ language document h₂ hinline₂] at hread
    have hidentifiers := congrArg identifiers (Option.some.inj hread)
    have hanchored : ∀ config : Config,
        (identifiers (numberedMarkup config language document)).isEmpty = !config.lineAnchors := by
      intro config
      rw [identifiers_numbered]
      cases config.lineAnchors with
      | false =>
          rfl
      | true =>
          simpa using hlength
    have hempty := congrArg List.isEmpty hidentifiers
    rw [hanchored, hanchored] at hempty
    exact (Bool.not_inj hempty).symm

/-- A document with a token that is not normal text tells all options that show. -/
theorem sameOptions_of_listing_eq {language : String} {document : Document}
    (hmarked : spanned document.flatten ≠ [])
    (h : listing c₁ language document = listing c₂ language document) : SameOptions c₁ c₂ := by
  have hsurround := listing_eq_iff_surround.mp h
  have hcode : ∀ config : Config, (surround config document.length
      (codeElement config language document)).descendants.filter (fun e => e.name = "code") =
        [codeElement config language document] := by
    intro config
    exact filter_code_surround rfl fun e he => mem_descendants_codeElement he
  have hcodes := congrArg (fun markup => markup.descendants.filter fun e => e.name = "code") hsurround
  simp only [hcode, List.cons.injEq, and_true] at hcodes
  have hnames := congrArg (fun markup => markup.children.map Element.name) hsurround
  simp only [children_surround _ _ (show (codeElement _ language document).name = "code" from rfl),
    List.cons.injEq, and_true] at hnames
  rcases layout_of_outerName hnames with ⟨hinline, hlines⟩
  refine ⟨titles_of_codeElement hmarked hcodes, hinline, ?_⟩
  cases hblock : c₁.inline with
  | true =>
      exact Or.inl rfl
  | false =>
      have hlines' : c₁.numberLines = c₂.numberLines := by
        simpa [hblock] using hlines
      have hne : document ≠ [] := by
        intro h
        rcases h with rfl
        exact hmarked rfl
      refine Or.inr ⟨hlines', fun hnumbered => ?_⟩
      exact numbers_of_listing hne hnumbered (hlines' ▸ hnumbered) hblock (hinline ▸ hblock) h

end Listing
end Html

/-! ## LaTeX -/

namespace Latex
namespace Listing

structure SameOptions (c₁ c₂ : Config) : Prop where
  inline : c₁.inline = c₂.inline
  numbers : c₁.inline = true ∨ (c₁.numberLines = c₂.numberLines ∧
    (c₁.numberLines = true → c₁.numberFrom = c₂.numberFrom))

variable {c₁ c₂ : Config}

theorem environmentOptions_congr (hlines : c₁.numberLines = c₂.numberLines)
    (hfrom : c₁.numberLines = true → c₁.numberFrom = c₂.numberFrom) :
    environmentOptions c₁ = environmentOptions c₂ := by
  unfold environmentOptions
  rw [← hlines]
  by_cases hnumbered : c₁.numberLines = true
  · rw [hfrom hnumbered]
  · rw [if_neg hnumbered, if_neg hnumbered]

theorem listing_congr (h : SameOptions c₁ c₂) (document : Document) :
    listing c₁ document = listing c₂ document := by
  have hheader : header c₁ = header c₂ := by
    unfold header
    rw [← h.inline]
    rcases h.numbers with hinline | ⟨hlines, hfrom⟩
    · rw [if_pos hinline, if_pos hinline]
    · rw [environmentOptions_congr hlines hfrom]
  have hfooter : footer c₁ = footer c₂ := by
    rw [footer, footer, h.inline]
  rw [listing, listing, hheader, hfooter]

/-- The second character of a listing, behind the backslash, tells whether it is inline. -/
theorem second_listing (config : Config) (document : Document) :
    (listing config document).toList[1]? = if config.inline then some 'V' else some 'b' := by
  rw [listing, String.toList_ofList, header]
  split
  · rfl
  · rfl

theorem firstLine_listing {config : Config} (h : config.inline = false) (document : Document) :
    firstLine (listing config document).toList = headerLine config := by
  rw [listing_block h, firstLine, takeWhile_ne_append (not_mem_headerLine config)]

theorem numberLines_of_headerLine (config : Config) :
    decide (countKey ∈ options (headerLine config)) = config.numberLines := by
  have hcommands : countKey ≠ commandCharacters := by
    decide
  rw [options_headerLine, blockOptions]
  by_cases hlines : config.numberLines = true
  · simp [hlines]
  · simp [hlines, hcommands]

theorem sameOptions_of_listing_eq {document : Document}
    (h : listing c₁ document = listing c₂ document) : SameOptions c₁ c₂ := by
  have hchars : ∀ i₁ i₂ : Bool, (if i₁ then some 'V' else some 'b') =
      (if i₂ then some 'V' else some 'b') → i₁ = i₂ := by
    decide
  have hinline : c₁.inline = c₂.inline := by
    apply hchars
    rw [← second_listing c₁ document, h, second_listing]
  refine ⟨hinline, ?_⟩
  cases hblock : c₁.inline with
  | true =>
      exact Or.inl rfl
  | false =>
      have hheader : headerLine c₁ = headerLine c₂ := by
        rw [← firstLine_listing hblock document, h, firstLine_listing (hinline ▸ hblock)]
      have hlines : c₁.numberLines = c₂.numberLines := by
        rw [← numberLines_of_headerLine c₁, hheader, numberLines_of_headerLine]
      refine Or.inr ⟨hlines, fun hnumbered => ?_⟩
      have hstart := startOf_headerLine hnumbered
      rw [hheader, startOf_headerLine (hlines ▸ hnumbered)] at hstart
      exact (Option.some.inj hstart).symm

end Listing
end Latex

/-! ## Both formats -/

namespace OutputFormat

/--
Configurations have the same listings exactly if they agree on the options that show. In HTML these
are the titles, the layout and, in a numbered table, the first number and the anchors; in LaTeX they
are the layout and, in a numbered block, the first number. Untyped lines show nothing more.
-/
theorem listing_eq_iff_sameOptions (c₁ c₂ : Config) :
    ((∀ language document, OutputFormat.html.listing c₁ language document =
        OutputFormat.html.listing c₂ language document) ↔ Html.Listing.SameOptions c₁ c₂) ∧
    ((∀ language document, OutputFormat.latex.listing c₁ language document =
        OutputFormat.latex.listing c₂ language document) ↔ Latex.Listing.SameOptions c₁ c₂) ∧
    ∀ format : OutputFormat,
      (∀ language document,
        format.listing c₁ language document = format.listing c₂ language document) ↔
      ∀ language lines, format.render c₁ language lines = format.render c₂ language lines := by
  refine ⟨⟨?_, ?_⟩, ⟨?_, ?_⟩, ?_⟩
  · intro h
    have hmarked : Html.Listing.spanned [[(⟨.keyword, ""⟩ : Token)]].flatten ≠ [] := by
      decide
    exact Html.Listing.sameOptions_of_listing_eq hmarked (h "" [[⟨.keyword, ""⟩]])
  · intro h language document
    show Html.listing c₁ language document = Html.listing c₂ language document
    rw [Html.listing, Html.listing, Html.Listing.fragment_congr h]
  · intro h
    exact Latex.Listing.sameOptions_of_listing_eq (h "" [])
  · intro h language document
    exact Latex.Listing.listing_congr h document
  · intro format
    constructor
    · intro h language lines
      rw [render, render, funext (h language)]
    · intro h language document
      have hdenotes := Document.denotes_tokens document
      have hrender := h language (document.map (List.map Item.token))
      rw [render_of_denotes hdenotes, render_of_denotes hdenotes] at hrender
      exact Except.ok.inj hrender

end OutputFormat
end Highlighting
