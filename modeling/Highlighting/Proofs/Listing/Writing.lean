import Highlighting.Listing
import Highlighting.Proofs.Html.Numbering
import Highlighting.Proofs.Listing.Items

/-!
# Writing listings

The formats write their listings in loops of their own, which check an item when its turn comes. All
of them stop at the first improper pair in reading order, whatever the settings, the language and the
texts are; where there is none, they write the listing of the tokens that the items denote. Flags
count in no other way than by their truth.
-/

namespace Highlighting

theorem writeItems_eq (put : TextBuilder → Token → TextBuilder) (builder : TextBuilder)
    (line : List Item) :
    writeItems put builder line =
      (line.mapM Item.toToken).map fun tokens => tokens.foldl put builder :=
  foldlM_map Item.toToken put builder line

/-! ## HTML -/

namespace Html
namespace Listing

variable (settings : Settings) (builder : TextBuilder)

theorem written_writeToken (token : Token) :
    (writeToken settings builder token).written =
      builder.written ++ tokenMarkup settings.config token := by
  unfold writeToken tokenMarkup spanOpening
  split
  · simp [escape]
  · cases htitles : settings.titleAttributes.isTruthy with
    | true =>
        simp [escape, Settings.config, htitles]
    | false =>
        simp [escape, Settings.config, htitles]

def putLines : Document → TextBuilder
  | [] => builder
  | first :: rest =>
      rest.foldl (fun builder line => line.foldl (writeToken settings) (builder.append "\n"))
        (first.foldl (writeToken settings) builder)

theorem written_putLines (document : Document) :
    (putLines settings builder document).written =
      builder.written ++ (lines settings.config document).render := by
  have hline : ∀ (builder : TextBuilder) (line : List Token),
      (line.foldl (writeToken settings) builder).written =
        builder.written ++ lineMarkup settings.config line :=
    TextBuilder.written_foldl (written_writeToken settings)
  have hnext : ∀ (builder : TextBuilder) (line : List Token),
      (line.foldl (writeToken settings) (builder.append "\n")).written =
        builder.written ++ '\n' :: lineMarkup settings.config line := by
    intro builder line
    simp [hline]
  cases document with
  | nil =>
      simp [putLines, lines, Fragment.render]
  | cons first rest =>
      rw [putLines, TextBuilder.written_foldl hnext, hline, render_lines, List.map_cons,
        intercalate_cons, List.flatMap_map, List.append_assoc]

/-- The loop over the lines reads all the items and then writes their tokens. -/
theorem writeLines_eq (items : List (List Item)) :
    writeLines settings builder items =
      (Document.ofItems items).map (putLines settings builder) := by
  cases items with
  | nil =>
      rfl
  | cons first rest =>
      have hfirst : Document.ofItems (first :: rest) = (first.mapM Item.toToken >>= fun tokens =>
          (Document.ofItems rest).map fun document => tokens :: document) :=
        List.mapM_cons
      rw [writeLines, writeItems_eq, hfirst]
      simp only [writeItems_eq]
      cases first.mapM Item.toToken with
      | error e =>
          rfl
      | ok tokens =>
          have hrest := foldlM_map (List.mapM Item.toToken)
            (fun builder line => line.foldl (writeToken settings) (builder.append "\n"))
            (tokens.foldl (writeToken settings) builder) rest
          refine hrest.trans ?_
          show _ = Except.map _ (Except.map _ _)
          rw [show rest.mapM (List.mapM Item.toToken) = Document.ofItems rest from rfl]
          cases Document.ofItems rest with
          | error e =>
              rfl
          | ok document =>
              rfl

theorem written_writeNumber (n : Int) :
    (writeNumber settings builder n).written =
      builder.written ++ (entry settings.config n ++ ['\n']) := by
  have hnumeral : (Numeral.text n).toList = n.repr.toList := by
    rw [Numeral.text, String.toList_ofList, Numeral.ofInt_eq_repr]
  unfold writeNumber entry
  cases hanchors : settings.lineAnchors.isTruthy with
  | true =>
      simp [Settings.config, hanchors, hnumeral]
  | false =>
      simp [Settings.config, hanchors, hnumeral]

theorem written_writeNumbers (count : Nat) :
    (writeNumbers settings count builder).written =
      builder.written ++ (gutter settings.config count .empty).render := by
  have hnumbers : ((List.range count).map fun i : Nat => settings.numberFrom + i).flatMap
      (fun n => entry settings.config n ++ ['\n']) =
        (numbers settings.config settings.config.numberFrom count).render := by
    rw [render_numbers, entries, List.flatMap_map, List.flatMap_map]
    rfl
  have hclass : escapeChars "lineNumbers".toList = "lineNumbers".toList := rfl
  simp only [writeNumbers, TextBuilder.written_append,
    TextBuilder.written_foldl (written_writeNumber settings), hnumbers]
  simp only [gutter, Fragment.single, Fragment.render, Fragment.openTag, Fragment.closeTag,
    List.flatMap_cons, List.flatMap_nil, Attribute.render, Attribute.name, Attribute.value,
    Tag.name, hclass]
  simp [escape]

theorem written_writeBlock (code : String) :
    (writeBlock code builder).written =
      builder.written ++ (Fragment.openTag .pre [.classes codeClass] ++ code.toList ++
        Fragment.closeTag .pre) := by
  have hopening : ("<pre class=\"" ++ codeClass ++ "\">").toList =
      Fragment.openTag .pre [.classes codeClass] := rfl
  have hclosing : "</pre>".toList = Fragment.closeTag .pre := rfl
  simp only [writeBlock, TextBuilder.written_append, hopening, hclosing, List.append_assoc]

theorem writeCode_eq (language : String) (items : List (List Item)) :
    (writeCode settings language items).map TextBuilder.build =
      (Document.ofItems items).map fun document =>
        String.ofList (code settings.config language document).render := by
  rw [writeCode, writeLines_eq]
  cases Document.ofItems items with
  | error e =>
      rfl
  | ok document =>
      show Except.ok (TextBuilder.build _) = Except.ok _
      rw [TextBuilder.build_eq]
      simp [written_putLines, code, Fragment.single, Fragment.render, Fragment.openTag,
        Fragment.closeTag, Attribute.render, Attribute.name, Attribute.value, Tag.name, escape]

theorem layOut_code (language : String) (document : Document) :
    layOut settings document.length
        (String.ofList (code settings.config language document).render) =
      listing settings.config language document := by
  have hrow : ("<table class=\"" ++ codeClass ++ "\"><tr class=\"" ++ codeClass ++ "\">").toList =
      Fragment.openTag .table [.classes codeClass] ++ Fragment.openTag .row [.classes codeClass] :=
    rfl
  have hcell : ("<td class=\"" ++ codeClass ++ "\">").toList =
      Fragment.openTag .cell [.classes codeClass] := rfl
  have hend : "</td></tr></table>".toList =
      Fragment.closeTag .cell ++ Fragment.closeTag .row ++ Fragment.closeTag .table := rfl
  have hinline : settings.config.inline = settings.inline.isTruthy := rfl
  have hnumbers : settings.config.numberLines = settings.numberLines.isTruthy := rfl
  rw [layOut, listing, fragment, hinline, hnumbers]
  split
  · rfl
  split
  · simp only [TextBuilder.build_eq, TextBuilder.written_append, written_writeBlock,
      written_writeNumbers, hrow, hcell, hend]
    simp [numberedTable, gutter, block, Fragment.single, Fragment.render]
  · simp only [TextBuilder.build_eq, written_writeBlock]
    simp [block, Fragment.single, Fragment.render]

theorem write_eq (language : String) (items : List (List Item)) :
    write settings language items =
      (Document.ofItems items).map (listing settings.config language) := by
  rw [write, writeCode_eq]
  cases hdocument : Document.ofItems items with
  | error e =>
      rfl
  | ok document =>
      have hlength : items.length = document.length :=
        (((Document.ofItems_reports items).ok_iff document).mp hdocument).length_eq
      rw [hlength]
      exact congrArg Except.ok (layOut_code settings language document)

end Listing
end Html

/-! ## LaTeX -/

namespace Latex
namespace Listing

theorem written_writeToken (builder : TextBuilder) (t : Token) :
    (writeToken builder t).written = builder.written ++ token t := by
  unfold writeToken token
  split
  · simp [escape]
  · simp [escape]

theorem writeLines_eq (builder : TextBuilder) (items : List (List Item)) :
    writeLines builder items = (Document.ofItems items).map fun document =>
      document.foldl (fun builder line => (line.foldl writeToken builder).appendLine "")
        builder := by
  have hline : ∀ (builder : TextBuilder) (line : List Item),
      (writeItems writeToken builder line).map (fun builder => builder.appendLine "") =
        (line.mapM Item.toToken).map fun tokens =>
          (tokens.foldl writeToken builder).appendLine "" := by
    intro builder line
    rw [writeItems_eq]
    cases line.mapM Item.toToken with
    | error e =>
        rfl
    | ok tokens =>
        rfl
  simp only [writeLines, hline]
  exact foldlM_map (List.mapM Item.toToken)
    (fun builder tokens => (tokens.foldl writeToken builder).appendLine "") builder items

theorem written_lines (builder : TextBuilder) (document : Document) :
    (document.foldl (fun builder line => (line.foldl writeToken builder).appendLine "")
      builder).written = builder.written ++ body document := by
  apply TextBuilder.written_foldl
  intro builder tokens
  simp [TextBuilder.written_foldl written_writeToken, line]

theorem writeLines_around (opened : TextBuilder) (closing : String) (items : List (List Item)) :
    ((writeLines opened items).map fun builder => (builder.append closing).build) =
      (Document.ofItems items).map fun document =>
        String.ofList (opened.written ++ body document ++ closing.toList) := by
  rw [writeLines_eq]
  cases Document.ofItems items with
  | error e =>
      rfl
  | ok document =>
      show Except.ok (TextBuilder.build _) = Except.ok _
      rw [TextBuilder.build_eq, TextBuilder.written_append, written_lines]

variable (settings : Settings)

theorem toList_bracketOptions :
    (bracketOptions settings).toList = environmentOptions settings.config := by
  have hnumbers : settings.config.numberLines = settings.numberLines.isTruthy := rfl
  have hstart : settings.config.numberFrom = settings.numberFrom := rfl
  rw [bracketOptions, environmentOptions, hnumbers, hstart]
  split
  · split
    · simp [String.join, Numeral.text]
    · simp [String.join]
  · simp [String.join]

theorem write_eq (items : List (List Item)) :
    write settings items = (Document.ofItems items).map (listing settings.config) := by
  have hconfig : settings.config.inline = settings.inline.isTruthy := rfl
  unfold write
  cases hinline : settings.inline.isTruthy with
  | true =>
      have hlisting : ∀ document, String.ofList
          ((TextBuilder.empty.append ("\\Verb[" ++ String.ofList commandCharacters ++ "]\x7b")).written
            ++ body document ++ "\x7d".toList) = listing settings.config document := by
        intro document
        simp [listing, header, footer, hconfig, hinline]
      simp only [if_true, writeLines_around, hlisting]
  | false =>
      have hlisting : ∀ document, String.ofList
          ((((TextBuilder.empty.append "\\begin\x7bVerbatim\x7d[").append
            (bracketOptions settings)).append "]\n").written
              ++ body document ++ "\\end\x7bVerbatim\x7d".toList) =
                listing settings.config document := by
        intro document
        simp [toList_bracketOptions, listing, header, footer, hconfig, hinline]
      simp only [Bool.false_eq_true, if_false, writeLines_around, hlisting]

end Listing
end Latex

/-! ## Listings -/

namespace OutputFormat

theorem write_eq_render (format : OutputFormat) (settings : Settings) (language : String)
    (lines : List (List Item)) :
    format.write settings language lines = format.render settings.config language lines := by
  cases format with
  | html =>
      exact Html.Listing.write_eq settings language lines
  | latex =>
      exact Latex.Listing.write_eq settings lines

theorem render_reports (format : OutputFormat) (config : Config) (language : String)
    (lines : List (List Item)) :
    Reports (format.render config language lines)
      (fun text => ∃ document, List.Forall₂ (List.Forall₂ Item.Denotes) lines document ∧
        text = format.listing config language document)
      ((Document.strays lines).map InvalidToken.mk) :=
  (Document.ofItems_reports lines).map (format.listing config language)

theorem render_eq_error_iff (format : OutputFormat) (config : Config) (language : String)
    (lines : List (List Item)) (e : InvalidToken) :
    format.render config language lines = .error e ↔
      (Document.strays lines).head? = some e.category := by
  rw [(format.render_reports config language lines).error_iff, List.head?_map,
    Option.map_eq_some_iff]
  constructor
  · intro h
    rcases h with ⟨value, hvalue, rfl⟩
    exact hvalue
  · intro h
    exact ⟨e.category, h, rfl⟩

theorem render_of_denotes {lines : List (List Item)} {document : Document}
    (h : List.Forall₂ (List.Forall₂ Item.Denotes) lines document) (format : OutputFormat)
    (config : Config) (language : String) :
    format.render config language lines = .ok (format.listing config language document) :=
  ((format.render_reports config language lines).ok_iff _).mpr ⟨document, h, rfl⟩

/--
Both formats check the items one by one while they write, and both refuse lines with an improper
pair and no other ones. The first such pair in reading order is reported, whatever the settings, the
language and the texts are. Without such a pair the items denote tokens, and all items that denote
the same tokens have the same listing.
-/
theorem items_checked_alike (lines : List (List Item)) :
    (∀ (format : OutputFormat) (settings : Settings) (language : String),
      format.write settings language lines = format.render settings.config language lines) ∧
    (∀ (format : OutputFormat) (config : Config) (language : String),
      ((∃ e, format.render config language lines = .error e) ↔
        ∃ line ∈ lines, ∃ item ∈ line, ∃ value text, item = .pair (.stray value) text) ∧
      ∀ e, format.render config language lines = .error e ↔
        ∃ before text after,
          lines.flatten = before ++ .pair (.stray e.category) text :: after ∧
            ∀ item ∈ before, ∃ token, item.Denotes token) ∧
    (∀ others : List (List Item),
      others.map (List.map Item.category) = lines.map (List.map Item.category) →
      ∀ (format format' : OutputFormat) (config config' : Config) (language language' : String)
        (e : InvalidToken),
        format.render config language lines = .error e ↔
          format'.render config' language' others = .error e) ∧
    ((∀ line ∈ lines, ∀ item ∈ line, ∀ value text, item ≠ .pair (.stray value) text) →
      ∃ document, List.Forall₂ (List.Forall₂ Item.Denotes) lines document ∧
        ∀ others, List.Forall₂ (List.Forall₂ Item.Denotes) others document →
          ∀ (format : OutputFormat) (config : Config) (language : String),
            format.render config language others =
              .ok (format.listing config language document)) := by
  refine ⟨?_, ?_, ?_, ?_⟩
  · intro format settings language
    exact format.write_eq_render settings language lines
  · intro format config language
    constructor
    · simp only [render_eq_error_iff]
      constructor
      · intro h
        rcases h with ⟨e, he⟩
        rcases (Document.mem_strays_iff lines e.category).mp (List.mem_of_head? he) with
          ⟨line, hline, item, hitem, htext⟩
        exact ⟨line, hline, item, hitem, e.category, htext⟩
      · intro h
        rcases h with ⟨line, hline, item, hitem, value, htext⟩
        have hmem := (Document.mem_strays_iff lines value).mpr ⟨line, hline, item, hitem, htext⟩
        exact ⟨⟨_⟩, List.head?_eq_some_head (List.ne_nil_of_mem hmem)⟩
    · intro e
      rw [render_eq_error_iff, Document.head?_strays_eq_some_iff]
  · intro others hcategories format format' config config' language language' e
    rw [render_eq_error_iff, render_eq_error_iff, Document.strays_congr hcategories]
  · intro hproper
    have hreports := Document.ofItems_reports lines
    have hstrays := Document.strays_eq_nil_of_forall hproper
    rcases hreports.exists_ok_iff.mpr (List.map_eq_nil_iff.mpr hstrays) with ⟨document, hok⟩
    refine ⟨document, (hreports.ok_iff document).mp hok, ?_⟩
    intro others hothers format config language
    exact render_of_denotes hothers format config language

end OutputFormat
end Highlighting
