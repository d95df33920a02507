import Highlighting.Proofs.Html.Decorations
import Highlighting.Proofs.Listing.Options

/-!
# Listings without decorations

The parts of a listing are those of its layout, the line numbers and the tokens. Titles of categories
stand in the spans of the tokens only, and anchors around the line numbers only. So deleting the titles
or the anchors from the characters of a listing undoes the option that asked for them.
-/

namespace Highlighting
namespace Html

open Deletion

/-! ## Parts of a listing -/

namespace Listing

def numbered (config : Config) : Bool :=
  !config.inline && config.numberLines

def classedPart (name : String) : Part :=
  .opening name [("class", "sourceCode")]

def columnOpening (config : Config) : List Part :=
  if numbered config then
    [classedPart "table", classedPart "tr",
      .opening "td" [("class", "lineNumbers"), ("title", escape toggleTitle),
        ("onclick", escape toggleScript)],
      .opening "pre" []]
  else []

def columnParts (config : Config) (count : Nat) : List Part :=
  if numbered config then (numbers config config.numberFrom count).markup.parts else []

def blockOpening (config : Config) : List Part :=
  if config.inline then [] else [classedPart "pre"]

def blockClosing (config : Config) : List Part :=
  if config.inline then [] else [.closing "pre"]

def columnClosing (config : Config) : List Part :=
  if numbered config then [.closing "pre", .closing "td", classedPart "td"] else []

def tableClosing (config : Config) : List Part :=
  if numbered config then [.closing "td", .closing "tr", .closing "table"] else []

def codeOpening (config : Config) (language : String) : List Part :=
  columnClosing config ++ blockOpening config ++
    [Part.opening "code" [("class", escape ("sourceCode " ++ language))]]

def codeClosing (config : Config) : List Part :=
  Part.closing "code" :: (blockClosing config ++ tableClosing config)

theorem parts_fragment (config : Config) (language : String) (document : Document) :
    (fragment config language document).markup.parts =
      columnOpening config ++ columnParts config document.length ++ codeOpening config language ++
        (lines config document).markup.parts ++ codeClosing config := by
  rw [markup_fragment]
  unfold surround columnOpening columnParts codeOpening codeClosing columnClosing blockOpening
    blockClosing tableClosing numbered
  cases config.inline with
  | true =>
      simp [Markup.ofElement, Markup.cons, Markup.parts, codeElement]
  | false =>
      cases config.numberLines with
      | true =>
          simp [Markup.ofElement, Markup.cons, Markup.parts, codeElement, inTable, classed,
            classedPart, gutterCell, Fragment.single, Fragment.markup, Tag.name]
      | false =>
          simp [Markup.ofElement, Markup.cons, Markup.parts, codeElement, classed, classedPart]

/-! ## Layouts -/

/-- The title of the column is that of no category. -/
theorem inert_column : (Part.opening "td" [("class", "lineNumbers"),
    ("title", escape toggleTitle), ("onclick", escape toggleScript)]).Inert := by
  have htitle : ¬ IsTitleText (writeAttribute ("title", escape toggleTitle)) := by
    decide
  apply Part.inert_opening (by decide) (by decide)
  intro entry hentry
  rw [List.mem_cons, List.mem_cons, List.mem_singleton] at hentry
  rcases hentry with heq | heq | heq
  · rw [heq]
    exact not_isTitleText_of_head (by decide) (by decide) _
  · rw [heq]
    exact htitle
  · rw [heq]
    exact not_isTitleText_of_head (by decide) (by decide) _

theorem inert_columnOpening (config : Config) : ∀ part ∈ columnOpening config, part.Inert := by
  unfold columnOpening
  split
  · simp only [List.forall_mem_cons]
    exact ⟨Part.inert_class (by decide) (by decide) _, Part.inert_class (by decide) (by decide) _,
      inert_column, Part.inert_opening (by decide) (by decide) (fun _ h => nomatch h),
      fun _ h => nomatch h⟩
  · exact fun _ h => nomatch h

theorem inert_codeOpening (config : Config) (language : String) :
    ∀ part ∈ codeOpening config language, part.Inert := by
  have hcolumn : ∀ part ∈ columnClosing config, part.Inert := by
    unfold columnClosing
    split
    · simp only [List.forall_mem_cons]
      exact ⟨Part.inert_closing (by decide), Part.inert_closing (by decide),
        Part.inert_class (by decide) (by decide) _, fun _ h => nomatch h⟩
    · exact fun _ h => nomatch h
  have hblock : ∀ part ∈ blockOpening config, part.Inert := by
    unfold blockOpening
    split
    · exact fun _ h => nomatch h
    · exact List.forall_mem_singleton.mpr (Part.inert_class (by decide) (by decide) _)
  have hcode : (Part.opening "code" [("class", escape ("sourceCode " ++ language))]).Inert :=
    Part.inert_class (by decide) (by decide) _
  unfold codeOpening
  simp only [List.forall_mem_append]
  exact ⟨⟨hcolumn, hblock⟩, List.forall_mem_singleton.mpr hcode⟩

theorem inert_codeClosing (config : Config) : ∀ part ∈ codeClosing config, part.Inert := by
  have hblock : ∀ part ∈ blockClosing config, part.Inert := by
    unfold blockClosing
    split
    · exact fun _ h => nomatch h
    · exact List.forall_mem_singleton.mpr (Part.inert_closing (by decide))
  have htable : ∀ part ∈ tableClosing config, part.Inert := by
    unfold tableClosing
    split
    · simp only [List.forall_mem_cons]
      exact ⟨Part.inert_closing (by decide), Part.inert_closing (by decide),
        Part.inert_closing (by decide), fun _ h => nomatch h⟩
    · exact fun _ h => nomatch h
  unfold codeClosing
  simp only [List.forall_mem_cons, List.forall_mem_append]
  exact ⟨Part.inert_closing (by decide), hblock, htable⟩

/-! ## Lines -/

def tokenParts (config : Config) (token : Token) : List Part :=
  let text := (escapeChars token.text.toList).map Part.char
  let attributes := (spanAttributes config token.category).map fun a => (a.name, escape a.value)
  if token.category = .normal then text
  else Part.opening "span" attributes :: (text ++ [Part.closing "span"])

theorem parts_tokenBefore (config : Config) (token : Token) (rest : Fragment) :
    (tokenBefore config token rest).markup.parts = tokenParts config token ++ rest.markup.parts := by
  unfold tokenBefore tokenParts
  split
  · exact Markup.parts_chars _ _
  · simp [Fragment.markup, Markup.parts, Markup.parts_chars, Tag.name]

theorem newline_parts (rest : Fragment) :
    (Fragment.text "\n" rest).markup.parts = .char '\n' :: rest.markup.parts :=
  Markup.parts_chars _ _

theorem parts_lines (config : Config) (document : Document) :
    (lines config document).markup.parts =
      [.char '\n'].intercalate (document.map fun line => line.flatMap (tokenParts config)) :=
  collect_lines (fun fragment => fragment.markup.parts) (tokenParts config) [.char '\n'] rfl
    (parts_tokenBefore config) newline_parts document

theorem writeAttribute_title (category : Category) :
    writeAttribute ("title", escape category.title) = titleText category := by
  have hescape : escape category.title = category.title := by
    cases category <;> decide
  rw [titleText, hescape]

theorem attributes_span (config : Config) (category : Category) :
    plainAttributes ((spanAttributes config category).map fun a => (a.name, escape a.value)) =
        [("class", escape category.short)] ∧
      titleTexts ((spanAttributes config category).map fun a => (a.name, escape a.value)) =
        if config.titleAttributes then [titleText category] else [] := by
  have hclass : ¬ IsTitleText (writeAttribute ("class", escape category.short)) :=
    not_isTitleText_of_head (by decide) (by decide) _
  have htitle : IsTitleText (titleText category) := ⟨category, Category.mem_all category, rfl⟩
  unfold spanAttributes
  split
  · simp [plainAttributes, titleTexts, Attribute.name, Attribute.value, hclass, htitle,
      writeAttribute_title]
  · simp [plainAttributes, titleTexts, Attribute.name, Attribute.value, hclass]

theorem map_untitled_lines (config : Config) (document : Document) :
    (lines config document).markup.parts.map Part.untitled =
      (lines { config with titleAttributes := false } document).markup.parts := by
  have htoken : ∀ token, (tokenParts config token).map Part.untitled =
      tokenParts { config with titleAttributes := false } token := by
    intro token
    unfold tokenParts
    split
    · exact Part.map_untitled (Part.inert_chars _)
    · rw [List.map_cons, List.map_append, Part.map_untitled (Part.inert_chars _), Part.untitled,
        (attributes_span config token.category).1]
      rfl
  rw [parts_lines { config with titleAttributes := false }, ← funext htoken]
  apply collect_lines (fun fragment => fragment.markup.parts.map Part.untitled)
  · rfl
  · intro token rest
    rw [parts_tokenBefore, List.map_append]
  · intro rest
    rw [newline_parts]
    rfl

theorem titles_tokenParts (config : Config) (token : Token) :
    (tokenParts config token).flatMap Part.titles =
      if config.titleAttributes then
        (spanned [token]).map fun token => titleText token.category
      else [] := by
  unfold tokenParts
  split
  · rename_i h
    rw [Part.flatMap_titles (Part.inert_chars _)]
    simp [spanned, h]
  · rename_i h
    rw [List.flatMap_cons, List.flatMap_append, Part.flatMap_titles (Part.inert_chars _), Part.titles,
      (attributes_span config token.category).2]
    simp [spanned, h, Part.titles]

theorem titles_lines (config : Config) (document : Document) :
    (lines config document).markup.parts.flatMap Part.titles =
      if config.titleAttributes then
        (spanned document.flatten).map fun token => titleText token.category
      else [] := by
  have htoken : ∀ token rest, (tokenBefore config token rest).markup.parts.flatMap Part.titles =
      (tokenParts config token).flatMap Part.titles ++ rest.markup.parts.flatMap Part.titles := by
    intro token rest
    rw [parts_tokenBefore, List.flatMap_append]
  have hnewline : ∀ rest, (Fragment.text "\n" rest).markup.parts.flatMap Part.titles =
      rest.markup.parts.flatMap Part.titles := by
    intro rest
    rw [newline_parts]
    rfl
  have hcollect := collect_lines (fun fragment => fragment.markup.parts.flatMap Part.titles)
    (fun token => (tokenParts config token).flatMap Part.titles) [] rfl htoken hnewline document
  rw [hcollect]
  simp only [titles_tokenParts]
  split
  · exact intercalate_spanned _ document
  · simp [nil_intercalate]

theorem not_isAnchor_tokenParts (config : Config) (token : Token) :
    ∀ part ∈ tokenParts config token, ¬ part.IsAnchor := by
  have hchars : ∀ part ∈ (escapeChars token.text.toList).map Part.char, ¬ part.IsAnchor :=
    fun part hpart => (Part.inert_chars _ part hpart).anchor
  have hclosing : ¬ (Part.closing "span").IsAnchor := by
    decide
  unfold tokenParts
  split
  · exact hchars
  · simp only [List.forall_mem_cons, List.forall_mem_append]
    exact ⟨Part.not_isAnchor_of_head (by decide) (by decide) _, hchars, hclosing,
      fun _ h => nomatch h⟩

theorem not_isAnchor_lines (config : Config) (document : Document) :
    ∀ part ∈ (lines config document).markup.parts, ¬ part.IsAnchor := by
  intro part hpart hanchor
  have hne : part ≠ .char '\n' := fun heq => Part.not_isAnchor_char '\n' (heq ▸ hanchor)
  rw [parts_lines] at hpart
  apply not_mem_intercalate hne _ hpart
  intro line hline hmem
  rcases List.mem_map.mp hline with ⟨tokens, _, heq⟩
  rw [← heq] at hmem
  rcases List.mem_flatMap.mp hmem with ⟨token, _, hmem⟩
  exact not_isAnchor_tokenParts config token part hmem hanchor

/-! ## Line numbers -/

def numberParts (config : Config) (n : Int) : List Part :=
  let numeral := n.repr.toList.map Part.char
  let anchor := Part.opening "a" [("id", escape (Numeral.text n))]
  if config.lineAnchors then anchor :: (numeral ++ [Part.closing "a", Part.char '\n'])
  else numeral ++ [Part.char '\n']

theorem parts_numberBefore (config : Config) (n : Int) (rest : Fragment) :
    (numberBefore config n rest).markup.parts = numberParts config n ++ rest.markup.parts := by
  have hend : escapeChars ['\n'] = ['\n'] := rfl
  unfold numberBefore numberParts
  split
  · simp [Fragment.markup, Markup.parts, Markup.parts_chars, Tag.name, Attribute.name,
      Attribute.value, toList_escape_numeral, hend]
  · simp [Fragment.markup, Markup.parts_chars, toList_escape_numeral, hend]

theorem parts_numbers (config : Config) (start : Int) (count : Nat) :
    (numbers config start count).markup.parts =
      (List.range count).flatMap fun i : Nat => numberParts config (start + i) :=
  collect_numbers (fun fragment => fragment.markup.parts) (numberParts config) rfl
    (parts_numberBefore config) start count

theorem isInteger_repr (n : Int) : IsInteger n.repr.toList := by
  have hdigits : ∀ n, IsDigits (Numeral.ofNat n) := fun n =>
    ⟨Nat.toDigits_ne_nil, fun _ => Nat.isDigit_of_mem_toDigits (by decide) (by decide)⟩
  rw [← Numeral.ofInt_eq_repr]
  cases n with
  | ofNat n =>
      exact Or.inl (hdigits n)
  | negSucc n =>
      exact Or.inr ⟨rfl, hdigits (n + 1)⟩

theorem write_anchorOpening (n : Int) :
    (Part.opening "a" [("id", escape (Numeral.text n))]).write = anchorOpening n.repr.toList := by
  have hname : (escape (Numeral.text n)).toList = n.repr.toList := by
    rw [escape, String.toList_ofList, toList_escape_numeral]
  simp [Part.write, writeAttribute, hname, anchorOpening, anchorHead]

def anchorTags (n : Int) : List (List Char) :=
  [anchorOpening n.repr.toList, anchorClosing]

theorem filter_numberParts (config : Config) (n : Int) :
    (numberParts config n).filter (fun part => ¬ part.IsAnchor) =
        numberParts { config with lineAnchors := false } n ∧
      ((numberParts config n).filter fun part => part.IsAnchor).map Part.write =
        if config.lineAnchors then anchorTags n else [] := by
  have hopening : (Part.opening "a" [("id", escape (Numeral.text n))]).IsAnchor := by
    rw [Part.IsAnchor, write_anchorOpening]
    exact Or.inr ⟨_, isInteger_repr n, rfl⟩
  have hclosing : (Part.closing "a").IsAnchor := Or.inl rfl
  have hwrite : (Part.closing "a").write = anchorClosing := rfl
  have hchars := Part.inert_chars n.repr.toList
  unfold numberParts
  split
  · simp [List.filter_append, hopening, hclosing, write_anchorOpening, hwrite,
      Part.filter_anchors hchars, Part.not_isAnchor_char, anchorTags]
  · simp [List.filter_append, Part.filter_anchors hchars, Part.not_isAnchor_char]

theorem untitled_numberParts (config : Config) (n : Int) :
    (numberParts config n).map Part.untitled = numberParts config n ∧
      (numberParts config n).flatMap Part.titles = [] := by
  have hname : ¬ IsTitleText (writeAttribute ("id", escape (Numeral.text n))) :=
    not_isTitleText_of_head (by decide) (by decide) _
  have hchars := Part.inert_chars n.repr.toList
  unfold numberParts
  split
  · simp [Part.map_untitled hchars, Part.flatMap_titles hchars, Part.untitled, Part.titles,
      plainAttributes, titleTexts, hname]
  · simp [Part.map_untitled hchars, Part.flatMap_titles hchars, Part.untitled, Part.titles]

/-! ## Columns -/

/-- The column of line numbers is the same with and without titles of spans. -/
theorem untitled_columnParts (config : Config) (count : Nat) :
    (columnParts config count).map Part.untitled =
        columnParts { config with titleAttributes := false } count ∧
      (columnParts config count).flatMap Part.titles = [] := by
  have hanchors : { config with titleAttributes := false }.lineAnchors = config.lineAnchors := rfl
  have hnumbers : ∀ start, numbers { config with titleAttributes := false } start count =
      numbers config start count :=
    fun start => numbers_congr hanchors start count
  have hcolumn : columnParts { config with titleAttributes := false } count =
      columnParts config count := by
    rw [columnParts, hnumbers]
    rfl
  rw [hcolumn]
  unfold columnParts
  split
  · rw [parts_numbers, List.map_flatMap, List.flatMap_assoc]
    constructor
    · exact List.flatMap_congr fun i _ => (untitled_numberParts config _).1
    · exact List.flatMap_eq_nil_iff.mpr fun i _ => (untitled_numberParts config _).2
  · exact ⟨rfl, rfl⟩

theorem filter_columnParts (config : Config) (count : Nat) :
    (columnParts config count).filter (fun part => ¬ part.IsAnchor) =
        columnParts { config with lineAnchors := false } count ∧
      ((columnParts config count).filter fun part => part.IsAnchor).map Part.write =
        if numbered config && config.lineAnchors then
          (List.range count).flatMap fun i : Nat => anchorTags (config.numberFrom + i)
        else [] := by
  have hnumbered : numbered { config with lineAnchors := false } = numbered config := rfl
  unfold columnParts
  rw [hnumbered]
  cases numbered config with
  | true =>
      rw [if_pos rfl, if_pos rfl, parts_numbers, parts_numbers, List.filter_flatMap,
        List.filter_flatMap, List.map_flatMap, Bool.true_and]
      constructor
      · exact List.flatMap_congr fun i _ => (filter_numberParts config _).1
      · rw [List.flatMap_congr fun i _ => (filter_numberParts config _).2]
        split
        · rfl
        · exact List.flatMap_eq_nil_iff.mpr fun _ _ => rfl
  | false =>
      exact ⟨rfl, rfl⟩

/-! ## Listings -/

theorem toList_listing (config : Config) (language : String) (document : Document) :
    (listing config language document).toList =
      (fragment config language document).markup.parts.flatMap Part.write := by
  rw [listing, String.toList_ofList, ← Fragment.write_markup]
  rfl

theorem cut_titles_listing (config : Config) (language : String) (document : Document) :
    Cut IsTitleText (listing config language document).toList
      (listing { config with titleAttributes := false } language document).toList
      (if config.titleAttributes then
        (spanned document.flatten).map fun token => titleText token.category
      else []) := by
  have hkept : (fragment config language document).markup.parts.map Part.untitled =
      (fragment { config with titleAttributes := false } language document).markup.parts := by
    rw [parts_fragment, parts_fragment, List.map_append, List.map_append, List.map_append,
      List.map_append, Part.map_untitled (inert_columnOpening config),
      (untitled_columnParts config _).1, Part.map_untitled (inert_codeOpening config language),
      map_untitled_lines, Part.map_untitled (inert_codeClosing config)]
    rfl
  have hwords : (fragment config language document).markup.parts.flatMap Part.titles =
      if config.titleAttributes then
        (spanned document.flatten).map fun token => titleText token.category
      else [] := by
    rw [parts_fragment, List.flatMap_append, List.flatMap_append, List.flatMap_append,
      List.flatMap_append, Part.flatMap_titles (inert_columnOpening config),
      (untitled_columnParts config _).2, Part.flatMap_titles (inert_codeOpening config language),
      titles_lines, Part.flatMap_titles (inert_codeClosing config), List.append_nil]
    rfl
  rw [toList_listing, toList_listing, ← hkept, ← hwords]
  exact Part.cut_titles (quoted_markup _)

theorem cut_anchors_listing (config : Config) (language : String) (document : Document) :
    Cut IsAnchorTag (listing config language document).toList
      (listing { config with lineAnchors := false } language document).toList
      (if numbered config && config.lineAnchors then
        (List.range document.length).flatMap fun i : Nat => anchorTags (config.numberFrom + i)
      else []) := by
  have htitles : { config with lineAnchors := false }.titleAttributes = config.titleAttributes := rfl
  have hlines : lines { config with lineAnchors := false } document = lines config document :=
    lines_congr htitles document
  have hinert : ∀ part ∈ (lines config document).markup.parts, ¬ part.IsAnchor :=
    not_isAnchor_lines config document
  have hkept : (fragment config language document).markup.parts.filter (fun part => ¬ part.IsAnchor) =
      (fragment { config with lineAnchors := false } language document).markup.parts := by
    have hself : (lines config document).markup.parts.filter (fun part => ¬ part.IsAnchor) =
        (lines config document).markup.parts :=
      List.filter_eq_self.mpr fun part hpart => decide_eq_true (hinert part hpart)
    rw [parts_fragment, parts_fragment, hlines, List.filter_append, List.filter_append,
      List.filter_append, List.filter_append, Part.filter_others (inert_columnOpening config),
      (filter_columnParts config _).1, Part.filter_others (inert_codeOpening config language),
      hself, Part.filter_others (inert_codeClosing config)]
    rfl
  have hwords : ((fragment config language document).markup.parts.filter fun part =>
      part.IsAnchor).map Part.write =
        if numbered config && config.lineAnchors then
          (List.range document.length).flatMap fun i : Nat => anchorTags (config.numberFrom + i)
        else [] := by
    have hnone : (lines config document).markup.parts.filter (fun part => part.IsAnchor) = [] :=
      List.filter_eq_nil_iff.mpr fun part hpart => by simpa using hinert part hpart
    rw [parts_fragment, List.filter_append, List.filter_append, List.filter_append,
      List.filter_append, Part.filter_anchors (inert_columnOpening config),
      Part.filter_anchors (inert_codeOpening config language), hnone,
      Part.filter_anchors (inert_codeClosing config), List.append_nil, List.append_nil,
      List.append_nil, List.nil_append, (filter_columnParts config _).2]
  rw [toList_listing, toList_listing, ← hkept, ← hwords]
  exact Part.cut_anchors fun part hpart => (quoted_markup _ part hpart).1

end Listing

/--
Without the titles that occur in its characters a listing is the one that has no titles, and without
the anchors the one that has none. The titles that occur are those of the tokens that are not normal
text, and the anchors are those of the line numbers, whatever the texts of the tokens and the name of
the language are.
-/
theorem listing_undecorated (config : Config) (language : String) (document : Document) :
    deleteAll IsTitleText (OutputFormat.html.listing config language document).toList =
        (OutputFormat.html.listing { config with titleAttributes := false } language
          document).toList ∧
      deleteAll IsAnchorTag (OutputFormat.html.listing config language document).toList =
        (OutputFormat.html.listing { config with lineAnchors := false } language
          document).toList ∧
      occurrences IsTitleText (OutputFormat.html.listing config language document).toList =
        (if config.titleAttributes then
          (Listing.spanned document.flatten).map fun token => titleText token.category
        else []) ∧
      occurrences IsAnchorTag (OutputFormat.html.listing config language document).toList =
        if Listing.numbered config && config.lineAnchors then
          (List.range document.length).flatMap fun i : Nat =>
            Listing.anchorTags (config.numberFrom + i)
        else [] := by
  have htitles := Listing.cut_titles_listing config language document
  have hanchors := Listing.cut_anchors_listing config language document
  exact ⟨htitles.deleteAll_eq, hanchors.deleteAll_eq, htitles.occurrences_eq,
    hanchors.occurrences_eq⟩

end Html
end Highlighting
