import Highlighting.Latex.Preamble
import Highlighting.Listing
import Highlighting.Proofs.Color.Decimals
import Highlighting.Proofs.Data.Lines
import Highlighting.Proofs.Latex.Containment
import Highlighting.Proofs.Latex.Escape
import Highlighting.Proofs.Theme.Lookup

/-!
# Macros of listings and preambles

A listing invokes one macro for each token that is not normal text, and the preamble of a theme
defines one macro for each category that the theme covers. Both are read off the text here: an
invocation is a backslash with a short code and an opening brace, wherever it stands in a listing,
and a definition begins a line of a preamble.
-/

namespace Highlighting
namespace Latex

def invokedAt (cs : List Char) : List Category :=
  Category.all.filter fun category =>
    category ≠ .normal ∧ (Listing.macroHead category).isPrefixOf cs

def invoked : List Char → List Category
  | [] => []
  | c :: cs => invokedAt (c :: cs) ++ invoked cs

def definitionHead (category : Category) : List Char :=
  "\\newcommand\x7b\\".toList ++ category.short.toList ++ "\x7d[1]".toList

def definedBy (line : List Char) : List Category :=
  Category.all.filter fun category =>
    category ≠ .normal ∧ (definitionHead category).isPrefixOf line

def defined (text : List Char) : List Category :=
  (text.splitOn '\n').flatMap definedBy

namespace Listing

/-!
## Reading invocations

What stands behind a backslash of a listing is a known word. The word shows which macro is invoked,
if any, so that a text invokes the same macros whatever follows it.
-/

/-- What stands behind a backslash that does not invoke the macro of a category. -/
def silentWords : List (List Char) :=
  "Verb".toList :: ending :: (headerWords ++ escapeWords)

def listingWords : List (List Char) :=
  silentWords ++ commands

theorem silentWords_unlike_macroHead : ∀ word ∈ silentWords, ∀ category ∈ Category.all,
    category ≠ .normal →
      (macroHead category).isPrefixOf ('\\' :: word) = false ∧
        ('\\' :: word).isPrefixOf (macroHead category) = false := by
  decide

theorem listingWords_decide_macroHead : ∀ word ∈ listingWords, ∀ category ∈ Category.all,
    category ≠ .normal →
      (macroHead category).isPrefixOf ('\\' :: word) = true ∨
        ('\\' :: word).isPrefixOf (macroHead category) = false := by
  decide

theorem isPrefixOf_macroHead_append {word a b : List Char} (hword : word ∈ listingWords)
    (hstart : word <+: a) {category : Category} (hcategory : category ≠ .normal) :
    (macroHead category).isPrefixOf ('\\' :: (a ++ b)) =
      (macroHead category).isPrefixOf ('\\' :: a) := by
  have hbegin : '\\' :: word <+: '\\' :: a := List.cons_prefix_cons.mpr ⟨rfl, hstart⟩
  have hlonger : '\\' :: a <+: '\\' :: (a ++ b) :=
    List.cons_prefix_cons.mpr ⟨rfl, List.prefix_append a b⟩
  rw [Bool.eq_iff_iff, List.isPrefixOf_iff_prefix, List.isPrefixOf_iff_prefix]
  constructor
  · intro h
    rcases List.prefix_or_prefix_of_prefix h (hbegin.trans hlonger) with h | h
    · exact h.trans hbegin
    rcases listingWords_decide_macroHead word hword category (Category.mem_all category)
      hcategory with hdecided | hdecided
    · exact (List.isPrefixOf_iff_prefix.mp hdecided).trans hbegin
    · rw [← List.isPrefixOf_iff_prefix, hdecided] at h
      cases h
  · intro h
    exact h.trans hlonger

/-- A text whose backslashes are followed by known words invokes the same macros in any context. -/
theorem invoked_append {a : List Char} (h : commandsAre listingWords a = true) (b : List Char) :
    invoked (a ++ b) = invoked a ++ invoked b := by
  induction a with
  | nil =>
      rfl
  | cons c a ih =>
      simp only [commandsAre, Bool.and_eq_true, Bool.or_eq_true, bne_iff_ne, List.any_eq_true,
        List.isPrefixOf_iff_prefix] at h
      rw [List.cons_append, invoked, invoked, ih h.2, List.append_assoc]
      congr 1
      apply List.filter_congr
      intro category _
      by_cases hcategory : category = .normal
      · simp [hcategory]
      by_cases hc : c = '\\'
      · rcases h.1 with hne | ⟨word, hword, hstart⟩
        · exact absurd hc hne
        · rw [hc, isPrefixOf_macroHead_append hword hstart hcategory]
      · simp [macroHead, Ne.symm hc]

theorem invoked_flatMap {α : Type} {f : α → List Char}
    (h : ∀ x, commandsAre listingWords (f x) = true) (xs : List α) :
    invoked (xs.flatMap f) = xs.flatMap fun x => invoked (f x) := by
  induction xs with
  | nil =>
      rfl
  | cons x xs ih =>
      rw [List.flatMap_cons, List.flatMap_cons, invoked_append (h x), ih]

theorem invoked_of_silent {cs : List Char} (h : commandsAre silentWords cs = true) :
    invoked cs = [] := by
  induction cs with
  | nil =>
      rfl
  | cons c cs ih =>
      simp only [commandsAre, Bool.and_eq_true, Bool.or_eq_true, bne_iff_ne, List.any_eq_true,
        List.isPrefixOf_iff_prefix] at h
      rw [invoked, ih h.2, List.append_nil, invokedAt, List.filter_eq_nil_iff]
      intro category hmem hinvoked
      rw [decide_eq_true_iff, List.isPrefixOf_iff_prefix] at hinvoked
      rcases hinvoked with ⟨hcategory, hhead⟩
      have hc : c = '\\' := (List.cons_prefix_cons.mp hhead).1.symm
      rcases h.1 with hne | ⟨word, hword, hstart⟩
      · exact hne hc
      · have hunlike := silentWords_unlike_macroHead word hword category hmem hcategory
        have hbegin : '\\' :: word <+: c :: cs := List.cons_prefix_cons.mpr ⟨hc.symm, hstart⟩
        exact not_prefix_of_unlike hunlike hhead hbegin

/-! ## Invocations of a listing -/

theorem invoked_escapeChars (cs : List Char) : invoked (escapeChars cs) = [] := by
  have hescape : ∀ word ∈ escapeWords, commandsAre silentWords ('\\' :: word) = true := by
    decide
  apply invoked_of_silent
  apply commandsAre_flatMap
  intro c
  rcases escapeChar_cases c with ⟨hplain, hc, _⟩ | ⟨word, hmem, hword⟩
  · rw [hplain]
    exact commandsAre_of_not_mem (by simpa [eq_comm] using hc)
  · rw [hword]
    exact hescape word hmem

theorem invoked_macroHead : ∀ category ∈ Category.all, category ≠ .normal →
    invoked (macroHead category) = [category] := by
  decide

theorem commandsAre_listingWords {cs : List Char} (h : commandsAre commands cs = true) :
    commandsAre listingWords cs = true :=
  commandsAre_mono (List.subset_append_right _ _) h

theorem invoked_token (t : Token) :
    invoked (token t) = ([t].filter fun t => t.category ≠ .normal).map Token.category := by
  unfold token
  split
  · rename_i h
    simp [invoked_escapeChars, h]
  · rename_i h
    have hmem := Category.mem_all t.category
    have hhead := commandsAre_listingWords (commandsAre_macroHead t.category hmem h)
    have htext : commandsAre listingWords (escapeChars t.text.toList) = true :=
      commandsAre_listingWords (commandsAre_flatMap commandsAre_escapeChar _)
    have hclose : invoked ['}'] = [] := by
      decide
    have hsplit : '\\' :: (t.category.short.toList ++ '{' :: (escapeChars t.text.toList ++ ['}'])) =
        macroHead t.category ++ (escapeChars t.text.toList ++ ['}']) := by
      simp [macroHead]
    rw [hsplit, invoked_append hhead, invoked_append htext, invoked_escapeChars, hclose,
      invoked_macroHead t.category hmem h]
    simp [h]

theorem invoked_line (tokens : List Token) :
    invoked (line tokens) = (tokens.filter fun t => t.category ≠ .normal).map Token.category := by
  have htoken : ∀ t, commandsAre listingWords (token t) = true := fun t =>
    commandsAre_listingWords (commandsAre_token t)
  have hend : invoked ['\n'] = [] := by
    decide
  rw [line, invoked_append (commandsAre_flatMap htoken tokens), hend, List.append_nil,
    invoked_flatMap htoken]
  induction tokens with
  | nil =>
      rfl
  | cons t tokens ih =>
      rw [List.flatMap_cons, ih, invoked_token, ← List.map_append, ← List.filter_append,
        List.singleton_append]

theorem invoked_body (document : Document) :
    invoked (body document) =
      (document.flatten.filter fun t => t.category ≠ .normal).map Token.category := by
  have hline : ∀ tokens, commandsAre listingWords (line tokens) = true := by
    intro tokens
    apply commandsAre_listingWords
    exact commandsAre_append (commandsAre_flatMap commandsAre_token tokens) (by decide)
  rw [body, invoked_flatMap hline]
  induction document with
  | nil =>
      rfl
  | cons tokens document ih =>
      rw [List.flatMap_cons, ih, invoked_line, List.flatten_cons, List.filter_append,
        List.map_append]

theorem commandsAre_silent_header (config : Config) :
    commandsAre silentWords (header config) = true := by
  cases hinline : config.inline with
  | true =>
      rw [header_inline hinline]
      decide
  | false =>
      apply commandsAre_mono _ (commandsAre_header hinline)
      decide

theorem invoked_footer (config : Config) : invoked (footer config) = [] := by
  unfold footer
  split
  · decide
  · decide

/-- A listing invokes the macros of its tokens that are not normal text, and no other ones. -/
theorem invoked_listing (config : Config) (document : Document) :
    invoked (listing config document).toList =
      (document.flatten.filter fun t => t.category ≠ .normal).map Token.category := by
  have hheader := commandsAre_silent_header config
  have hheader' : commandsAre listingWords (header config) = true :=
    commandsAre_mono (List.subset_append_left _ _) hheader
  have hbody := commandsAre_listingWords (commandsAre_body document)
  rw [listing, String.toList_ofList, List.append_assoc, invoked_append hheader',
    invoked_append hbody, invoked_of_silent hheader, invoked_footer, List.append_nil,
    List.nil_append, invoked_body]

end Listing

/-! ## Definitions of a preamble -/

namespace Preamble

theorem not_mem_command (layer : Layer) : '\n' ∉ layer.command := by
  have hargument : ∀ color : Color, '\n' ∉ '{' :: (color.rgbChars ++ ['}']) := by
    intro color
    have hrgb := Color.not_mem_rgbChars (c := '\n') (by decide) (by decide) color
    simp [hrgb]
  cases layer with
  | underline =>
      decide
  | italic =>
      decide
  | bold =>
      decide
  | background color =>
      exact List.not_mem_append (by decide) (hargument color)
  | foreground color =>
      exact List.not_mem_append (by decide) (hargument color)

theorem not_mem_macroBody (style : Style) : '\n' ∉ macroBody style := by
  unfold macroBody
  induction Layer.ofStyle style with
  | nil =>
      decide
  | cons layer layers ih =>
      simp [Layer.wrap, not_mem_command, ih]

def definitionTail (style : Style) : List Char :=
  '{' :: (macroBody style ++ ['}'])

theorem macroChars_eq (category : Category) (style : Style) :
    macroChars category style = definitionHead category ++ definitionTail style := by
  have hopen : "\x7d[1]\x7b".toList = "\x7d[1]".toList ++ ['{'] := by
    decide
  have hassoc : ∀ a b c d : List Char,
      a ++ b ++ (c ++ ['{']) ++ d ++ ['}'] = (a ++ b ++ c) ++ '{' :: (d ++ ['}']) := by
    simp
  have hchars : macroChars category style = "\\newcommand\x7b\\".toList ++
      category.short.toList ++ ("\x7d[1]".toList ++ ['{']) ++ macroBody style ++ ['}'] :=
    congrArg (fun opened => "\\newcommand\x7b\\".toList ++ category.short.toList ++ opened ++
      macroBody style ++ ['}']) hopen
  exact hchars.trans (hassoc _ _ _ _)

theorem not_mem_macroChars (category : Category) (style : Style) :
    '\n' ∉ macroChars category style := by
  have hhead : ∀ category ∈ Category.all, '\n' ∉ definitionHead category := by
    decide
  have htail : '\n' ∉ definitionTail style := by
    simp [definitionTail, not_mem_macroBody]
  rw [macroChars_eq]
  exact List.not_mem_append (hhead category (Category.mem_all category)) htail

theorem not_mem_shadeColor (color : Color) : '\n' ∉ shadeColor color := by
  have hnumeral : ∀ n, '\n' ∉ Numeral.ofNat n :=
    Numeral.not_mem_ofNat (by decide)
  have hchannels : '\n' ∉ ',' :: (Numeral.ofNat color.green.val ++
      ',' :: (Numeral.ofNat color.blue.val ++ ['}'])) := by
    simp [hnumeral]
  exact List.not_mem_append (List.not_mem_append (by decide) (hnumeral _)) hchannels

theorem not_mem_lines {theme : Theme} {line : List Char} (h : line ∈ lines theme) :
    '\n' ∉ line := by
  have hpackages : ∀ line ∈ packages, '\n' ∉ line := by
    decide
  simp only [lines, List.mem_append, List.mem_map] at h
  rcases h with (h | ⟨color, _, rfl⟩) | ⟨entry, _, rfl⟩
  · exact hpackages line h
  · exact not_mem_shadeColor color
  · exact not_mem_macroChars entry.1 entry.2

theorem definitionHead_unlike : ∀ c ∈ Category.all, ∀ d ∈ Category.all, c ≠ d →
      (definitionHead c).isPrefixOf (definitionHead d) = false ∧
        (definitionHead d).isPrefixOf (definitionHead c) = false := by
  decide

theorem definedBy_macroChars {category : Category} (h : category ≠ .normal) (style : Style) :
    definedBy (macroChars category style) = [category] := by
  have hline : definitionHead category <+: macroChars category style :=
    ⟨definitionTail style, (macroChars_eq category style).symm⟩
  have hiff : ∀ d ∈ Category.all, (d ≠ .normal ∧
      (definitionHead d).isPrefixOf (macroChars category style) = true) ↔
        d = category := by
    intro d hmem
    constructor
    · intro h
      rcases h with ⟨hd, hhead⟩
      by_contra hne
      have hunlike := definitionHead_unlike d hmem category (Category.mem_all category) hne
      exact Listing.not_prefix_of_unlike hunlike (List.isPrefixOf_iff_prefix.mp hhead) hline
    · intro h
      rcases h with rfl
      exact ⟨h, List.isPrefixOf_iff_prefix.mpr hline⟩
  have hone : (Category.all.filter fun d => d = category) = [category] := by
    cases category <;> decide
  rw [← hone, definedBy]
  apply List.filter_congr
  intro d hmem
  rw [decide_eq_decide]
  exact hiff d hmem

theorem definedBy_of_ne {e : Char} (h : e ≠ 'n') (rest : List Char) :
    definedBy ('\\' :: e :: rest) = [] := by
  have hhead : ∀ category ∈ Category.all,
      ['\\', 'n'].isPrefixOf (definitionHead category) = true := by
    decide
  rw [definedBy, List.filter_eq_nil_iff]
  intro category hmem hdefined
  rw [decide_eq_true_iff, List.isPrefixOf_iff_prefix] at hdefined
  have hstart := (List.isPrefixOf_iff_prefix.mp (hhead category hmem)).trans hdefined.2
  exact h (List.cons_prefix_cons.mp (List.cons_prefix_cons.mp hstart).2).1.symm

end Preamble

theorem defined_preamble (theme : Theme) :
    defined (preamble theme).toList = theme.visibleStyles.map Prod.fst := by
  have hpackages : Preamble.packages.flatMap definedBy = [] := by
    decide
  have hshade : (theme.backgroundColor.toList.map Preamble.shadeColor).flatMap definedBy = [] := by
    rw [List.flatMap_map, List.flatMap_eq_nil_iff]
    intro color _
    exact Preamble.definedBy_of_ne (by decide) _
  have hmacros : (theme.visibleStyles.map fun entry =>
      Preamble.macroChars entry.1 entry.2).flatMap definedBy =
        theme.visibleStyles.map Prod.fst := by
    rw [List.flatMap_map, List.map_eq_flatMap]
    apply List.flatMap_congr
    intro entry hentry
    have hcategory : entry.1 ≠ .normal := by
      simpa [Theme.visibleStyles] using (List.mem_filter.mp hentry).2
    exact Preamble.definedBy_macroChars hcategory entry.2
  have hlast : [[]].flatMap definedBy = [] := by
    decide
  rw [defined, preamble, String.toList_ofList,
    splitOn_flatMap_ended fun line hline => Preamble.not_mem_lines hline, List.flatMap_append,
    Preamble.lines, List.flatMap_append, List.flatMap_append, hpackages, hshade, hmacros, hlast]
  simp

/-! ## Palettes -/

theorem mem_all_of_get {name : Value} {theme : Theme} (h : Palette.get name = .ok theme) :
    theme ∈ Palette.all :=
  ((Palette.get_eq_ok_iff_spells name theme).mp h).1

/-- No palette covers region markers, and two of them do not cover other tokens. -/
theorem mem_visibleStyles_iff : ∀ theme ∈ Palette.all, ∀ category ∈ Category.all,
    category ≠ .normal →
      (category ∈ theme.visibleStyles.map Prod.fst ↔
        category ≠ .regionMarker ∧
          (category = .other → theme.name ∈ ["pygments", "tango"])) := by
  decide

/--
A listing invokes the macros of its tokens that are not normal text. The preamble of a palette
defines them except for region markers, and except for other tokens in two of the palettes.
-/
theorem macros_defined_iff {name : Value} {theme : Theme} (h : Palette.get name = .ok theme)
    (config : Config) (language : String) (document : Document) :
    invoked (OutputFormat.latex.listing config language document).toList =
        (document.flatten.filter fun t => t.category ≠ .normal).map Token.category ∧
      ∀ category ∈ invoked (OutputFormat.latex.listing config language document).toList,
        category ∈ defined (preamble theme).toList ↔
          category ≠ .regionMarker ∧
            (category = .other → theme.name ∈ ["pygments", "tango"]) := by
  have hinvoked : invoked (OutputFormat.latex.listing config language document).toList =
      (document.flatten.filter fun t => t.category ≠ .normal).map Token.category :=
    Listing.invoked_listing config document
  refine ⟨hinvoked, ?_⟩
  intro category hcategory
  rw [hinvoked] at hcategory
  rcases List.mem_map.mp hcategory with ⟨token, htoken, rfl⟩
  have hmarked : token.category ≠ .normal := by
    simpa using (List.mem_filter.mp htoken).2
  rw [defined_preamble]
  exact mem_visibleStyles_iff theme (mem_all_of_get h) token.category
    (Category.mem_all token.category) hmarked

/-- The macros of a listing with a token of every other category, under one of the palettes. -/
theorem macros_defined_tango :
    Palette.get (.text "TANGO") = .ok Palette.tango ∧
      ∀ category ∈ invoked (OutputFormat.latex.listing { inline := true } "c"
        [[⟨.other, "\\re\x7b"⟩, ⟨.normal, "\x7d"⟩], [⟨.keyword, "if"⟩]]).toList,
        category ∈ defined (preamble Palette.tango).toList := by
  have hget : Palette.get (.text "TANGO") = .ok Palette.tango := by
    rfl
  rcases macros_defined_iff hget { inline := true } "c"
    [[⟨.other, "\\re\x7b"⟩, ⟨.normal, "\x7d"⟩], [⟨.keyword, "if"⟩]] with ⟨hinvoked, hdefined⟩
  refine ⟨hget, fun category hcategory => (hdefined category hcategory).mpr ?_⟩
  rw [hinvoked] at hcategory
  revert category
  decide

/-- A region marker under the default palette: its macro is invoked, but not defined. -/
theorem regionMarker_not_defined :
    Palette.get (.text "pygments") = .ok Palette.pygments ∧
      Category.regionMarker ∈
        invoked (OutputFormat.latex.listing {} "" [[⟨.regionMarker, "BEGIN"⟩]]).toList ∧
      Category.regionMarker ∉ defined (preamble Palette.pygments).toList := by
  have hinvoked := Listing.invoked_listing {} [[⟨.regionMarker, "BEGIN"⟩]]
  refine ⟨rfl, ?_, ?_⟩
  · change Category.regionMarker ∈
      invoked (listing {} [[⟨.regionMarker, "BEGIN"⟩]]).toList
    rw [hinvoked]
    decide
  · rw [defined_preamble]
    decide

end Latex
end Highlighting
