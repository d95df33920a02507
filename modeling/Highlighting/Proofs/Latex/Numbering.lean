import Highlighting.Listing
import Highlighting.Proofs.Html.Numbering
import Highlighting.Proofs.Latex.Escape

/-!
# Line numbers of LaTeX listings

A block leaves the counting of its lines to the environment and only names the first number, in the
options of its first line. No token text reaches this line, the number that it names is the first
one beside the HTML listing of the same document, and both listings have as many lines as the
document.
-/

namespace Highlighting
namespace Latex
namespace Listing

/-!
## The first line
-/

def headerLine (config : Config) : List Char :=
  "\\begin\x7bVerbatim\x7d[".toList ++
    (if config.numberLines then "numbers=left,".toList else []) ++
    (if config.numberLines ∧ config.numberFrom ≠ 1 then
      "firstnumber=".toList ++ config.numberFrom.repr.toList ++ [',']
    else []) ++
    "commandchars=\\\\\\\x7b\\\x7d]".toList

def firstLine (text : List Char) : List Char :=
  text.takeWhile fun c => c ≠ '\n'

def countKey : List Char :=
  "numbers=left".toList

def startKey : List Char :=
  "firstnumber=".toList

def blockOptions (config : Config) : List (List Char) :=
  (if config.numberLines then [countKey] else []) ++
    (if config.numberLines ∧ config.numberFrom ≠ 1 then
      [startKey ++ config.numberFrom.repr.toList]
    else []) ++
    [commandCharacters]

theorem headerLine_eq (config : Config) :
    headerLine config =
      "\\begin\x7bVerbatim\x7d".toList ++
        '[' :: ([','].intercalate (blockOptions config) ++ [']']) := by
  have hend : "commandchars=\\\\\\\x7b\\\x7d]".toList = commandCharacters ++ [']'] := by
    decide
  have hstart : "\\begin\x7bVerbatim\x7d[".toList = "\\begin\x7bVerbatim\x7d".toList ++ ['['] := by
    decide
  have hcount : "numbers=left,".toList = countKey ++ [','] := by
    decide
  have hfirst : "firstnumber=".toList = startKey := rfl
  unfold headerLine blockOptions
  rw [hend, hstart, hcount, hfirst]
  by_cases hlines : config.numberLines = true
  · by_cases hfrom : config.numberFrom = 1
    · simp [hlines, hfrom]
    · simp [hlines, hfrom]
  · simp [hlines]

theorem header_eq_headerLine {config : Config} (h : config.inline = false) :
    header config = headerLine config ++ ['\n'] := by
  have hend : "commandchars=\\\\\\\x7b\\\x7d]".toList = commandCharacters ++ [']'] := by
    decide
  unfold header headerLine environmentOptions
  rw [if_neg (by simp [h]), hend, Numeral.ofInt_eq_repr]
  by_cases hlines : config.numberLines = true
  · by_cases hfrom : config.numberFrom = 1
    · simp [hlines, hfrom]
    · simp [hlines, hfrom]
  · simp [hlines]

theorem not_mem_headerLine (config : Config) : '\n' ∉ headerLine config := by
  have hnumeral : '\n' ∉ config.numberFrom.repr.toList :=
    Numeral.not_mem_repr (by decide) (by decide) config.numberFrom
  unfold headerLine
  refine List.not_mem_append (List.not_mem_append (List.not_mem_append (by decide) ?_) ?_)
    (by decide)
  · split
    · decide
    · decide
  · split
    · simp [hnumeral]
    · decide

theorem listing_block {config : Config} (h : config.inline = false) (document : Document) :
    (listing config document).toList =
      headerLine config ++ '\n' :: (body document ++ "\\end\x7bVerbatim\x7d".toList) := by
  have hfooter : footer config = "\\end\x7bVerbatim\x7d".toList := by
    rw [footer, if_neg (by simp [h])]
  rw [listing, String.toList_ofList, header_eq_headerLine h, hfooter]
  simp

/-!
## The number that the first line names
-/

def options (line : List Char) : List (List Char) :=
  (((line.dropWhile fun c => c ≠ '[').drop 1).takeWhile fun c => c ≠ ']').splitOn ','

/-- Number of the first line behind a header, one where the header does not name it. -/
def startOf (line : List Char) : Option Int :=
  match (options line).findSome? fun option => option.dropPrefix? startKey with
  | some numeral => (String.ofList numeral).toInt?
  | none => some 1

theorem not_mem_blockOptions {c : Char} (hsign : c ≠ '-') (hdigit : c.isDigit = false)
    (hwords : c ∉ countKey ++ startKey ++ commandCharacters) (config : Config) :
    ∀ option ∈ blockOptions config, c ∉ option := by
  have hnumeral : c ∉ config.numberFrom.repr.toList :=
    Numeral.not_mem_repr hsign hdigit config.numberFrom
  rw [List.mem_append, List.mem_append, not_or, not_or] at hwords
  intro option hoption
  simp only [blockOptions, List.mem_append, List.mem_singleton] at hoption
  rcases hoption with (hoption | hoption) | rfl
  · split at hoption
    · rw [List.mem_singleton.mp hoption]
      exact hwords.1.1
    · cases hoption
  · split at hoption
    · rw [List.mem_singleton.mp hoption]
      exact List.not_mem_append hwords.1.2 hnumeral
    · cases hoption
  · exact hwords.2

theorem options_headerLine (config : Config) :
    options (headerLine config) = blockOptions config := by
  have hcomma := not_mem_blockOptions (c := ',') (by decide) (by decide) (by decide) config
  have hbracket : ']' ∉ [','].intercalate (blockOptions config) :=
    not_mem_intercalate (by decide)
      (not_mem_blockOptions (by decide) (by decide) (by decide) config)
  have hbegin : '[' ∉ "\\begin\x7bVerbatim\x7d".toList := by
    decide
  have hne : blockOptions config ≠ [] := by
    simp [blockOptions]
  rw [options, headerLine_eq, dropWhile_ne_append hbegin, List.drop_one, List.tail_cons,
    takeWhile_ne_append hbracket]
  exact List.splitOn_intercalate ',' hcomma hne

theorem startOf_headerLine {config : Config} (h : config.numberLines = true) :
    startOf (headerLine config) = some config.numberFrom := by
  have hcount : countKey.dropPrefix? startKey = none := by
    decide
  have hcommands : commandCharacters.dropPrefix? startKey = none := by
    decide
  rw [startOf, options_headerLine, blockOptions]
  by_cases hfrom : config.numberFrom = 1
  · simp [h, hfrom, hcount, hcommands]
  · have hstart : (startKey ++ config.numberFrom.repr.toList).dropPrefix? startKey =
        some config.numberFrom.repr.toList :=
      List.dropPrefix?_append_of_beq _ (by decide)
    simp [h, hfrom, hcount, hstart, Int.toInt?_repr]

/-!
## Line ends
-/

theorem not_mem_token {t : Token} (h : '\n' ∉ t.text.toList) : '\n' ∉ token t := by
  have htext : '\n' ∉ escapeChars t.text.toList := fun hescaped =>
    h (mem_of_mem_escapeChars (by decide) (by decide) hescaped)
  have hshort : '\n' ∉ t.category.short.toList := Category.not_mem_short (by decide) t.category
  unfold token
  split
  · exact htext
  · simp [htext, hshort]

theorem count_body {document : Document} (h : document.LinesApart) :
    (body document).count '\n' = document.length := by
  induction document with
  | nil =>
      rfl
  | cons tokens document ih =>
      have hrest := ih fun line hline => h line (List.mem_cons_of_mem tokens hline)
      have htokens : '\n' ∉ tokens.flatMap token := by
        intro hmem
        rcases List.mem_flatMap.mp hmem with ⟨t, ht, hchar⟩
        exact not_mem_token (h tokens List.mem_cons_self t ht) hchar
      have hline : (line tokens).count '\n' = 1 := by
        rw [line, List.count_append, List.count_eq_zero_of_not_mem htokens]
        rfl
      rw [body] at hrest ⊢
      rw [List.flatMap_cons, List.count_append, hline, hrest, List.length_cons, Nat.add_comm]

theorem count_listing_block {config : Config} (hinline : config.inline = false)
    {document : Document} (h : document.LinesApart) :
    (listing config document).toList.count '\n' = document.length + 1 := by
  have hheader : (headerLine config).count '\n' = 0 :=
    List.count_eq_zero_of_not_mem (not_mem_headerLine config)
  have hfooter : "\\end\x7bVerbatim\x7d".toList.count '\n' = 0 := by
    decide
  rw [listing_block hinline, List.count_append, List.count_cons_self, List.count_append, hheader,
    count_body h, hfooter]
  omega

theorem count_listing_inline {config : Config} (hinline : config.inline = true)
    {document : Document} (h : document.LinesApart) :
    (listing config document).toList.count '\n' = document.length := by
  have hheader : (header config).count '\n' = 0 := by
    rw [header, if_pos hinline]
    decide
  have hfooter : (footer config).count '\n' = 0 := by
    rw [footer, if_pos hinline]
    decide
  rw [listing, String.toList_ofList, List.count_append, List.count_append, hheader, count_body h,
    hfooter]
  omega

/--
The first line of a block depends on the options alone. With line numbers it names the number that
stands first beside the HTML listing of the document, one where it names none. Unless a token text
holds a line end, a block has one line end more than the document has lines, and an inline listing
has as many; the HTML listing has as many numbers.
-/
theorem listing_numbering {config : Config} (hinline : config.inline = false) (language : String)
    (document : Document) :
    headerLine config ++ ['\n'] <+:
        (OutputFormat.latex.listing config language document).toList ∧
      firstLine (OutputFormat.latex.listing config language document).toList =
        headerLine config ∧
      (config.numberLines = true →
        Html.Listing.gutterNumbers (OutputFormat.html.listing config language document).toList =
            some ((List.range document.length).map fun i : Nat => config.numberFrom + i) ∧
          (document ≠ [] →
            startOf (firstLine (OutputFormat.latex.listing config language document).toList) =
              (Html.Listing.gutterNumbers
                (OutputFormat.html.listing config language document).toList).bind List.head?)) ∧
      (document.LinesApart →
        (OutputFormat.latex.listing config language document).toList.count '\n' =
            document.length + 1 ∧
          ∀ other : Config, other.inline = true →
            (OutputFormat.latex.listing other language document).toList.count '\n' =
              document.length) := by
  have hlisting := listing_block hinline document
  have hfirst : firstLine (listing config document).toList = headerLine config := by
    rw [hlisting, firstLine, takeWhile_ne_append (not_mem_headerLine config)]
  refine ⟨?_, hfirst, ?_, ?_⟩
  · show headerLine config ++ ['\n'] <+: (listing config document).toList
    rw [hlisting]
    exact ⟨_, by rw [List.append_assoc, List.singleton_append]⟩
  · intro hnumbers
    have hgutter := Html.Listing.gutterNumbers_listing config language document hnumbers hinline
    refine ⟨hgutter, ?_⟩
    intro hne
    show startOf (firstLine (listing config document).toList) =
      (Html.Listing.gutterNumbers (Html.listing config language document).toList).bind List.head?
    rw [hfirst, startOf_headerLine hnumbers, hgutter]
    cases document with
    | nil =>
        exact absurd rfl hne
    | cons line rest =>
        rw [List.length_cons, List.range_succ_eq_map]
        simp
  · intro hlines
    exact ⟨count_listing_block hinline hlines, fun other hother =>
      count_listing_inline hother hlines⟩

/-- A block that is numbered from minus three on, with a token text that looks like its header. -/
theorem listing_numbering_from_minus_three :
    firstLine (OutputFormat.latex.listing { numberLines := true, numberFrom := -3 } "c"
        [[⟨.comment, "]\n\\begin\x7bVerbatim\x7d[numbers=left,firstnumber=7,"⟩], []]).toList =
      "\\begin\x7bVerbatim\x7d[numbers=left,firstnumber=-3,commandchars=\\\\\\\x7b\\\x7d]".toList ∧
      startOf (firstLine (OutputFormat.latex.listing { numberLines := true, numberFrom := -3 } "c"
        [[⟨.comment, "]\n\\begin\x7bVerbatim\x7d[numbers=left,firstnumber=7,"⟩], []]).toList) =
        some (-3) := by
  rcases @listing_numbering { numberLines := true, numberFrom := -3 } rfl "c"
    [[⟨.comment, "]\n\\begin\x7bVerbatim\x7d[numbers=left,firstnumber=7,"⟩], []] with
    ⟨_, hfirst, hnumbers, _⟩
  rcases hnumbers rfl with ⟨hgutter, hstart⟩
  refine ⟨?_, ?_⟩
  · rw [hfirst]
    rfl
  · rw [hstart (by decide), hgutter]
    rfl

end Listing
end Latex
end Highlighting
