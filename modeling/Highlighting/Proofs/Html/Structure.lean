import Highlighting.Html.Listing
import Highlighting.Proofs.Html.Elements

/-!
# Structure of HTML listings

What a reader finds in the characters of a listing: the elements of its layout around a single
`code` element, and in this the spans of the tokens and nothing else. Neither a token text nor the
name of the language can add a tag, close one or change the text that is shown.
-/

namespace Highlighting
namespace Html

/-!
## Lines

The body of the `code` element: its elements are the spans of the tokens that are not normal text,
and its characters are those of all tokens and of the line ends.
-/

namespace Listing

def lineText (line : List Token) : List Char :=
  line.flatMap fun token => token.text.toList

def documentText (document : Document) : List Char :=
  ['\n'].intercalate (document.map lineText)

def spanned (line : List Token) : List Token :=
  line.filter fun token => token.category ≠ .normal

def spanOf (config : Config) (token : Token) : Element where
  name := "span"
  attributes := (spanAttributes config token.category).map fun a => (a.name, escape a.value)
  body := .chars (escapeChars token.text.toList) .empty

/-- Whatever is collected token by token is collected line by line, with the same between lines. -/
theorem collect_lines {β : Type} (collect : Fragment → List β) (ofToken : Token → List β)
    {config : Config} (separator : List β) (hempty : collect .empty = [])
    (htoken : ∀ token rest, collect (tokenBefore config token rest) = ofToken token ++ collect rest)
    (hseparator : ∀ rest, collect (.text "\n" rest) = separator ++ collect rest)
    (document : Document) :
    collect (lines config document) =
      separator.intercalate (document.map fun line => line.flatMap ofToken) := by
  have hline : ∀ line rest,
      collect (lineBefore config line rest) = line.flatMap ofToken ++ collect rest := by
    intro line rest
    induction line with
    | nil =>
        rfl
    | cons token line ih =>
        have hbefore := htoken token (lineBefore config line rest)
        rw [ih, ← List.append_assoc] at hbefore
        exact hbefore
  induction document with
  | nil =>
      exact hempty
  | cons line rest ih =>
      cases rest with
      | nil =>
          rw [lines, hline, hempty, List.append_nil, List.map_singleton, List.intercalate_singleton]
      | cons next rest =>
          have hlines : (line :: next :: rest).map (fun line => line.flatMap ofToken) =
              line.flatMap ofToken :: (next :: rest).map (fun line => line.flatMap ofToken) :=
            List.map_cons
          rw [lines, hline, hseparator, ih, hlines, List.map_cons, List.intercalate_cons_cons,
            List.append_assoc]

theorem children_tokenBefore (config : Config) (token : Token) (rest : Fragment) :
    (tokenBefore config token rest).markup.children =
      (spanned [token]).map (spanOf config) ++ rest.markup.children := by
  unfold tokenBefore
  split
  · rename_i h
    simp [Fragment.markup, Markup.children_chars, spanned, h]
  · rename_i h
    simp [Fragment.markup, Markup.children, spanned, h, spanOf, Tag.name]

theorem flatMap_spanned {β : Type} (f : Token → β) (line : List Token) :
    (line.flatMap fun token => (spanned [token]).map f) = (spanned line).map f := by
  induction line with
  | nil =>
      rfl
  | cons token line ih =>
      rw [List.flatMap_cons, ih, ← List.map_append, spanned, spanned, spanned,
        ← List.filter_append, List.singleton_append]

theorem nil_intercalate {α : Type} (lists : List (List α)) :
    [].intercalate lists = lists.flatten := by
  induction lists with
  | nil =>
      rfl
  | cons list rest ih =>
      cases rest with
      | nil =>
          simp
      | cons next rest =>
          rw [List.intercalate_cons_cons, ih, List.append_nil, ← List.flatten_cons]

/-- What every token that is not normal text yields is collected from all lines. -/
theorem intercalate_spanned {β : Type} (f : Token → β) (document : Document) :
    [].intercalate (document.map fun line => line.flatMap fun token => (spanned [token]).map f) =
      (spanned document.flatten).map f := by
  rw [nil_intercalate, spanned, List.filter_flatten, List.map_flatten, List.map_map]
  congr 1
  apply List.map_congr_left
  intro line _
  exact flatMap_spanned f line

theorem children_lines (config : Config) (document : Document) :
    (lines config document).markup.children =
      (spanned document.flatten).map (spanOf config) := by
  have hcollect := collect_lines (fun fragment => fragment.markup.children) _ [] rfl
    (children_tokenBefore config) (fun rest => Markup.children_chars _ _) document
  rw [hcollect, intercalate_spanned]

theorem descendants_lines (config : Config) (document : Document) :
    (lines config document).markup.descendants = (lines config document).markup.children := by
  apply Markup.descendants_eq_children
  intro e he
  rw [children_lines, List.mem_map] at he
  rcases he with ⟨token, _, rfl⟩
  exact Markup.descendants_chars _ _

theorem text_tokenBefore (config : Config) (token : Token) (rest : Fragment) :
    (tokenBefore config token rest).markup.text =
      escapeChars token.text.toList ++ rest.markup.text := by
  unfold tokenBefore
  split
  · exact Markup.text_chars _ _
  · have hbody := Markup.text_chars (escapeChars token.text.toList) .empty
    simp only [Markup.text] at hbody
    simp [Fragment.markup, Markup.text, Markup.parts, Part.text, hbody]

theorem unescapeChars_text_lines (config : Config) (document : Document) :
    unescapeChars (lines config document).markup.text = documentText document := by
  apply collect_lines (fun fragment => unescapeChars fragment.markup.text)
  · rfl
  · intro token rest
    rw [text_tokenBefore, unescapeChars_escapeChars_append]
  · intro rest
    rw [Fragment.markup, Markup.text_chars, unescapeChars_escapeChars_append]
    rfl

/-!
## Layouts
-/

def classed (name : String) (body : Markup) : Element :=
  ⟨name, [("class", "sourceCode")], body⟩

def codeElement (config : Config) (language : String) (document : Document) : Element where
  name := "code"
  attributes := [("class", escape ("sourceCode " ++ language))]
  body := (lines config document).markup

def gutterCell (config : Config) (count : Nat) : Element where
  name := "td"
  attributes := [("class", "lineNumbers"), ("title", escape toggleTitle),
    ("onclick", escape toggleScript)]
  body := (Fragment.single .pre [] (numbers config config.numberFrom count)).markup

def inTable (gutter pre : Element) : Markup :=
  .ofElement (classed "table" (.ofElement (classed "tr"
    (.cons gutter (.ofElement (classed "td" (.ofElement pre)))))))

def surround (config : Config) (count : Nat) (code : Element) : Markup :=
  if config.inline then .ofElement code
  else if config.numberLines then
    inTable (gutterCell config count) (classed "pre" (.ofElement code))
  else .ofElement (classed "pre" (.ofElement code))

theorem markup_fragment (config : Config) (language : String) (document : Document) :
    (fragment config language document).markup =
      surround config document.length (codeElement config language document) := by
  have hcode : escape codeClass = "sourceCode" := by
    decide
  have hclasses : codeClass ++ " " = "sourceCode " := by
    decide
  have hgutter : escape "lineNumbers" = "lineNumbers" := by
    decide
  unfold fragment surround
  cases config.inline <;> cases config.numberLines <;>
    simp [code, block, numberedTable, gutter, Fragment.single, Fragment.markup, Markup.ofElement,
      Markup.cons, inTable, classed, codeElement, gutterCell, Tag.name, Attribute.name,
      Attribute.value, hcode, hgutter, hclasses]

theorem name_of_mem_numbers {config : Config} {count : Nat} {start : Int} {e : Element}
    (h : e ∈ (numbers config start count).markup.descendants) : e.name = "a" := by
  induction count generalizing start with
  | zero =>
      cases h
  | succ count ih =>
      simp only [numbers, numberBefore] at h
      split at h
      · simp only [Fragment.markup, Markup.descendants, Markup.descendants_chars, List.nil_append,
          List.mem_cons] at h
        rcases h with rfl | h
        · rfl
        · exact ih h
      · simp only [Fragment.markup, Markup.descendants_chars] at h
        exact ih h

theorem mem_descendants_codeElement {config : Config} {language : String} {document : Document}
    {e : Element} (h : e ∈ (codeElement config language document).body.descendants) :
    e.name = "span" := by
  simp only [codeElement, descendants_lines, children_lines, List.mem_map] at h
  rcases h with ⟨token, _, rfl⟩
  rfl

theorem descendants_ofElement (e : Element) :
    (Markup.ofElement e).descendants = e :: e.body.descendants := by
  simp [Markup.ofElement, Markup.cons, Markup.descendants]

def outerNames : List String :=
  ["table", "tr", "td", "pre", "a"]

theorem descendants_surround (config : Config) (count : Nat) (code : Element) :
    ∃ outer : List Element,
      (surround config count code).descendants = outer ++ code :: code.body.descendants ∧
        ∀ e ∈ outer, e.name ∈ outerNames := by
  unfold surround
  split
  · exact ⟨[], descendants_ofElement code, by simp⟩
  split
  · let pre := classed "pre" (.ofElement code)
    let cell := classed "td" (.ofElement pre)
    let row := classed "tr" (.cons (gutterCell config count) (.ofElement cell))
    let column := (numbers config config.numberFrom count).markup
    refine ⟨classed "table" (.ofElement row) :: row :: gutterCell config count ::
      ⟨"pre", [], column⟩ :: (column.descendants ++ [cell, pre]), ?_, ?_⟩
    · simp [descendants_ofElement, inTable, row, cell, pre, column, classed, Markup.cons,
        Markup.descendants, gutterCell, Fragment.single, Fragment.markup, Tag.name]
    · intro e he
      simp only [List.mem_cons, List.mem_append, List.not_mem_nil, or_false] at he
      rcases he with rfl | rfl | rfl | rfl | he | rfl | rfl
      · simp [classed, outerNames]
      · simp [row, classed, outerNames]
      · simp [gutterCell, outerNames]
      · simp [outerNames]
      · simp [name_of_mem_numbers he, outerNames]
      · simp [cell, classed, outerNames]
      · simp [pre, classed, outerNames]
  · refine ⟨[classed "pre" (.ofElement code)], ?_, ?_⟩
    · simp [descendants_ofElement, classed]
    · intro e he
      rw [List.mem_singleton] at he
      subst he
      simp [classed, outerNames]

theorem filter_name_outer {outer : List Element} (houter : ∀ e ∈ outer, e.name ∈ outerNames)
    {name : String} (hname : name ∉ outerNames) :
    outer.filter (fun e => e.name = name) = [] := by
  rw [List.filter_eq_nil_iff]
  intro e he heq
  have hmem := houter e he
  rw [of_decide_eq_true heq] at hmem
  exact hname hmem

/-!
## Listings
-/

theorem attribute?_spanOf (config : Config) (token : Token) :
    (spanOf config token).attribute? "class" = some (escape token.category.short) := by
  simp [spanOf, spanAttributes, Element.attribute?, Attribute.name, Attribute.value]

theorem escape_short (category : Category) : escape category.short = category.short := by
  cases category <;> decide

theorem classes_lines (config : Config) (document : Document) :
    (lines config document).markup.children.map (fun e => e.attribute? "class") =
      (spanned document.flatten).map fun token => some token.category.short := by
  rw [children_lines, List.map_map]
  apply List.map_congr_left
  intro token _
  rw [Function.comp_apply, attribute?_spanOf, escape_short]

theorem read_listing (config : Config) (language : String) (document : Document) :
    Markup.read (listing config language document).toList =
      some (surround config document.length (codeElement config language document)) := by
  rw [listing, String.toList_ofList, Fragment.read_render, markup_fragment]

theorem filter_code_surround {config : Config} {count : Nat} {code : Element}
    (hname : code.name = "code") (hbody : ∀ e ∈ code.body.descendants, e.name = "span") :
    (surround config count code).descendants.filter (fun e => e.name = "code") = [code] := by
  rcases descendants_surround config count code with ⟨outer, hdescendants, houter⟩
  have hleft : outer.filter (fun e => e.name = "code") = [] :=
    filter_name_outer houter (by decide)
  have hright : code.body.descendants.filter (fun e => e.name = "code") = [] := by
    rw [List.filter_eq_nil_iff]
    intro e he hcode
    rw [hbody e he] at hcode
    exact absurd hcode (by decide)
  rw [hdescendants, List.filter_append, hleft, List.filter_cons, hright]
  simp [hname]

/--
A listing is read as a forest of known elements around one `code` element. Inside of it there are
only spans, none in another, with the classes of the tokens that are not normal text; without its
tags and decoded it is the text of the document. Around it there is only what the layout puts there.
-/
theorem listing_wellNested (config : Config) (language : String) (document : Document) :
    ∃ (markup : Markup) (code : Element),
      Markup.read (listing config language document).toList = some markup ∧
      (∀ e ∈ markup.descendants, (∃ tag : Tag, e.name = tag.name) ∧
        ∀ entry ∈ e.attributes, '"' ∉ entry.2.toList) ∧
      markup.descendants.filter (fun e => e.name = "code") = [code] ∧
      (∀ e ∈ markup.descendants, e.name = "span" → e ∈ code.body.children) ∧
      (∀ e ∈ code.body.descendants,
        e.name = "span" ∧ e ∈ code.body.children ∧ e.body.descendants = []) ∧
      code.body.children.map (fun e => e.attribute? "class") =
        (spanned document.flatten).map (fun token => some token.category.short) ∧
      unescapeChars (deleteTags code.body.write) = documentText document ∧
      (config.inline = true → markup = .ofElement code ∧
        ∀ e ∈ markup.descendants, e.name = "code" ∨ e.name = "span") ∧
      (config.inline = false → config.numberLines = false →
        markup = .ofElement (classed "pre" (.ofElement code))) ∧
      (config.inline = false → config.numberLines = true → ∃ gutter : Element,
        gutter.name = "td" ∧ gutter.attribute? "class" = some "lineNumbers" ∧
        markup = inTable gutter (classed "pre" (.ofElement code))) := by
  let code := codeElement config language document
  let count := document.length
  rcases descendants_surround config count code with ⟨outer, hdescendants, houter⟩
  have hspans : ∀ e ∈ code.body.descendants, e.name = "span" :=
    fun e he => mem_descendants_codeElement he
  have hchildren : code.body.descendants = code.body.children :=
    descendants_lines config document
  refine ⟨surround config count code, code, read_listing config language document, ?_,
    filter_code_surround rfl hspans, ?_, ?_, classes_lines config document, ?_, ?_, ?_, ?_⟩
  · intro e he
    rw [← markup_fragment] at he
    rcases Fragment.mem_descendants_markup he with ⟨htag, hvalues⟩
    exact ⟨htag, fun entry hentry hquote => (hvalues entry hentry '"' hquote).1 rfl⟩
  · intro e he hname
    rw [hdescendants, List.mem_append, List.mem_cons] at he
    rcases he with he | rfl | he
    · have hmem := houter e he
      rw [hname] at hmem
      exact absurd hmem (by decide)
    · have hcode : "code" ≠ "span" := by
        decide
      exact absurd hname hcode
    · rwa [← hchildren]
  · intro e he
    refine ⟨hspans e he, hchildren ▸ he, ?_⟩
    simp only [code, codeElement, descendants_lines, children_lines, List.mem_map] at he
    rcases he with ⟨token, _, rfl⟩
    exact Markup.descendants_chars _ _
  · have hproper : code.body.Proper := Fragment.proper_markup _
    rw [deleteTags_write hproper]
    exact unescapeChars_text_lines config document
  · intro hinline
    have hsurround : surround config count code = .ofElement code := by
      simp [surround, hinline]
    refine ⟨hsurround, ?_⟩
    intro e he
    rw [hsurround, descendants_ofElement, List.mem_cons] at he
    rcases he with rfl | he
    · exact Or.inl rfl
    · exact Or.inr (hspans e he)
  · intro hinline hnumbers
    simp [surround, hinline, hnumbers]
  · intro hinline hnumbers
    refine ⟨gutterCell config count, rfl, rfl, ?_⟩
    simp [surround, hinline, hnumbers]

end Listing
end Html
end Highlighting
