import Highlighting.Proofs.Data.Lines
import Highlighting.Proofs.Html.Structure
import Highlighting.Proofs.Number.Numeral
import Highlighting.Proofs.Token.Segmentation

/-!
# Line numbers of HTML listings

A numbered listing is a table of two columns that are written apart from each other: the numbers,
each with a line end behind it, and the lines of code, with a line end between two of them. Read
back from the characters, both columns have one entry for every line of the document, and the
number beside a line is the first number plus the lines above it.
-/

namespace Highlighting
namespace Html
namespace Listing

/-!
## The column of code

Every line of the document is written on its own, so that the line ends of the column are those
between two lines and those in the token texts.
-/

def spanOpening (config : Config) (category : Category) : List Char :=
  "<span class=\"".toList ++ category.short.toList ++ ['"'] ++
    (if config.titleAttributes then " title=\"".toList ++ category.title.toList ++ ['"'] else []) ++
    ['>']

def tokenMarkup (config : Config) (token : Token) : List Char :=
  if token.category = .normal then escapeChars token.text.toList
  else spanOpening config token.category ++ escapeChars token.text.toList ++ "</span>".toList

def lineMarkup (config : Config) (line : List Token) : List Char :=
  line.flatMap (tokenMarkup config)

theorem openTag_span (config : Config) (category : Category) :
    Fragment.openTag .span (spanAttributes config category) = spanOpening config category := by
  have hshort : escapeChars category.short.toList = category.short.toList := by
    cases category <;> rfl
  have htitle : escapeChars category.title.toList = category.title.toList := by
    cases category <;> rfl
  unfold spanAttributes spanOpening
  split
  · simp [Fragment.openTag, Attribute.render, Attribute.name, Attribute.value, Tag.name, hshort,
      htitle]
  · simp [Fragment.openTag, Attribute.render, Attribute.name, Attribute.value, Tag.name, hshort]

theorem render_tokenBefore (config : Config) (token : Token) (rest : Fragment) :
    (tokenBefore config token rest).render = tokenMarkup config token ++ rest.render := by
  unfold tokenBefore tokenMarkup
  split
  · rfl
  · rw [Fragment.render, Fragment.render, Fragment.render, List.append_nil, openTag_span]
    rfl

theorem render_lines (config : Config) (document : Document) :
    (lines config document).render = ['\n'].intercalate (document.map (lineMarkup config)) :=
  collect_lines Fragment.render (tokenMarkup config) ['\n'] rfl (render_tokenBefore config)
    (fun _ => rfl) document

theorem not_mem_spanOpening (config : Config) (category : Category) :
    '\n' ∉ spanOpening config category := by
  unfold spanOpening
  split
  · cases category <;> decide
  · cases category <;> decide

theorem not_mem_lineMarkup (config : Config) {line : List Token}
    (h : ∀ token ∈ line, '\n' ∉ token.text.toList) : '\n' ∉ lineMarkup config line := by
  intro hmem
  rcases List.mem_flatMap.mp hmem with ⟨token, htoken, hchar⟩
  have htext : '\n' ∉ escapeChars token.text.toList := fun hescaped =>
    h token htoken (mem_of_mem_escapeChars (by decide) hescaped)
  unfold tokenMarkup at hchar
  split at hchar
  · exact htext hchar
  · rw [List.mem_append, List.mem_append] at hchar
    rcases hchar with (hopening | hescaped) | hclosing
    · exact not_mem_spanOpening config token.category hopening
    · exact htext hescaped
    · exact absurd hclosing (by decide)

/-- Cut at its line ends, the column of code has one piece for every line of the document. -/
theorem splitOn_render_lines (config : Config) {document : Document} (hne : document ≠ [])
    (hlines : document.LinesApart) :
    (lines config document).render.splitOn '\n' = document.map (lineMarkup config) := by
  rw [render_lines]
  apply List.splitOn_intercalate
  · intro piece hpiece
    rcases List.mem_map.mp hpiece with ⟨line, hline, rfl⟩
    exact not_mem_lineMarkup config (hlines line hline)
  · simpa using hne

/-!
## The column of numbers
-/

def entry (config : Config) (n : Int) : List Char :=
  if config.lineAnchors then
    "<a id=\"".toList ++ n.repr.toList ++ "\">".toList ++ n.repr.toList ++ "</a>".toList
  else n.repr.toList

/-- Whatever is collected number by number comes from the numbers that follow the first one. -/
theorem collect_numbers {β : Type} (collect : Fragment → List β) (ofNumber : Int → List β)
    {config : Config} (hempty : collect .empty = [])
    (hnumber : ∀ n rest, collect (numberBefore config n rest) = ofNumber n ++ collect rest)
    (start : Int) (count : Nat) :
    collect (numbers config start count) =
      (List.range count).flatMap fun i : Nat => ofNumber (start + i) := by
  induction count generalizing start with
  | zero =>
      exact hempty
  | succ count ih =>
      have hnext : ∀ i : Nat, start + 1 + i = start + (i + 1 : Nat) := by
        intro i
        omega
      rw [numbers, hnumber, ih, List.range_succ_eq_map, List.flatMap_cons, List.flatMap_map]
      simp [hnext]

theorem toList_escape_numeral (n : Int) :
    escapeChars (Numeral.text n).toList = n.repr.toList := by
  have hmarkup : ∀ c ∈ ['&', '<', '>', '"', '\''], c ≠ '-' ∧ c.isDigit = false := by
    simp
  rw [Numeral.text, String.toList_ofList, Numeral.ofInt_eq_repr]
  apply escapeChars_eq_self
  intro c hc hmem
  rcases hmarkup c hmem with ⟨hsign, hdigit⟩
  exact Numeral.not_mem_repr hsign hdigit n hc

theorem render_numberBefore (config : Config) (n : Int) (rest : Fragment) :
    (numberBefore config n rest).render = entry config n ++ ['\n'] ++ rest.render := by
  have hend : escapeChars ['\n'] = ['\n'] := rfl
  unfold numberBefore entry
  split
  · simp [Fragment.render, Fragment.openTag, Fragment.closeTag, Attribute.render, Attribute.name,
      Attribute.value, Tag.name, toList_escape_numeral, hend]
  · simp [Fragment.render, toList_escape_numeral, hend]

def entries (config : Config) (start : Int) (count : Nat) : List (List Char) :=
  (List.range count).map fun i : Nat => entry config (start + i)

theorem render_numbers (config : Config) (start : Int) (count : Nat) :
    (numbers config start count).render =
      (entries config start count).flatMap fun written => written ++ ['\n'] := by
  rw [entries, List.flatMap_map]
  exact collect_numbers Fragment.render (fun n => entry config n ++ ['\n']) rfl
    (render_numberBefore config) start count

theorem not_mem_entry (config : Config) (n : Int) : '\n' ∉ entry config n := by
  have hnumeral : '\n' ∉ n.repr.toList := Numeral.not_mem_repr (by decide) (by decide) n
  unfold entry
  split
  · simp [hnumeral]
  · exact hnumeral

/-- Every entry of the column of numbers ends a line, and nothing stands behind the last one. -/
theorem splitOn_render_numbers (config : Config) (start : Int) (count : Nat) :
    (numbers config start count).render.splitOn '\n' = entries config start count ++ [[]] := by
  rw [render_numbers]
  apply splitOn_flatMap_ended
  intro written hwritten
  rcases List.mem_map.mp hwritten with ⟨i, _, rfl⟩
  exact not_mem_entry config (start + i)

/-!
## Anchors
-/

def anchor (n : Int) : Element where
  name := "a"
  attributes := [("id", n.repr)]
  body := .chars n.repr.toList .empty

def identifiers (markup : Markup) : List String :=
  markup.descendants.filterMap fun e => e.attribute? "id"

theorem descendants_numberBefore (config : Config) (n : Int) (rest : Fragment) :
    (numberBefore config n rest).markup.descendants =
      (if config.lineAnchors then [anchor n] else []) ++ rest.markup.descendants := by
  unfold numberBefore
  split
  · simp [Fragment.markup, Markup.descendants, Markup.descendants_chars, anchor, Tag.name,
      Attribute.name, Attribute.value, escape, toList_escape_numeral]
  · simp [Fragment.markup, Markup.descendants_chars]

theorem descendants_numbers (config : Config) (start : Int) (count : Nat) :
    (numbers config start count).markup.descendants =
      if config.lineAnchors then (List.range count).map fun i : Nat => anchor (start + i)
      else [] := by
  rw [collect_numbers (fun fragment => fragment.markup.descendants) _ rfl
    (descendants_numberBefore config)]
  split
  · rw [List.map_eq_flatMap]
  · simp

/-!
## The table
-/

def isNumberCell (e : Element) : Bool :=
  e.name = "td" && e.attribute? "class" = some "lineNumbers"

def tableRow (gutter pre : Element) : Element :=
  classed "tr" (.cons gutter (.ofElement (classed "td" (.ofElement pre))))

theorem descendants_inTable (gutter pre : Element) :
    (inTable gutter pre).descendants =
      classed "table" (.ofElement (tableRow gutter pre)) :: tableRow gutter pre :: gutter ::
        (gutter.body.descendants ++
          classed "td" (.ofElement pre) :: pre :: pre.body.descendants) := by
  simp [inTable, descendants_ofElement, tableRow, classed, Markup.cons, Markup.descendants]

def column (config : Config) (count : Nat) : Markup :=
  (numbers config config.numberFrom count).markup

theorem body_gutterCell (config : Config) (count : Nat) :
    (gutterCell config count).body = .ofElement ⟨"pre", [], column config count⟩ :=
  rfl

theorem isNumberCell_of_name_ne {e : Element} (h : e.name ≠ "td") : isNumberCell e = false := by
  simp [isNumberCell, h]

theorem isNumberCell_classed (name : String) (body : Markup) :
    isNumberCell (classed name body) = false := by
  simp [isNumberCell, classed, Element.attribute?]

theorem identifier_classed (name : String) (body : Markup) :
    (classed name body).attribute? "id" = none := by
  simp [classed, Element.attribute?]

theorem identifier_spanOf (config : Config) (token : Token) :
    (spanOf config token).attribute? "id" = none := by
  unfold spanOf spanAttributes
  split
  · simp [Element.attribute?, Attribute.name]
  · simp [Element.attribute?, Attribute.name]

section Numbered

variable (config : Config) (language : String) (document : Document)

def numberedMarkup : Markup :=
  inTable (gutterCell config document.length)
    (classed "pre" (.ofElement (codeElement config language document)))

theorem read_numbered (hnumbers : config.numberLines = true) (hinline : config.inline = false) :
    Markup.read (listing config language document).toList =
      some (numberedMarkup config language document) := by
  rw [read_listing]
  simp [surround, hnumbers, hinline, numberedMarkup]

theorem descendants_numbered :
    let code := codeElement config language document
    let gutter := gutterCell config document.length
    let numbers := column config document.length
    let pre := classed "pre" (.ofElement code)
    (numberedMarkup config language document).descendants =
      classed "table" (.ofElement (tableRow gutter pre)) :: tableRow gutter pre :: gutter ::
        ⟨"pre", [], numbers⟩ :: (numbers.descendants ++
          classed "td" (.ofElement pre) :: pre :: code :: code.body.descendants) := by
  intro code gutter numbers pre
  have hgutter : gutter.body.descendants = ⟨"pre", [], numbers⟩ :: numbers.descendants :=
    descendants_ofElement ⟨"pre", [], numbers⟩
  have hpre : pre.body.descendants = code :: code.body.descendants :=
    descendants_ofElement code
  have htable := descendants_inTable gutter pre
  rw [hgutter, hpre] at htable
  exact htable

theorem filter_isNumberCell :
    (numberedMarkup config language document).descendants.filter isNumberCell =
      [gutterCell config document.length] := by
  have hgutter : isNumberCell (gutterCell config document.length) = true := by
    simp [isNumberCell, gutterCell, Element.attribute?]
  have hpre : isNumberCell ⟨"pre", [], column config document.length⟩ = false :=
    isNumberCell_of_name_ne (by simp)
  have hcode : isNumberCell (codeElement config language document) = false :=
    isNumberCell_of_name_ne (by simp [codeElement])
  have hnumbers : (column config document.length).descendants.filter isNumberCell = [] := by
    rw [List.filter_eq_nil_iff]
    intro e he
    have hname : e.name = "a" := name_of_mem_numbers he
    simp [isNumberCell_of_name_ne, hname]
  have hspans : (codeElement config language document).body.descendants.filter isNumberCell =
      [] := by
    rw [List.filter_eq_nil_iff]
    intro e he
    have hname : e.name = "span" := mem_descendants_codeElement he
    simp [isNumberCell_of_name_ne, hname]
  rw [descendants_numbered]
  simp [tableRow, isNumberCell_classed, hgutter, hpre, hcode, hnumbers, hspans]

/-- The only identifiers of a numbered listing are those of its anchors. -/
theorem identifiers_numbered :
    identifiers (numberedMarkup config language document) =
      if config.lineAnchors then
        (List.range document.length).map fun i : Nat => (config.numberFrom + i).repr
      else [] := by
  have hgutter : (gutterCell config document.length).attribute? "id" = none := by
    simp [gutterCell, Element.attribute?]
  have hpre : Element.attribute? ⟨"pre", [], column config document.length⟩ "id" = none := rfl
  have hcode : (codeElement config language document).attribute? "id" = none := by
    simp [codeElement, Element.attribute?]
  have hspans : (codeElement config language document).body.descendants.filterMap
      (fun e => e.attribute? "id") = [] := by
    rw [List.filterMap_eq_nil_iff]
    intro e he
    rw [codeElement, descendants_lines, children_lines, List.mem_map] at he
    rcases he with ⟨token, _, rfl⟩
    exact identifier_spanOf config token
  have hanchor : ∀ n, (anchor n).attribute? "id" = some n.repr := by
    simp [anchor, Element.attribute?]
  have hnumbers : (column config document.length).descendants.filterMap
      (fun e => e.attribute? "id") =
        if config.lineAnchors then
          (List.range document.length).map fun i : Nat => (config.numberFrom + i).repr
        else [] := by
    rw [column, descendants_numbers]
    split
    · simp [List.filterMap_map, hanchor]
    · rfl
  rw [identifiers, descendants_numbered]
  simp [tableRow, identifier_classed, hgutter, hpre, hcode, hnumbers, hspans]

theorem nodup_identifiers : (identifiers (numberedMarkup config language document)).Nodup := by
  rw [identifiers_numbered]
  split
  · apply List.Nodup.map _ List.nodup_range
    intro i j h
    have hsum : config.numberFrom + (i : Int) = config.numberFrom + (j : Int) :=
      Int.repr_injective h
    omega
  · exact List.nodup_nil

/-! ## Reading the numbers -/

/-- Numbers in the cell of line numbers of a listing, provided that there is one such cell. -/
def gutterNumbers (text : List Char) : Option (List Int) :=
  match (Markup.read text).map fun markup => markup.descendants.filter isNumberCell with
  | some [cell] =>
      ((deleteTags cell.body.write).splitOn '\n').dropLast.mapM fun numeral =>
        (String.ofList numeral).toInt?
  | _ => none

theorem text_numberBefore (n : Int) (rest : Fragment) :
    (numberBefore config n rest).markup.text = n.repr.toList ++ ['\n'] ++ rest.markup.text := by
  have hend : escapeChars ['\n'] = ['\n'] := rfl
  unfold numberBefore
  split
  · simp only [Fragment.markup, Markup.text_element, Markup.text_chars, toList_escape_numeral]
    simp [Markup.text, Markup.parts, hend]
  · simp [Fragment.markup, Markup.text_chars, toList_escape_numeral, hend]

theorem deleteTags_gutterCell (count : Nat) :
    deleteTags (gutterCell config count).body.write =
      ((List.range count).map fun i : Nat => (config.numberFrom + i).repr.toList).flatMap
        fun numeral => numeral ++ ['\n'] := by
  have hproper : (gutterCell config count).body.Proper := Fragment.proper_markup _
  have hcell : (gutterCell config count).body.text =
      (numbers config config.numberFrom count).markup.text ++ [] :=
    Markup.text_element "pre" [] (column config count) .empty
  rw [deleteTags_write hproper, hcell, List.append_nil, List.flatMap_map]
  exact collect_numbers (fun fragment => fragment.markup.text) (fun n => n.repr.toList ++ ['\n'])
    rfl (text_numberBefore config) config.numberFrom count

theorem gutterNumbers_listing (hnumbers : config.numberLines = true)
    (hinline : config.inline = false) :
    gutterNumbers (listing config language document).toList =
      some ((List.range document.length).map fun i : Nat => config.numberFrom + i) := by
  have hended : ∀ numeral ∈ (List.range document.length).map fun i : Nat =>
      (config.numberFrom + i).repr.toList, '\n' ∉ numeral := by
    intro numeral hnumeral
    rcases List.mem_map.mp hnumeral with ⟨i, _, rfl⟩
    exact Numeral.not_mem_repr (by decide) (by decide) (config.numberFrom + i)
  have hread : ∀ i : Nat, (String.ofList (config.numberFrom + i).repr.toList).toInt? =
      some (config.numberFrom + i) := by
    intro i
    rw [String.ofList_toList, Int.toInt?_repr]
  rw [gutterNumbers, read_numbered config language document hnumbers hinline, Option.map_some,
    filter_isNumberCell]
  show ((deleteTags (gutterCell config document.length).body.write).splitOn '\n').dropLast.mapM _ =
    _
  rw [deleteTags_gutterCell, splitOn_flatMap_ended hended, List.dropLast_concat, List.mapM_map]
  simp only [Function.comp_def, hread]
  exact List.mapM_pure

end Numbered

/-!
## Lines and numbers side by side
-/

theorem zip_entries (config : Config) (start : Int) (document : Document) :
    (entries config start document.length ++ [[]]).zip (document.map (lineMarkup config)) =
      document.mapIdx fun i line => (entry config (start + i), lineMarkup config line) := by
  apply List.ext_getElem
  · simp [entries]
  · intro i hi _
    have hline : i < document.length := by
      simpa [entries] using hi
    have hentry : i < (entries config start document.length).length := by
      simpa [entries] using hline
    rw [List.getElem_zip, List.getElem_append_left hentry]
    simp [entries]

/--
A numbered listing has one cell of line numbers, with one ended entry for every line of the
document. The entries count from the first number on, and their anchors have different names. The
code stands in the other cell; unless a token text holds a line end, it has as many lines as there
are entries, and every line stands beside its number.
-/
theorem listing_numbered {config : Config} (hnumbers : config.numberLines = true)
    (hinline : config.inline = false) (language : String) (document : Document) :
    ∃ (markup numbers : Markup) (gutter code : Element),
      Markup.read (listing config language document).toList = some markup ∧
      markup.descendants.filter isNumberCell = [gutter] ∧
      gutter.body = .ofElement ⟨"pre", [], numbers⟩ ∧
      numbers.write.splitOn '\n' =
        ((List.range document.length).map fun i : Nat => entry config (config.numberFrom + i)) ++
          [[]] ∧
      identifiers markup =
        (if config.lineAnchors then
          (List.range document.length).map fun i : Nat => (config.numberFrom + i).repr
        else []) ∧
      (identifiers markup).Nodup ∧
      markup = inTable gutter (classed "pre" (.ofElement code)) ∧
      code.name = "code" ∧
      (document ≠ [] → document.LinesApart →
        code.body.write.splitOn '\n' = document.map (lineMarkup config) ∧
        (numbers.write.splitOn '\n').zip (code.body.write.splitOn '\n') =
          document.mapIdx fun i line =>
            (entry config (config.numberFrom + i), lineMarkup config line)) := by
  have hcolumn : (column config document.length).write.splitOn '\n' =
      entries config config.numberFrom document.length ++ [[]] := by
    rw [column, Fragment.write_markup, splitOn_render_numbers]
  refine ⟨numberedMarkup config language document, column config document.length,
    gutterCell config document.length, codeElement config language document,
    read_numbered config language document hnumbers hinline,
    filter_isNumberCell config language document, body_gutterCell config document.length, hcolumn,
    identifiers_numbered config language document, nodup_identifiers config language document,
    rfl, rfl, ?_⟩
  intro hne hlines
  have hcode : (codeElement config language document).body.write.splitOn '\n' =
      document.map (lineMarkup config) := by
    rw [codeElement, Fragment.write_markup, splitOn_render_lines config hne hlines]
  refine ⟨hcode, ?_⟩
  rw [hcolumn, hcode, zip_entries]

/-- Three lines that are numbered from minus one on, one of which looks like the end of a cell. -/
theorem listing_numbered_across_zero :
    ∃ markup numbers code : Markup,
      Markup.read (listing { numberLines := true, numberFrom := -1, lineAnchors := true } "c"
        [[⟨.keyword, "if"⟩], [⟨.normal, "</td>"⟩], []]).toList = some markup ∧
      identifiers markup = ["-1", "0", "1"] ∧
      (numbers.write.splitOn '\n').zip (code.write.splitOn '\n') =
        [("<a id=\"-1\">-1</a>".toList, "<span class=\"kw\">if</span>".toList),
          ("<a id=\"0\">0</a>".toList, "&lt;/td&gt;".toList),
          ("<a id=\"1\">1</a>".toList, [])] := by
  rcases @listing_numbered { numberLines := true, numberFrom := -1, lineAnchors := true } rfl rfl
    "c" [[⟨.keyword, "if"⟩], [⟨.normal, "</td>"⟩], []] with
    ⟨markup, numbers, _, code, hread, _, _, _, hidentifiers, _, _, _, hlines⟩
  refine ⟨markup, numbers, code.body, hread, ?_, ?_⟩
  · rw [hidentifiers]
    rfl
  · rw [(hlines (by decide) (by decide)).2]
    rfl

end Listing
end Html
end Highlighting
