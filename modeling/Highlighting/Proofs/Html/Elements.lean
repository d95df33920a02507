import Highlighting.Html.Fragment
import Highlighting.Proofs.Html.Entity
import Highlighting.Proofs.Html.Markup

/-!
# Elements of markup

The elements of a forest and the text without its tags. Whatever is rendered from a fragment can be
read, and the forest that is read has the elements of the fragment, with texts and values still
encoded.
-/

namespace Highlighting
namespace Html

structure Element where
  name : String
  attributes : List (String × String)
  body : Markup
  deriving DecidableEq, Repr

def Element.attribute? (e : Element) (field : String) : Option String :=
  e.attributes.lookup field

namespace Markup

def cons (e : Element) (rest : Markup) : Markup :=
  .element e.name e.attributes e.body rest

def ofElement (e : Element) : Markup :=
  cons e .empty

def chars (cs : List Char) (rest : Markup) : Markup :=
  cs.foldr .char rest

/-- Elements of a forest that lie in no other element, from left to right. -/
def children : Markup → List Element
  | .empty => []
  | .char _ rest => rest.children
  | .element name attributes body rest => ⟨name, attributes, body⟩ :: rest.children

/-- All elements of a forest in the order of their opening tags. -/
def descendants : Markup → List Element
  | .empty => []
  | .char _ rest => rest.descendants
  | .element name attributes body rest =>
      ⟨name, attributes, body⟩ :: (body.descendants ++ rest.descendants)

end Markup

/-- Characters outside of angle brackets, from a point inside or outside of them. -/
def deleteTagsFrom : Bool → List Char → List Char
  | _, [] => []
  | inside, c :: cs =>
      if c = '<' then deleteTagsFrom true cs
      else if c = '>' then deleteTagsFrom false cs
      else if inside then deleteTagsFrom true cs
      else c :: deleteTagsFrom false cs

def deleteTags (cs : List Char) : List Char :=
  deleteTagsFrom false cs

/-! ## Forests -/

namespace Markup

theorem parts_chars (cs : List Char) (rest : Markup) :
    (chars cs rest).parts = cs.map Part.char ++ rest.parts := by
  induction cs with
  | nil =>
      rfl
  | cons c cs ih =>
      have hcons : chars (c :: cs) rest = .char c (chars cs rest) := rfl
      rw [hcons, parts, ih, List.map_cons, List.cons_append]

theorem children_chars (cs : List Char) (rest : Markup) :
    (chars cs rest).children = rest.children := by
  induction cs with
  | nil =>
      rfl
  | cons c cs ih =>
      exact ih

theorem descendants_chars (cs : List Char) (rest : Markup) :
    (chars cs rest).descendants = rest.descendants := by
  induction cs with
  | nil =>
      rfl
  | cons c cs ih =>
      exact ih

theorem descendants_eq_children {markup : Markup}
    (h : ∀ e ∈ markup.children, e.body.descendants = []) :
    markup.descendants = markup.children := by
  induction markup with
  | empty =>
      rfl
  | char c rest ih =>
      exact ih h
  | element name attributes body rest _ ih =>
      have hbody : body.descendants = [] := h ⟨name, attributes, body⟩ List.mem_cons_self
      have hrest := ih fun e he => h e (List.mem_cons_of_mem _ he)
      simp [descendants, children, hbody, hrest]

end Markup

/-!
## Deleting tags

Inside of a proper tag there are no angle brackets, so that dropping everything between two of them
drops exactly the tags.
-/

theorem deleteTagsFrom_inside {cs : List Char} (h : ∀ c ∈ cs, c ≠ '<' ∧ c ≠ '>')
    (rest : List Char) : deleteTagsFrom true (cs ++ rest) = deleteTagsFrom true rest := by
  induction cs with
  | nil =>
      rfl
  | cons c cs ih =>
      have hc := h c List.mem_cons_self
      have hcs := ih fun d hd => h d (List.mem_cons_of_mem c hd)
      simp [deleteTagsFrom, hc.1, hc.2, hcs]

theorem lower_ne_angle {c : Char} (h : c.isLower = true) : c ≠ '<' ∧ c ≠ '>' := by
  constructor
  · intro h
    rcases h with rfl
    exact absurd h (by decide)
  · intro h
    rcases h with rfl
    exact absurd h (by decide)

theorem writeAttributes_ne_angle {attributes : List (String × String)}
    (h : ∀ entry ∈ attributes, IsName entry.1 ∧ IsValue entry.2) :
    ∀ c ∈ attributes.flatMap writeAttribute, c ≠ '<' ∧ c ≠ '>' := by
  intro c hc
  rcases List.mem_flatMap.mp hc with ⟨entry, hentry, hc⟩
  rcases h entry hentry with ⟨hname, hvalue⟩
  simp only [writeAttribute, List.mem_cons, List.mem_append, List.not_mem_nil, or_false] at hc
  rcases hc with rfl | hc | rfl | rfl | hc | rfl
  · decide
  · exact lower_ne_angle (hname.2 c hc)
  · decide
  · decide
  · exact (hvalue c hc).2
  · decide

def Part.text : Part → List Char
  | .char c => [c]
  | _ => []

theorem deleteTags_write_append {part : Part} (h : part.Proper) (rest : List Char) :
    deleteTags (part.write ++ rest) = part.text ++ deleteTags rest := by
  cases part with
  | char c =>
      simp [deleteTags, deleteTagsFrom, Part.write, Part.text, h.1, h.2]
  | opening name attributes =>
      have hinside : ∀ c ∈ name.toList ++ attributes.flatMap writeAttribute, c ≠ '<' ∧ c ≠ '>' := by
        intro c hc
        rcases List.mem_append.mp hc with hc | hc
        · exact lower_ne_angle (h.1.2 c hc)
        · exact writeAttributes_ne_angle h.2 c hc
      have hskip := deleteTagsFrom_inside hinside ('>' :: rest)
      simpa [deleteTags, deleteTagsFrom, Part.write, Part.text] using hskip
  | closing name =>
      have hskip := deleteTagsFrom_inside (fun c hc => lower_ne_angle (h.2 c hc)) ('>' :: rest)
      simpa [deleteTags, deleteTagsFrom, Part.write, Part.text] using hskip

def Markup.text (markup : Markup) : List Char :=
  markup.parts.flatMap Part.text

theorem deleteTags_flatMap_write {parts : List Part} (h : ∀ part ∈ parts, part.Proper) :
    deleteTags (parts.flatMap Part.write) = parts.flatMap Part.text := by
  induction parts with
  | nil =>
      rfl
  | cons part parts ih =>
      have hparts := ih fun other hother => h other (List.mem_cons_of_mem part hother)
      rw [List.flatMap_cons, deleteTags_write_append (h part List.mem_cons_self), hparts,
        List.flatMap_cons]

theorem deleteTags_write {markup : Markup} (h : markup.Proper) :
    deleteTags markup.write = markup.text :=
  deleteTags_flatMap_write h

theorem Markup.text_chars (cs : List Char) (rest : Markup) :
    (Markup.chars cs rest).text = cs ++ rest.text := by
  simp [Markup.text, Markup.parts_chars, List.flatMap_map, Part.text]

theorem Markup.text_element (name : String) (attributes : List (String × String))
    (body rest : Markup) :
    (Markup.element name attributes body rest).text = body.text ++ rest.text := by
  simp [Markup.text, Markup.parts, Part.text]

/-! ## Fragments -/

namespace Fragment

def markup : Fragment → Markup
  | .empty => .empty
  | .text content rest => .chars (escapeChars content.toList) rest.markup
  | .element tag attributes body rest =>
      .element tag.name (attributes.map fun a => (a.name, escape a.value)) body.markup rest.markup

theorem write_markup (fragment : Fragment) : fragment.markup.write = fragment.render := by
  induction fragment with
  | empty =>
      rfl
  | text content rest ih =>
      simp only [markup, render, Markup.write, Markup.parts_chars, List.flatMap_append,
        List.flatMap_map] at ih ⊢
      rw [ih]
      simp [Part.write]
  | element tag attributes body rest ihBody ihRest =>
      have hrender : ∀ a : Attribute, writeAttribute (a.name, escape a.value) = a.render := by
        intro a
        simp [writeAttribute, Attribute.render, escape]
      have hattributes : (attributes.map fun a => (a.name, escape a.value)).flatMap writeAttribute =
          attributes.flatMap Attribute.render := by
        simp [List.flatMap_map, hrender]
      simp only [Markup.write] at ihBody ihRest
      simp [markup, render, Markup.write, Markup.parts, Part.write, openTag, closeTag, ihBody,
        ihRest, hattributes]

theorem isName_tag (tag : Tag) : IsName tag.name := by
  cases tag <;> decide

theorem isName_attribute (a : Attribute) : IsName a.name := by
  cases a with
  | classes value =>
      show IsName "class"
      decide
  | title value =>
      show IsName "title"
      decide
  | onclick value =>
      show IsName "onclick"
      decide
  | identifier value =>
      show IsName "id"
      decide

theorem isValue_escape (value : String) : IsValue (escape value) := by
  intro c hc
  rw [escape, String.toList_ofList] at hc
  rcases mem_escapeChars hc with ⟨hlt, hgt, hquote, _⟩
  exact ⟨hquote, hlt, hgt⟩

theorem proper_markup (fragment : Fragment) : fragment.markup.Proper := by
  induction fragment with
  | empty =>
      intro part hpart
      cases hpart
  | text content rest ih =>
      intro part hpart
      rw [markup, Markup.parts_chars, List.mem_append, List.mem_map] at hpart
      rcases hpart with ⟨c, hc, rfl⟩ | hpart
      · rcases mem_escapeChars hc with ⟨hlt, hgt, _, _⟩
        exact ⟨hlt, hgt⟩
      · exact ih part hpart
  | element tag attributes body rest ihBody ihRest =>
      intro part hpart
      simp only [markup, Markup.parts, List.mem_cons, List.mem_append] at hpart
      rcases hpart with rfl | hpart | rfl | hpart
      · refine ⟨isName_tag tag, ?_⟩
        intro entry hentry
        rcases List.mem_map.mp hentry with ⟨a, _, rfl⟩
        exact ⟨isName_attribute a, isValue_escape a.value⟩
      · exact ihBody part hpart
      · exact isName_tag tag
      · exact ihRest part hpart

theorem read_render (fragment : Fragment) : Markup.read fragment.render = some fragment.markup :=
  Markup.read_eq_some_iff.mpr ⟨write_markup fragment, proper_markup fragment⟩

theorem mem_descendants_markup {fragment : Fragment} {e : Element}
    (h : e ∈ fragment.markup.descendants) :
    (∃ tag : Tag, e.name = tag.name) ∧ ∀ entry ∈ e.attributes, IsValue entry.2 := by
  induction fragment with
  | empty =>
      cases h
  | text content rest ih =>
      rw [markup, Markup.descendants_chars] at h
      exact ih h
  | element tag attributes body rest ihBody ihRest =>
      simp only [markup, Markup.descendants, List.mem_cons, List.mem_append] at h
      rcases h with rfl | h | h
      · refine ⟨⟨tag, rfl⟩, ?_⟩
        intro entry hentry
        rcases List.mem_map.mp hentry with ⟨a, _, rfl⟩
        exact isValue_escape a.value
      · exact ihBody h
      · exact ihRest h

end Fragment

end Html
end Highlighting
