import Highlighting.Proofs.Data.Lines
import Highlighting.Proofs.Html.Elements
import Highlighting.Proofs.Text.Deletion
import Highlighting.Token.Category

/-!
# Titles and anchors as decorations

Titles of categories and anchors of line numbers are deleted from the characters of markup wherever
they occur. A double quote stands in a tag only, and angle brackets stand around one, so that no text
between the tags and no attribute value looks like a title or an anchor: what is deleted are attributes
and tags of the markup.
-/

namespace Highlighting
namespace Html

open Deletion

/-! ## Titles and anchors in characters -/

def titleText (category : Category) : List Char :=
  writeAttribute ("title", category.title)

def IsTitleText (cs : List Char) : Prop :=
  ∃ category ∈ Category.all, cs = titleText category

instance : DecidablePred IsTitleText :=
  fun cs => inferInstanceAs (Decidable (∃ category ∈ Category.all, cs = titleText category))

def IsDigits (cs : List Char) : Prop :=
  cs ≠ [] ∧ ∀ c ∈ cs, c.isDigit = true

/-- Decimal digits, with a sign in front of them if they stand for a negative number. -/
def IsInteger (cs : List Char) : Prop :=
  IsDigits cs ∨ cs.head? = some '-' ∧ IsDigits cs.tail

instance : DecidablePred IsDigits :=
  fun cs => decidable_of_iff (cs ≠ [] ∧ cs.all Char.isDigit = true)
    (and_congr_right fun _ => List.all_eq_true)

instance : DecidablePred IsInteger :=
  fun cs => inferInstanceAs (Decidable (IsDigits cs ∨ cs.head? = some '-' ∧ IsDigits cs.tail))

def anchorHead : List Char :=
  ['<', 'a', ' ', 'i', 'd', '=', '"']

def anchorOpening (number : List Char) : List Char :=
  anchorHead ++ number ++ ['"', '>']

def anchorClosing : List Char :=
  ['<', '/', 'a', '>']

/-- Opening tags of anchors that are named for an integer, and closing tags of anchors. -/
def IsAnchorTag (cs : List Char) : Prop :=
  cs = anchorClosing ∨ ∃ number, IsInteger number ∧ cs = anchorOpening number

def anchorName (cs : List Char) : List Char :=
  (cs.drop anchorHead.length).dropLast.dropLast

theorem anchorName_anchorOpening (number : List Char) :
    anchorName (anchorOpening number) = number := by
  have hend : number ++ ['"', '>'] = number ++ ['"'] ++ ['>'] := by
    rw [List.append_assoc]
    rfl
  rw [anchorName, anchorOpening, List.append_assoc, List.drop_left, hend, List.dropLast_concat,
    List.dropLast_concat]

theorem isAnchorTag_iff (cs : List Char) :
    (cs = anchorClosing ∨ IsInteger (anchorName cs) ∧ cs = anchorOpening (anchorName cs)) ↔
      IsAnchorTag cs := by
  constructor
  · intro h
    exact h.imp_right fun hopening => ⟨anchorName cs, hopening⟩
  · intro h
    rcases h with hclosing | ⟨number, hnumber, hopening⟩
    · exact Or.inl hclosing
    · rw [hopening, anchorName_anchorOpening]
      exact Or.inr ⟨hnumber, rfl⟩

instance : DecidablePred IsAnchorTag :=
  fun cs => decidable_of_iff _ (isAnchorTag_iff cs)

/-! ## Places of titles -/

/-- Behind the quote that ends a value, a tag goes on with a space or ends. -/
def EndsValue (rest : List Char) : Prop :=
  rest.head? = some ' ' ∨ rest.head? = some '>'

theorem marked_titleText : Marked IsTitleText ' ' := by
  have hrest : ∀ category ∈ Category.all, ' ' ∉ (titleText category).tail := by
    decide
  intro word hword
  rcases hword with ⟨category, hmem, heq⟩
  rw [heq]
  exact ⟨(titleText category).tail, rfl, hrest category hmem⟩

theorem quote_not_mem_title : ∀ category ∈ Category.all, '"' ∉ category.title.toList := by
  decide

theorem not_endsValue_title {category : Category} (hmem : category ∈ Category.all)
    (rest : List Char) : ¬ EndsValue (category.title.toList ++ '"' :: rest) := by
  have hhead : ∀ category ∈ Category.all, ¬ ((category.title.toList ++ ['"']).head? = some ' ' ∨
      (category.title.toList ++ ['"']).head? = some '>') := by
    decide
  have hne : category.title.toList ++ ['"'] ≠ [] :=
    List.append_ne_nil_of_right_ne_nil _ (List.cons_ne_nil '"' [])
  rw [EndsValue, List.append_cons, List.head?_append_of_ne_nil _ hne]
  exact hhead category hmem

theorem writeAttribute_append (entry : String × String) (rest : List Char) :
    writeAttribute entry ++ rest =
      ' ' :: (entry.1.toList ++ '=' :: '"' :: (entry.2.toList ++ '"' :: rest)) := by
  simp [writeAttribute]

theorem titleText_append (category : Category) (rest : List Char) :
    titleText category ++ rest =
      ' ' :: ("title".toList ++ '=' :: '"' :: (category.title.toList ++ '"' :: rest)) :=
  writeAttribute_append _ rest

/-- No title begins within a value: its quote would end the value, and the tag does not go on so. -/
theorem not_isTitleText_of_value {value rest word : List Char} (hvalue : '"' ∉ value)
    (hrest : EndsValue rest) (hstart : word <+: ' ' :: (value ++ '"' :: rest)) :
    ¬ IsTitleText word := by
  intro hword
  rcases hword with ⟨category, hmem, heq⟩
  rcases hstart with ⟨behind, hbehind⟩
  rw [heq, titleText_append] at hbehind
  have hname : '"' ∉ "title".toList ++ ['='] := by
    decide
  have htext : ("title".toList ++ ['=']) ++ '"' :: (category.title.toList ++ '"' :: behind) =
      value ++ '"' :: rest := by
    rw [List.append_assoc]
    exact List.tail_eq_of_cons_eq hbehind
  rcases append_mark_inj hname hvalue htext with ⟨_, hsame⟩
  rw [← hsame] at hrest
  exact not_endsValue_title hmem behind hrest

/-- No title begins between the tags: there is no quote in front of the next angle bracket. -/
theorem not_isTitleText_of_char {rest word : List Char}
    (hrest : ∀ front, front <+: rest → '"' ∈ front → '<' ∈ front) (c : Char)
    (hstart : word <+: c :: rest) : ¬ IsTitleText word := by
  have hplain : ∀ category ∈ Category.all,
      '"' ∈ (titleText category).tail ∧ '<' ∉ (titleText category).tail := by
    decide
  intro hword
  rcases hword with ⟨category, hmem, heq⟩
  rw [heq] at hstart
  have htail : (titleText category).tail <+: rest := (List.cons_prefix_cons.mp hstart).2
  exact (hplain category hmem).2 (hrest _ htail (hplain category hmem).1)

theorem IsName.not_mem {name : String} (h : IsName name) {c : Char} (hc : c.isLower = false) :
    c ∉ name.toList := by
  intro hmem
  rw [h.2 c hmem] at hc
  cases hc

theorem eq_of_isTitleText {entry : String × String} {rest word : List Char}
    (hname : IsName entry.1) (hvalue : IsValue entry.2)
    (hstart : word <+: writeAttribute entry ++ rest) (hword : IsTitleText word) :
    word = writeAttribute entry := by
  rcases hword with ⟨category, hmem, heq⟩
  rcases hstart with ⟨behind, hbehind⟩
  have hquote : '"' ∉ entry.2.toList := fun hmem => (hvalue '"' hmem).1 rfl
  rw [heq, titleText_append, writeAttribute_append] at hbehind
  rcases append_mark_inj (show '=' ∉ "title".toList by decide) (hname.not_mem (by decide))
    (List.tail_eq_of_cons_eq hbehind) with ⟨hkey, hrest⟩
  rcases append_mark_inj (quote_not_mem_title category hmem) hquote
    (List.tail_eq_of_cons_eq hrest) with ⟨htitle, _⟩
  rw [heq, titleText, writeAttribute, writeAttribute, htitle, hkey]

/-! ## Cutting out titles -/

section Titles

variable {rest kept : List Char} {words : List (List Char)}

theorem cut_value {value : List Char} (hvalue : '"' ∉ value) (hrest : EndsValue rest)
    (h : Cut IsTitleText rest kept words) :
    Cut IsTitleText (value ++ '"' :: rest) (value ++ '"' :: kept) words := by
  induction value with
  | nil =>
      exact Cut.cons_of_ne marked_titleText (by decide) h
  | cons c value ih =>
      rw [List.mem_cons, not_or] at hvalue
      have hbehind := ih hvalue.2
      by_cases hc : c = ' '
      · apply Cut.keep _ hbehind
        rw [hc]
        exact wordsAt_eq_nil_iff.mpr fun word => not_isTitleText_of_value hvalue.2 hrest
      · exact Cut.cons_of_ne marked_titleText hc hbehind

theorem cut_plain_attribute {entry : String × String} (hname : IsName entry.1)
    (hvalue : IsValue entry.2) (hplain : ¬ IsTitleText (writeAttribute entry))
    (hrest : EndsValue rest) (h : Cut IsTitleText rest kept words) :
    Cut IsTitleText (writeAttribute entry ++ rest) (writeAttribute entry ++ kept) words := by
  have hspace : ' ' ∉ entry.1.toList := hname.not_mem (by decide)
  have hquote : '"' ∉ entry.2.toList := fun hmem => (hvalue '"' hmem).1 rfl
  have hfirst : wordsAt IsTitleText (writeAttribute entry ++ rest) = [] := by
    rw [wordsAt_eq_nil_iff]
    intro word hstart hword
    exact hplain (eq_of_isTitleText hname hvalue hstart hword ▸ hword)
  have hbehind := cut_value hquote hrest h
  have hopening := Cut.cons_of_ne marked_titleText (show '"' ≠ ' ' by decide) hbehind
  have hequals := Cut.cons_of_ne marked_titleText (show '=' ≠ ' ' by decide) hopening
  have hkey := Cut.append_of_not_mem marked_titleText hspace hequals
  rw [writeAttribute_append] at hfirst
  rw [writeAttribute_append, writeAttribute_append]
  exact Cut.keep hfirst hkey

def plainAttributes (attributes : List (String × String)) : List (String × String) :=
  attributes.filter fun entry => ¬ IsTitleText (writeAttribute entry)

def titleTexts (attributes : List (String × String)) : List (List Char) :=
  (attributes.map writeAttribute).filter fun cs => IsTitleText cs

theorem endsValue_attributes {attributes : List (String × String)} (hrest : EndsValue rest) :
    EndsValue (attributes.flatMap writeAttribute ++ rest) := by
  cases attributes with
  | nil =>
      exact hrest
  | cons entry attributes =>
      exact Or.inl rfl

theorem cut_attributes {attributes : List (String × String)}
    (hproper : ∀ entry ∈ attributes, IsName entry.1 ∧ IsValue entry.2) (hrest : EndsValue rest)
    (h : Cut IsTitleText rest kept words) :
    Cut IsTitleText (attributes.flatMap writeAttribute ++ rest)
      ((plainAttributes attributes).flatMap writeAttribute ++ kept)
      (titleTexts attributes ++ words) := by
  induction attributes with
  | nil =>
      exact h
  | cons entry attributes ih =>
      rcases hproper entry List.mem_cons_self with ⟨hname, hvalue⟩
      have hbehind := ih fun other hother => hproper other (List.mem_cons_of_mem entry hother)
      rw [List.flatMap_cons, List.append_assoc]
      by_cases htitle : IsTitleText (writeAttribute entry)
      · have hkept : plainAttributes (entry :: attributes) = plainAttributes attributes :=
          List.filter_cons_of_neg (by simpa using htitle)
        have hcut : titleTexts (entry :: attributes) =
            writeAttribute entry :: titleTexts attributes :=
          List.filter_cons_of_pos (by simpa using htitle)
        rw [hkept, hcut, List.cons_append]
        exact Cut.append_word marked_titleText htitle
          (fun other => eq_of_isTitleText hname hvalue) hbehind
      · have hkept : plainAttributes (entry :: attributes) = entry :: plainAttributes attributes :=
          List.filter_cons_of_pos (by simpa using htitle)
        have hcut : titleTexts (entry :: attributes) = titleTexts attributes :=
          List.filter_cons_of_neg (by simpa using htitle)
        rw [hkept, hcut, List.flatMap_cons, List.append_assoc]
        exact cut_plain_attribute hname hvalue htitle (endsValue_attributes hrest) hbehind

end Titles

namespace Part

def untitled : Part → Part
  | .char c => .char c
  | .opening name attributes => .opening name (plainAttributes attributes)
  | .closing name => .closing name

def titles : Part → List (List Char)
  | .char _ => []
  | .opening _ attributes => titleTexts attributes
  | .closing _ => []

def Quoted (part : Part) : Prop :=
  part.Proper ∧ part ≠ .char '"'

theorem angle_mem_of_front {parts : List Part} (h : ∀ part ∈ parts, part.Quoted) :
    ∀ front, front <+: parts.flatMap write → '"' ∈ front → '<' ∈ front := by
  induction parts with
  | nil =>
      intro front hfront hquote
      rw [List.flatMap_nil, List.prefix_nil] at hfront
      rw [hfront] at hquote
      cases hquote
  | cons part parts ih =>
      intro front hfront hquote
      have hrest := ih fun other hother => h other (List.mem_cons_of_mem part hother)
      cases front with
      | nil =>
          cases hquote
      | cons d front =>
          cases part with
          | char c =>
              have hne : c ≠ '"' := fun heq => (h _ List.mem_cons_self).2 (by rw [heq])
              rcases List.cons_prefix_cons.mp hfront with ⟨hd, hbehind⟩
              rcases List.mem_cons.mp hquote with heq | hquote
              · exact absurd (heq.trans hd).symm hne
              · exact List.mem_cons_of_mem d (hrest front hbehind hquote)
          | opening name attributes =>
              rw [(List.cons_prefix_cons.mp hfront).1]
              exact List.mem_cons_self
          | closing name =>
              rw [(List.cons_prefix_cons.mp hfront).1]
              exact List.mem_cons_self

theorem cut_titles {parts : List Part} (h : ∀ part ∈ parts, part.Quoted) :
    Cut IsTitleText (parts.flatMap write) ((parts.map untitled).flatMap write)
      (parts.flatMap titles) := by
  induction parts with
  | nil =>
      exact .nil
  | cons part parts ih =>
      have hrest : ∀ other ∈ parts, other.Quoted :=
        fun other hother => h other (List.mem_cons_of_mem part hother)
      have hproper := (h part List.mem_cons_self).1
      have hparts := ih hrest
      have hspace : ∀ {name : String}, IsName name → ' ' ∉ name.toList :=
        fun hname => hname.not_mem (by decide)
      rw [List.flatMap_cons, List.map_cons, List.flatMap_cons, List.flatMap_cons]
      cases part with
      | char c =>
          apply Cut.keep _ hparts
          exact wordsAt_eq_nil_iff.mpr fun word =>
            not_isTitleText_of_char (angle_mem_of_front hrest) c
      | opening name attributes =>
          have hend := Cut.cons_of_ne marked_titleText (show '>' ≠ ' ' by decide) hparts
          have hattributes := cut_attributes hproper.2 (Or.inr rfl) hend
          have hname := Cut.append_of_not_mem marked_titleText (hspace hproper.1) hattributes
          have htag := Cut.cons_of_ne marked_titleText (show '<' ≠ ' ' by decide) hname
          simpa [write, untitled, titles] using htag
      | closing name =>
          have hend := Cut.cons_of_ne marked_titleText (show '>' ≠ ' ' by decide) hparts
          have hname := Cut.append_of_not_mem marked_titleText (hspace hproper) hend
          have hslash := Cut.cons_of_ne marked_titleText (show '/' ≠ ' ' by decide) hname
          have htag := Cut.cons_of_ne marked_titleText (show '<' ≠ ' ' by decide) hslash
          simpa [write, untitled, titles] using htag

end Part

/-! ## Cutting out anchors -/

theorem digit_ne_angle {c : Char} (h : c = '-' ∨ c.isDigit = true) : c ≠ '<' ∧ c ≠ '>' := by
  constructor
  · intro heq
    rw [heq] at h
    exact absurd h (by decide)
  · intro heq
    rw [heq] at h
    exact absurd h (by decide)

theorem mem_of_isInteger {number : List Char} (h : IsInteger number) {c : Char} (hc : c ∈ number) :
    c = '-' ∨ c.isDigit = true := by
  rcases h with hdigits | ⟨hsign, hdigits⟩
  · exact Or.inr (hdigits.2 c hc)
  · rcases List.head?_eq_some_iff.mp hsign with ⟨digits, heq⟩
    rw [heq] at hc hdigits
    rcases List.mem_cons.mp hc with heq | hmem
    · exact Or.inl heq
    · exact Or.inr (hdigits.2 c hmem)

def IsTag (cs : List Char) : Prop :=
  ∃ inner, cs = '<' :: (inner ++ ['>']) ∧ ∀ c ∈ inner, c ≠ '<' ∧ c ≠ '>'

theorem isTag_of_isAnchorTag {word : List Char} (h : IsAnchorTag word) : IsTag word := by
  rcases h with heq | ⟨number, hnumber, heq⟩
  · exact ⟨['/', 'a'], heq, by simp⟩
  · refine ⟨anchorHead.tail ++ number ++ ['"'], ?_, ?_⟩
    · rw [heq, anchorOpening]
      simp [anchorHead]
    · have hhead : ∀ c ∈ anchorHead.tail ++ ['"'], c ≠ '<' ∧ c ≠ '>' := by
        simp [anchorHead]
      intro c hc
      rw [List.mem_append, List.mem_append] at hc
      rcases hc with (hc | hc) | hc
      · exact hhead c (List.mem_append_left _ hc)
      · exact digit_ne_angle (mem_of_isInteger hnumber hc)
      · exact hhead c (List.mem_append_right _ hc)

theorem IsTag.exists_rest {tag : List Char} (h : IsTag tag) :
    ∃ rest, tag = '<' :: rest ∧ '<' ∉ rest := by
  rcases h with ⟨inner, heq, hinner⟩
  refine ⟨inner ++ ['>'], heq, ?_⟩
  intro hmem
  rcases List.mem_append.mp hmem with hmem | hmem
  · exact (hinner '<' hmem).1 rfl
  · exact absurd hmem (by decide)

theorem marked_anchorTag : Marked IsAnchorTag '<' :=
  fun _ hword => (isTag_of_isAnchorTag hword).exists_rest

theorem eq_of_isTag {word tag rest : List Char} (hword : IsTag word) (htag : IsTag tag)
    (hstart : word <+: tag ++ rest) : word = tag := by
  rcases hword with ⟨a, hword, ha⟩
  rcases htag with ⟨b, htag, hb⟩
  rcases hstart with ⟨behind, hbehind⟩
  have hnot : ∀ {inner : List Char}, (∀ c ∈ inner, c ≠ '<' ∧ c ≠ '>') → '>' ∉ inner :=
    fun h hmem => (h '>' hmem).2 rfl
  rw [hword, htag] at hbehind ⊢
  have htail : a ++ '>' :: behind = b ++ '>' :: rest := by
    simpa using hbehind
  rw [(append_mark_inj (hnot ha) (hnot hb) htail).1]

namespace Part

theorem isTag_opening {name : String} {attributes : List (String × String)}
    (h : (Part.opening name attributes).Proper) : IsTag (Part.opening name attributes).write := by
  refine ⟨name.toList ++ attributes.flatMap writeAttribute, rfl, ?_⟩
  intro c hc
  rcases List.mem_append.mp hc with hc | hc
  · exact lower_ne_angle (h.1.2 c hc)
  · exact writeAttributes_ne_angle h.2 c hc

theorem isTag_closing {name : String} (h : (Part.closing name).Proper) :
    IsTag (Part.closing name).write := by
  refine ⟨'/' :: name.toList, rfl, ?_⟩
  intro c hc
  rcases List.mem_cons.mp hc with heq | hc
  · rw [heq]
    decide
  · exact lower_ne_angle (h.2 c hc)

def IsAnchor (part : Part) : Prop :=
  IsAnchorTag part.write

instance : DecidablePred IsAnchor :=
  fun part => inferInstanceAs (Decidable (IsAnchorTag part.write))

theorem cut_other_tag {tag rest kept : List Char} {words : List (List Char)} (htag : IsTag tag)
    (hother : ¬ IsAnchorTag tag) (h : Cut IsAnchorTag rest kept words) :
    Cut IsAnchorTag (tag ++ rest) (tag ++ kept) words := by
  have hfirst : wordsAt IsAnchorTag (tag ++ rest) = [] := by
    rw [wordsAt_eq_nil_iff]
    intro word hstart hword
    exact hother (eq_of_isTag (isTag_of_isAnchorTag hword) htag hstart ▸ hword)
  rcases htag.exists_rest with ⟨inner, heq, hangle⟩
  rw [heq] at hfirst ⊢
  exact Cut.keep hfirst (Cut.append_of_not_mem marked_anchorTag hangle h)

theorem isTag_or_char {part : Part} (h : part.Proper) :
    IsTag part.write ∨ ∃ c, part = .char c ∧ c ≠ '<' := by
  cases part with
  | char c =>
      exact Or.inr ⟨c, rfl, h.1⟩
  | opening name attributes =>
      exact Or.inl (isTag_opening h)
  | closing name =>
      exact Or.inl (isTag_closing h)

theorem cut_anchors {parts : List Part} (h : ∀ part ∈ parts, part.Proper) :
    Cut IsAnchorTag (parts.flatMap write) ((parts.filter fun part => ¬ part.IsAnchor).flatMap write)
      ((parts.filter fun part => part.IsAnchor).map write) := by
  induction parts with
  | nil =>
      exact .nil
  | cons part parts ih =>
      have hparts := ih fun other hother => h other (List.mem_cons_of_mem part hother)
      rw [List.flatMap_cons]
      by_cases hanchor : part.IsAnchor
      · rw [List.filter_cons_of_neg (by simpa using hanchor),
          List.filter_cons_of_pos (by simpa using hanchor), List.map_cons]
        have htag : IsTag part.write := isTag_of_isAnchorTag hanchor
        exact Cut.append_word marked_anchorTag hanchor
          (fun other hstart hother => eq_of_isTag (isTag_of_isAnchorTag hother) htag hstart) hparts
      · rw [List.filter_cons_of_pos (by simpa using hanchor),
          List.filter_cons_of_neg (by simpa using hanchor), List.flatMap_cons]
        rcases isTag_or_char (h part List.mem_cons_self) with htag | ⟨c, hpart, hc⟩
        · exact cut_other_tag htag hanchor hparts
        · rw [hpart]
          exact Cut.cons_of_ne marked_anchorTag hc hparts

end Part

/-! ## Parts without decorations -/

theorem IsName.exists_cons {name : String} (h : IsName name) :
    ∃ c cs, name.toList = c :: cs ∧ c.isLower = true := by
  cases hname : name.toList with
  | nil =>
      exact absurd (String.toList_eq_nil_iff.mp hname) h.1
  | cons c cs =>
      exact ⟨c, cs, rfl, h.2 c (by rw [hname]; exact List.mem_cons_self)⟩

theorem not_isTitleText_of_head {name : String} (hname : IsName name)
    (h : name.toList.head? ≠ some 't') (value : String) :
    ¬ IsTitleText (writeAttribute (name, value)) := by
  intro htitle
  rcases htitle with ⟨category, _, heq⟩
  rcases hname.exists_cons with ⟨c, cs, hchars, _⟩
  have htext := writeAttribute_append (name, value) []
  rw [heq, titleText_append, hchars] at htext
  rw [hchars, List.head?_cons] at h
  exact h (congrArg some (List.cons.inj (List.cons.inj htext).2).1.symm)

/-- Whether a tag opens an anchor shows in the first character of its name. -/
theorem Part.not_isAnchor_of_head {name : String} (hname : IsName name)
    (h : name.toList.head? ≠ some 'a') (attributes : List (String × String)) :
    ¬ (Part.opening name attributes).IsAnchor := by
  intro hanchor
  rcases hname.exists_cons with ⟨c, cs, hchars, hlower⟩
  have hsecond : (Part.opening name attributes).write[1]? = name.toList.head? := by
    rw [Part.write, hchars]
    rfl
  rcases hanchor with heq | ⟨number, _, heq⟩
  · have hclosing : anchorClosing[1]? = some '/' := rfl
    rw [heq, hclosing, hchars, List.head?_cons] at hsecond
    rw [← Option.some.inj hsecond] at hlower
    exact absurd hlower (by decide)
  · have hopening : (anchorOpening number)[1]? = some 'a' := rfl
    rw [heq, hopening] at hsecond
    exact h hsecond.symm

/-- Parts that are no decorations and have none. -/
structure Part.Inert (part : Part) : Prop where
  untitled : part.untitled = part
  titles : part.titles = []
  anchor : ¬ part.IsAnchor

namespace Part

variable {parts : List Part}

theorem map_untitled (h : ∀ part ∈ parts, part.Inert) : parts.map untitled = parts := by
  have hself : ∀ part ∈ parts, part.untitled = id part := fun part hpart => (h part hpart).untitled
  rw [List.map_congr_left hself, List.map_id]

theorem flatMap_titles (h : ∀ part ∈ parts, part.Inert) : parts.flatMap titles = [] :=
  List.flatMap_eq_nil_iff.mpr fun part hpart => (h part hpart).titles

theorem filter_others (h : ∀ part ∈ parts, part.Inert) :
    parts.filter (fun part => ¬ part.IsAnchor) = parts :=
  List.filter_eq_self.mpr fun part hpart => decide_eq_true (h part hpart).anchor

theorem filter_anchors (h : ∀ part ∈ parts, part.Inert) :
    parts.filter (fun part => part.IsAnchor) = [] :=
  List.filter_eq_nil_iff.mpr fun part hpart => by simpa using (h part hpart).anchor

theorem inert_opening {name : String} {attributes : List (String × String)} (hname : IsName name)
    (h : name.toList.head? ≠ some 'a')
    (hattributes : ∀ entry ∈ attributes, ¬ IsTitleText (writeAttribute entry)) :
    (Part.opening name attributes).Inert where
  untitled := by
    have hplain : plainAttributes attributes = attributes := by
      rw [plainAttributes, List.filter_eq_self]
      intro entry hentry
      exact decide_eq_true (hattributes entry hentry)
    rw [Part.untitled, hplain]
  titles := by
    rw [Part.titles, titleTexts, List.filter_eq_nil_iff]
    intro cs hcs htitle
    rcases List.mem_map.mp hcs with ⟨entry, hentry, heq⟩
    rw [← heq, decide_eq_true_iff] at htitle
    exact hattributes entry hentry htitle
  anchor := not_isAnchor_of_head hname h attributes

theorem inert_closing {name : String} (h : ¬ (Part.closing name).IsAnchor) :
    (Part.closing name).Inert where
  untitled := rfl
  titles := rfl
  anchor := h

theorem inert_class {name : String} (hname : IsName name) (h : name.toList.head? ≠ some 'a')
    (value : String) : (Part.opening name [("class", value)]).Inert := by
  apply inert_opening hname h
  intro entry hentry
  rw [List.mem_singleton.mp hentry]
  exact not_isTitleText_of_head (by decide) (by decide) value

theorem not_isAnchor_char (c : Char) : ¬ (Part.char c).IsAnchor := by
  intro h
  rcases h with heq | ⟨number, _, heq⟩
  · cases heq
  · cases heq

theorem inert_chars (cs : List Char) : ∀ part ∈ cs.map Part.char, part.Inert := by
  intro part hpart
  rcases List.mem_map.mp hpart with ⟨c, _, heq⟩
  rw [← heq]
  exact ⟨rfl, rfl, not_isAnchor_char c⟩

end Part

/-! ## Fragments -/

theorem quoted_markup (fragment : Fragment) : ∀ part ∈ fragment.markup.parts, part.Quoted := by
  have hchars : ∀ part ∈ fragment.markup.parts, part ≠ .char '"' := by
    induction fragment with
    | empty =>
        intro part hpart
        cases hpart
    | text content rest ih =>
        intro part hpart
        rw [Fragment.markup, Markup.parts_chars, List.mem_append, List.mem_map] at hpart
        rcases hpart with ⟨c, hc, heq⟩ | hpart
        · rw [← heq]
          intro hquote
          exact (mem_escapeChars hc).2.2.1 (Part.char.inj hquote)
        · exact ih part hpart
    | element tag attributes body rest ihBody ihRest =>
        intro part hpart
        simp only [Fragment.markup, Markup.parts, List.mem_cons, List.mem_append] at hpart
        rcases hpart with heq | hpart | heq | hpart
        · rw [heq]
          exact Part.noConfusion
        · exact ihBody part hpart
        · rw [heq]
          exact Part.noConfusion
        · exact ihRest part hpart
  exact fun part hpart => ⟨Fragment.proper_markup fragment part hpart, hchars part hpart⟩

end Html
end Highlighting
