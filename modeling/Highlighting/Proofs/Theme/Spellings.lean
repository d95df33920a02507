import Highlighting.Proofs.Json.Fields
import Highlighting.Proofs.Theme.Defects
import Highlighting.Theme.Json

/-!
# Two spellings of the styles

A theme file writes the styles as a list of pairs, or as an object whose names are the titles of the
categories. Where the list is accepted, an object with the same entries in the same order is
accepted as well, and describes the same theme. An object that repeats a title has lost all but the
last of its styles before anything is checked, whereas all pairs of a list are checked before the
last style of a category replaces the others; the titles name the categories one to one, so that
both ways keep the same styles in the same places.
-/

namespace Highlighting
namespace Theme

/-! ## Entries -/

def pairValue (entry : String × Value) : Value :=
  .list [.text entry.1, entry.2]

theorem title_of_describesEntry {entry : String × Value} {described : Category × Style}
    (h : DescribesEntry (pairValue entry) described) : entry.1 = described.1.title := by
  rcases h with ⟨fields, hitem, _⟩
  rw [pairValue, Value.list.injEq, List.cons.injEq] at hitem
  exact Value.text.inj hitem.1

theorem respectsKeys_describesEntry :
    Assoc.RespectsKeys fun entry described => DescribesEntry (pairValue entry) described := by
  intro first described second described' h h'
  rw [title_of_describesEntry h, title_of_describesEntry h']
  constructor
  · intro htitle
    exact Category.title_injective htitle
  · intro hcategory
    rw [hcategory]

/-- An object has the entries that are left of a list of pairs, and so the same table. -/
theorem describesEntries_object {entries : List (String × Value)}
    {given : List (Category × Style)}
    (h : List.Forall₂ DescribesEntry (entries.map pairValue) given) :
    List.Forall₂ DescribesEntry ((Assoc.ofList entries).map pairValue) (Assoc.ofList given) := by
  rw [List.forall₂_map_left_iff] at h ⊢
  exact Assoc.forall₂_ofList respectsKeys_describesEntry h

theorem collects_ofList {given : List (Category × Style)} {styles : Table Category Style}
    (h : Collects given styles) : Collects (Assoc.ofList given) styles := by
  have hstyles : styles = Table.ofList given :=
    (Table.eq_ofList_iff styles given).mpr ⟨h.categories, h.last⟩
  have hagain : Table.ofList (Assoc.ofList given) = Table.ofList given :=
    Table.ofList_entries (Table.ofList given)
  have hcollects := (Table.eq_ofList_iff styles (Assoc.ofList given)).mp (hstyles.trans hagain.symm)
  exact ⟨hcollects.1, hcollects.2⟩

/-! ## Themes -/

section Fields

variable {before after : List (String × Value)} {name : String} {value : Value}

theorem fieldOr_of_ne {fallback other : Value} {key : String} (h : name ≠ key) :
    fieldOr fallback key (Assoc.ofList (before ++ (name, value) :: after)) =
      fieldOr fallback key (Assoc.ofList (before ++ (name, other) :: after)) := by
  rw [fieldOr, fieldOr, Assoc.find?_ofList_append_cons, Assoc.find?_ofList_append_cons, if_neg h,
    if_neg h]

theorem fieldOr_self {fallback : Value} :
    fieldOr fallback name (Assoc.ofList (before ++ (name, value) :: after)) =
      fieldOr value name (Assoc.ofList after) := by
  rw [fieldOr, fieldOr, Assoc.find?_ofList_append_cons, if_pos rfl]
  cases Assoc.find? name (Assoc.ofList after) with
  | none =>
      rfl
  | some later =>
      rfl

end Fields

theorem describesTheme_object_of_list (before after entries : List (String × Value)) {theme : Theme}
    (h : DescribesTheme (Assoc.ofList
      (before ++ ("token_styles", .list (entries.map pairValue)) :: after)) theme) :
    DescribesTheme (Assoc.ofList
      (before ++ ("token_styles", .object (Assoc.ofList entries)) :: after)) theme where
  name := by
    rw [fieldOr_of_ne (by decide)]
    exact h.name
  styles := by
    rcases h.styles with ⟨items, given, hitems, hgiven, hcollects⟩
    rw [fieldOr_self, fieldOr] at hitems ⊢
    cases hlater : Assoc.find? "token_styles" (Assoc.ofList after) with
    | some later =>
        rw [hlater] at hitems
        exact ⟨items, given, hitems, hgiven, hcollects⟩
    | none =>
        rw [hlater] at hitems
        cases hitems
        exact ⟨_, _, rfl, describesEntries_object hgiven, collects_ofList hcollects⟩
  defaultColor := by
    rw [fieldOr_of_ne (by decide)]
    exact h.defaultColor
  backgroundColor := by
    rw [fieldOr_of_ne (by decide)]
    exact h.backgroundColor

theorem ofValue_object_of_list (before after entries : List (String × Value)) {theme : Theme}
    (h : ofValue (.object (Assoc.ofList
      (before ++ ("token_styles", .list (entries.map pairValue)) :: after))) = .ok theme) :
    ofValue (.object (Assoc.ofList
      (before ++ ("token_styles", .object (Assoc.ofList entries)) :: after))) = .ok theme := by
  rcases ((ofValue_reports _).ok_iff theme).mp h with ⟨fields, hfields, hdescribes⟩
  rw [← Value.object.inj hfields] at hdescribes
  apply ((ofValue_reports _).ok_iff theme).mpr
  exact ⟨_, rfl, describesTheme_object_of_list before after entries hdescribes⟩

-- The converse fails: the list is refused for a style that the object has lost.
example :
    (ofValue (.object [("token_styles", .list [.list [.text "KeywordTok", .null],
      .list [.text "KeywordTok", .object []]])])).toOption = none ∧
    (ofValue (.object [("token_styles", .object (Assoc.ofList [("KeywordTok", .null),
      ("KeywordTok", .object [])]))])).toOption.isSome = true := by
  decide

/-! ## Theme files -/

theorem ofJson_objectChars (front gap back : Json.Blanks) (fields : List Json.Field) :
    ofJson (String.ofList (front.val ++ Json.objectChars gap fields ++ back.val)) =
      ofValue (.object (Assoc.ofList (fields.map Json.Field.entry))) := by
  rw [ofJson, String.toList_ofList, ofJsonChars, Json.parse_objectChars]

theorem exists_objectChars_of_ofJson {text : String} {theme : Theme} (h : ofJson text = .ok theme) :
    ∃ (front gap back : Json.Blanks) (fields : List Json.Field),
      text = String.ofList (front.val ++ Json.objectChars gap fields ++ back.val) := by
  rw [ofJson, ofJsonChars] at h
  cases hparse : Json.parse text.toList with
  | error e =>
      rw [hparse] at h
      cases h
  | ok value =>
      rw [hparse] at h
      rcases ((ofValue_reports value).ok_iff theme).mp h with ⟨entries, rfl, _⟩
      rcases (Json.parse_eq_object_iff _ entries).mp hparse with
        ⟨front, gap, back, fields, htext, _⟩
      refine ⟨front, gap, back, fields, ?_⟩
      rw [← htext, String.ofList_toList]

theorem ofJson_withObject (front gap back inner : Json.Blanks)
    (before after entries : List Json.Field) {styles : Json.Field} {theme : Theme}
    (hname : styles.name = "token_styles")
    (hvalue : styles.value = .list (entries.map fun entry => .list [.text entry.name, entry.value]))
    (h : ofJson (String.ofList
      (front.val ++ Json.objectChars gap (before ++ styles :: after) ++ back.val)) = .ok theme) :
    ofJson (String.ofList (front.val ++
      Json.objectChars gap (before ++ styles.withObject inner entries :: after) ++ back.val)) =
        .ok theme := by
  have hlist : styles.entry =
      ("token_styles", .list ((entries.map Json.Field.entry).map pairValue)) := by
    rw [List.map_map]
    exact Prod.ext hname hvalue
  have hobject : (styles.withObject inner entries).entry =
      ("token_styles", .object (Assoc.ofList (entries.map Json.Field.entry))) :=
    Prod.ext hname rfl
  rw [ofJson_objectChars, List.map_append, List.map_cons, hlist] at h
  rw [ofJson_objectChars, List.map_append, List.map_cons, hobject]
  exact ofValue_object_of_list _ _ _ h

/--
Every theme file is an object of fields, with any blanks around its parts. Where it is accepted with
its styles as a list of titles with values, in whatever way that is written, it may have them as an
object instead, written with the same titles and values in the same order, also where a title is
repeated: it is accepted as the same theme.
-/
theorem ofJson_object_of_list :
    (∀ text theme, ofJson text = .ok theme →
      ∃ (front gap back : Json.Blanks) (fields : List Json.Field),
        text = String.ofList (front.val ++ Json.objectChars gap fields ++ back.val)) ∧
    ∀ (front gap back inner : Json.Blanks) (before after entries : List Json.Field)
      (styles : Json.Field) (theme : Theme), styles.name = "token_styles" →
      styles.value = .list (entries.map fun entry => .list [.text entry.name, entry.value]) →
      ofJson (String.ofList (front.val ++
        Json.objectChars gap (before ++ styles :: after) ++ back.val)) = .ok theme →
      ofJson (String.ofList (front.val ++
        Json.objectChars gap (before ++ styles.withObject inner entries :: after) ++ back.val)) =
          .ok theme := by
  constructor
  · intro text theme h
    exact exists_objectChars_of_ofJson h
  · intro front gap back inner before after entries styles theme hname hvalue h
    exact ofJson_withObject front gap back inner before after entries hname hvalue h

/-! ## A title written twice -/

def plainEntry : Json.Field where
  nameChars := "\"OtherTok\"".toList
  name := "OtherTok"
  reads_name := rfl
  valueChars := "\x7b\x7d".toList
  value := .object []
  reads_value := rfl

def boldEntry : Json.Field where
  nameChars := "\"\\u004ftherTok\"".toList
  name := "OtherTok"
  reads_name := rfl
  valueChars := "\x7b\"bold\":true\x7d".toList
  value := .object [("bold", .bool true)]
  reads_value := rfl

def listedStyles : Json.Field where
  nameChars := "\"token_styles\"".toList
  name := "token_styles"
  reads_name := rfl
  valueChars := "[[\"OtherTok\",\x7b\x7d],[\"OtherTok\",\x7b\"bold\":true\x7d]]".toList
  value := .list [.list [.text "OtherTok", .object []],
    .list [.text "OtherTok", .object [("bold", .bool true)]]]
  reads_value := rfl

def boldTheme : Theme where
  name := ""
  defaultColor := none
  backgroundColor := none
  styles := Table.ofList [(.other, { bold := true })]

def listedText : String :=
  "\x7b\"token_styles\":[[\"OtherTok\",\x7b\x7d],[\"OtherTok\",\x7b\"bold\":true\x7d]]\x7d"

def objectText : String :=
  "\x7b\"token_styles\":\x7b\"OtherTok\":\x7b\x7d,\"\\u004ftherTok\":\x7b\"bold\":true\x7d\x7d\x7d"

/-- The object has the title once as it is and once with an escape. -/
theorem ofJson_object_of_list_repeated :
    ofJson listedText = .ok boldTheme ∧ ofJson objectText = .ok boldTheme := by
  have haccepted : ofJson (String.ofList (Json.noBlanks.val ++
      Json.objectChars Json.noBlanks ([] ++ listedStyles :: []) ++ Json.noBlanks.val)) =
        .ok boldTheme := by
    rfl
  have hobject := ofJson_object_of_list.2 Json.noBlanks Json.noBlanks Json.noBlanks Json.noBlanks
    [] [] [plainEntry, boldEntry] listedStyles boldTheme rfl rfl haccepted
  constructor
  · rw [← haccepted]
    rfl
  · rw [← hobject]
    rfl

end Theme
end Highlighting
