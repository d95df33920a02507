import Highlighting.Proofs.Data.Lines
import Highlighting.Proofs.Json.Splitting

/-!
# Objects made of texts

An object may be put together from texts that read as names and as values, with a colon between a
name and its value and with commas between the fields. It reads as the object with these names and
values, a repeated name at its first place with its last value. Every text that reads as an object
is put together in this way.
-/

namespace Highlighting
namespace Json

/-! ## Texts of values -/

theorem parse_eq_ok_iff (cs : List Char) (value : Value) :
    parse cs = .ok value ↔ scanText cs = .ok value := by
  rw [parse]
  cases scanText cs with
  | error fault =>
      constructor
      · intro h
        cases h
      · intro h
        cases h
  | ok read =>
      constructor
      · intro h
        cases h
        rfl
      · intro h
        cases h
        rfl

theorem blanks_of_skipBlanks {cs : List Char} (h : skipBlanks cs = []) :
    ∀ c ∈ cs, isBlank c = true :=
  List.dropWhile_eq_nil_iff.mp h

theorem scanValue_of_parse {cs : List Char} {value : Value} (h : parse cs = .ok value) :
    ∃ blanks, (∀ c ∈ blanks, isBlank c = true) ∧ skipBlanks cs ≠ [] ∧
      scanValue (cs.length + 1) (skipBlanks cs) = .ok (value, blanks) := by
  rcases scanText_eq_ok ((parse_eq_ok_iff cs value).mp h) with ⟨blanks, hvalue, hblanks⟩
  exact ⟨blanks, blanks_of_skipBlanks hblanks,
    (scanValue_extends (Nat.le_refl _)).ne_nil hvalue, hvalue⟩

/-- A text that reads as a value is read in front of a delimiter, up to the delimiter. -/
theorem scanValue_parsed {cs : List Char} {value : Value} (h : parse cs = .ok value) {depth : Nat}
    (hdepth : cs.length < depth) {tail : List Char} (htail : Delimited tail) :
    ∃ blanks, (∀ c ∈ blanks, isBlank c = true) ∧
      scanValue depth (skipBlanks (cs ++ tail)) = .ok (value, blanks ++ tail) := by
  rcases scanValue_of_parse h with ⟨blanks, hblanks, hne, hvalue⟩
  refine ⟨blanks, hblanks, ?_⟩
  rw [skipBlanks_append_of_ne_nil hne]
  exact scanValue_delimited hdepth hvalue htail

theorem ne_mark_of_blanks {blanks : List Char} (h : ∀ c ∈ blanks, isBlank c = true) {c : Char}
    (hc : c ≠ '\ufeff') (rest behind : List Char) : blanks ++ c :: rest ≠ '\ufeff' :: behind := by
  intro heq
  cases blanks with
  | nil =>
      exact hc (List.head_eq_of_cons_eq heq)
  | cons d blanks =>
      have hblank := h d List.mem_cons_self
      rw [List.head_eq_of_cons_eq heq] at hblank
      exact absurd hblank (by decide)

theorem parse_of_reads {front read back : List Char} (hfront : ∀ c ∈ front, isBlank c = true)
    (hback : ∀ c ∈ back, isBlank c = true) {value : Value} (h : Reads read value) :
    parse (front ++ (read ++ back)) = .ok value := by
  have hdelimited : Delimited back := by
    have hblanks := delimited_blanks_append hback delimited_nil
    rwa [List.append_nil] at hblanks
  have hlength : read.length ≤ (front ++ (read ++ back)).length + 1 := by
    simp only [List.length_append]
    omega
  have hbegins := scanValue_begins (h.scan (Nat.le_refl read.length) hdelimited)
  have hmark : ∀ rest, front ++ (read ++ back) ≠ '\ufeff' :: rest := by
    rcases hbegins with ⟨c, behind, hcs, _, hc⟩
    rw [hcs]
    exact ne_mark_of_blanks hfront hc behind
  have hvalue : scanValue ((front ++ (read ++ back)).length + 1)
      (skipBlanks (front ++ (read ++ back))) = .ok (value, back) := by
    rw [skipBlanks_append hfront, hbegins.skipBlanks]
    exact h.scan hlength hdelimited
  have hend : skipBlanks back = [] := List.dropWhile_eq_nil_iff.mpr hback
  rw [parse_eq_ok_iff, scanText_of_ne hmark hvalue, if_pos hend]

/-! ## Fields -/

/-- A text that reads as a name and one that reads as a value, each with any blanks around it. -/
structure Field where
  nameChars : List Char
  name : String
  reads_name : parse nameChars = .ok (.text name)
  valueChars : List Char
  value : Value
  reads_value : parse valueChars = .ok value

namespace Field

def chars (field : Field) : List Char :=
  field.nameChars ++ ':' :: field.valueChars

def entry (field : Field) : String × Value :=
  (field.name, field.value)

theorem skipBlanks_chars_append (field : Field) (tail : List Char) :
    skipBlanks (field.chars ++ tail) =
      skipBlanks field.nameChars ++ ':' :: (field.valueChars ++ tail) := by
  rcases scanValue_of_parse field.reads_name with ⟨blanks, _, hne, _⟩
  rw [chars, List.append_assoc, List.cons_append, skipBlanks_append_of_ne_nil hne]

theorem scanField_chars (field : Field) {depth : Nat} (hdepth : field.valueChars.length < depth)
    {tail : List Char} (htail : Delimited tail) :
    ∃ blanks, (∀ c ∈ blanks, isBlank c = true) ∧
      scanField (scanValue depth) (skipBlanks (field.chars ++ tail)) =
        .ok (field.entry, blanks ++ tail) := by
  rcases scanValue_of_parse field.reads_name with ⟨behind, hbehind, hne, hname⟩
  rcases exists_string_of_scanValue hname with ⟨opened, hopened, hstring⟩
  rcases scanValue_parsed field.reads_value hdepth htail with ⟨blanks, hblanks, hvalue⟩
  refine ⟨blanks, hblanks, ?_⟩
  have hcolon := skipBlanks_blanks_cons hbehind (show isBlank ':' = false from rfl)
    (field.valueChars ++ tail)
  rw [skipBlanks_chars_append, hopened, List.cons_append]
  simp only [scanField, scanString_append hstring, hcolon, hvalue]
  rfl

end Field

def fieldsChars (fields : List Field) : List Char :=
  [','].intercalate (fields.map Field.chars)

abbrev Blanks :=
  { cs : List Char // ∀ c ∈ cs, isBlank c = true }

def noBlanks : Blanks where
  val := []
  property := by simp

def objectChars (gap : Blanks) (fields : List Field) : List Char :=
  '{' :: (gap.val ++ fieldsChars fields ++ ['}'])

theorem fieldsChars_cons (field : Field) (fields : List Field) :
    fieldsChars (field :: fields) =
      field.chars ++ (fields.map Field.chars).flatMap fun chars => ',' :: chars :=
  intercalate_cons ',' field.chars (fields.map Field.chars)

theorem fieldsChars_cons_cons (field next : Field) (fields : List Field) :
    fieldsChars (field :: next :: fields) =
      field.chars ++ ',' :: fieldsChars (next :: fields) := by
  rw [fieldsChars_cons, fieldsChars_cons, List.map_cons, List.flatMap_cons, List.cons_append]

theorem length_valueChars_lt {field : Field} {fields : List Field} (h : field ∈ fields) :
    field.valueChars.length < (fieldsChars fields).length := by
  induction fields with
  | nil =>
      cases h
  | cons first fields ih =>
      cases fields with
      | nil =>
          rw [List.mem_singleton.mp h, fieldsChars_cons]
          simp only [Field.chars, List.length_append, List.length_cons]
          omega
      | cons next fields =>
          rw [fieldsChars_cons_cons]
          simp only [Field.chars, List.length_append, List.length_cons]
          rcases List.mem_cons.mp h with rfl | h
          · omega
          · have hrest := ih h
            omega

theorem scanFields_fieldsChars {depth : Nat} (field : Field) (fields : List Field)
    (hdepth : ∀ f ∈ field :: fields, f.valueChars.length < depth) {budget : Nat}
    (hbudget : fields.length < budget) (tail : List Char) :
    scanFields (scanValue depth) budget
      (skipBlanks (fieldsChars (field :: fields) ++ '}' :: tail)) =
        .ok ((field :: fields).map Field.entry, tail) := by
  induction fields generalizing field budget with
  | nil =>
      rcases Nat.exists_eq_add_one.mpr hbudget with ⟨budget, rfl⟩
      rcases field.scanField_chars (hdepth field List.mem_cons_self) (delimited_brace tail) with
        ⟨blanks, hblanks, hfield⟩
      have hbracket := skipBlanks_blanks_cons hblanks (show isBlank '}' = false from rfl) tail
      rw [fieldsChars_cons, List.map_nil, List.flatMap_nil, List.append_nil]
      exact scanFields_last hfield hbracket
  | cons next fields ih =>
      rcases Nat.exists_eq_add_one.mpr (Nat.zero_lt_of_lt hbudget) with ⟨budget, rfl⟩
      have hlength : fields.length < budget := Nat.lt_of_succ_lt_succ hbudget
      have hrest := ih next (fun f hf => hdepth f (List.mem_cons_of_mem field hf)) hlength
      rcases field.scanField_chars (hdepth field List.mem_cons_self) (delimited_comma _) with
        ⟨blanks, hblanks, hfield⟩
      have hcomma := skipBlanks_blanks_cons hblanks (show isBlank ',' = false from rfl)
        (fieldsChars (next :: fields) ++ '}' :: tail)
      rw [fieldsChars_cons_cons, List.append_assoc, List.cons_append,
        scanFields_more hfield hcomma, hrest]
      rfl

theorem skipBlanks_fieldsChars (field : Field) (fields : List Field) (tail : List Char) :
    ∃ opened behind,
      skipBlanks (fieldsChars (field :: fields) ++ tail) = '"' :: (opened ++ behind) ∧
        fields.length ≤ behind.length := by
  rcases scanValue_of_parse field.reads_name with ⟨blanks, _, _, hname⟩
  rcases exists_string_of_scanValue hname with ⟨opened, hopened, _⟩
  have hcommas : ∀ fields : List Field, fields.length ≤
      ((fields.map Field.chars).flatMap fun chars => ',' :: chars).length := by
    intro fields
    induction fields with
    | nil =>
        exact Nat.le_refl 0
    | cons next fields ih =>
        rw [List.map_cons, List.flatMap_cons]
        simp only [List.length_cons, List.length_append]
        omega
  refine ⟨opened, ':' :: (field.valueChars ++ (((fields.map Field.chars).flatMap
    fun chars => ',' :: chars) ++ tail)), ?_, ?_⟩
  · rw [fieldsChars_cons, List.append_assoc, Field.skipBlanks_chars_append, hopened,
      List.cons_append]
  · have hlength := hcommas fields
    simp only [List.length_cons, List.length_append]
    omega

theorem scanObject_fieldsChars {depth : Nat} (gap : Blanks) (fields : List Field)
    (hdepth : ∀ f ∈ fields, f.valueChars.length < depth) (tail : List Char) :
    scanObject (scanValue depth) (gap.val ++ fieldsChars fields ++ '}' :: tail) =
      .ok (.object (Assoc.ofList (fields.map Field.entry)), tail) := by
  cases fields with
  | nil =>
      have hbracket := skipBlanks_blanks_cons gap.property (show isBlank '}' = false from rfl) tail
      have hnil : gap.val ++ fieldsChars [] ++ '}' :: tail = gap.val ++ '}' :: tail := by
        simp [fieldsChars]
      rw [hnil, scanObject, hbracket]
      rfl
  | cons field fields =>
      rcases skipBlanks_fieldsChars field fields ('}' :: tail) with ⟨opened, behind, htext, hlength⟩
      have hskip : skipBlanks (gap.val ++ fieldsChars (field :: fields) ++ '}' :: tail) =
          skipBlanks (fieldsChars (field :: fields) ++ '}' :: tail) := by
        rw [List.append_assoc, skipBlanks_append gap.property]
      have hne : ∀ rest,
          skipBlanks (fieldsChars (field :: fields) ++ '}' :: tail) ≠ '}' :: rest := by
        intro rest heq
        rw [htext] at heq
        exact absurd (List.head_eq_of_cons_eq heq) (by decide)
      have hbudget : fields.length <
          (skipBlanks (fieldsChars (field :: fields) ++ '}' :: tail)).length + 1 := by
        rw [htext]
        simp only [List.length_cons, List.length_append]
        omega
      rw [scanObject_of_ne hskip hne, scanFields_fieldsChars field fields hdepth hbudget]
      rfl

theorem reads_objectChars (gap : Blanks) (fields : List Field) :
    Reads (objectChars gap fields) (.object (Assoc.ofList (fields.map Field.entry))) := by
  apply Reads.of_succ
  intro depth hdepth tail _
  have hinner : ∀ f ∈ fields, f.valueChars.length < depth := by
    intro f hf
    have hlength := length_valueChars_lt hf
    simp only [objectChars, List.length_cons, List.length_append] at hdepth
    omega
  have htext : objectChars gap fields ++ tail =
      '{' :: (gap.val ++ fieldsChars fields ++ '}' :: tail) := by
    simp [objectChars]
  rw [htext]
  exact scanObject_fieldsChars gap fields hinner tail

/-! ## Texts of objects -/

/-- The text of an object, with any blanks around it, reads as the object with its fields. -/
theorem parse_objectChars (front gap back : Blanks) (fields : List Field) :
    parse (front.val ++ objectChars gap fields ++ back.val) =
      .ok (.object (Assoc.ofList (fields.map Field.entry))) := by
  rw [List.append_assoc]
  exact parse_of_reads front.property back.property (reads_objectChars gap fields)

def Field.withObject (field : Field) (gap : Blanks) (fields : List Field) : Field where
  nameChars := field.nameChars
  name := field.name
  reads_name := field.reads_name
  valueChars := objectChars gap fields
  value := .object (Assoc.ofList (fields.map Field.entry))
  reads_value := by
    have hparse := parse_objectChars noBlanks gap noBlanks fields
    simpa [noBlanks] using hparse

/-! ## Parts of a text -/

section Parts

variable {scan : List Char → Scanned Value} {rest : List Char}

theorem exists_field_of_scanField (hscan : Splits scan) {cs : List Char} {entry : String × Value}
    (h : scanField scan cs = .ok (entry, rest)) {c : Char} {behind : List Char}
    (hbehind : skipBlanks rest = c :: behind) (hc : ∀ ds, Delimited (c :: ds)) {front : List Char}
    (hfront : ∀ c ∈ front, isBlank c = true) :
    ∃ field : Field, field.entry = entry ∧ front ++ cs = field.chars ++ c :: behind := by
  unfold scanField at h
  split at h
  · rename_i opened
    split at h
    · cases h
    rename_i name after hname
    split at h
    · rename_i written hcolon
      rcases map_eq_ok h with ⟨⟨value, last⟩, hvalue, hread⟩
      cases hread
      rcases exists_string_of_scanString hname with ⟨string, rfl, hstring⟩
      rcases exists_blanks after with ⟨gap, hgap, hafter⟩
      rcases exists_blanks written with ⟨lead, hlead, hwritten⟩
      rcases hscan.exists_value hvalue hbehind hc with ⟨read, blanks, hread, hblanks, hskipped⟩
      let field : Field := {
        nameChars := front ++ ('"' :: string ++ gap)
        name := name
        reads_name := parse_of_reads hfront hgap (reads_string hstring)
        valueChars := lead ++ (read ++ blanks)
        value := value
        reads_value := parse_of_reads hlead hblanks hread }
      refine ⟨field, rfl, ?_⟩
      rw [hafter, hcolon, hwritten, hskipped]
      simp [field, Field.chars]
    · cases h
  · cases h

theorem exists_fields_of_scanFields (hscan : Splits scan) {budget : Nat} {cs : List Char}
    {entries : List (String × Value)} (h : scanFields scan budget cs = .ok (entries, rest))
    {front : List Char} (hfront : ∀ c ∈ front, isBlank c = true) :
    ∃ field fields, (field :: fields).map Field.entry = entries ∧
      front ++ cs = fieldsChars (field :: fields) ++ '}' :: rest := by
  induction budget generalizing cs entries front with
  | zero =>
      cases h
  | succ budget ih =>
      rw [scanFields] at h
      split at h
      · cases h
      rename_i entry behind hentry
      split at h
      · rename_i after hbehind
        cases h
        rcases exists_field_of_scanField hscan hentry hbehind delimited_brace hfront with
          ⟨field, rfl, hcs⟩
        refine ⟨field, [], rfl, ?_⟩
        rw [hcs, fieldsChars_cons, List.map_nil, List.flatMap_nil, List.append_nil]
      · rename_i after hbehind
        rcases map_eq_ok h with ⟨⟨more, last⟩, hmore, hread⟩
        cases hread
        rcases exists_field_of_scanField hscan hentry hbehind delimited_comma hfront with
          ⟨field, rfl, hcs⟩
        rcases exists_blanks after with ⟨gap, hgap, hafter⟩
        rcases ih hmore hgap with ⟨next, fields, rfl, hnext⟩
        refine ⟨field, next :: fields, rfl, ?_⟩
        rw [hcs, hafter, hnext, fieldsChars_cons_cons, List.append_assoc, List.cons_append]
      · cases h

theorem exists_objectChars_of_scanObject (hscan : Splits scan) {cs : List Char}
    {value : Value} (h : scanObject scan cs = .ok (value, rest)) :
    ∃ gap fields, value = .object (Assoc.ofList (fields.map Field.entry)) ∧
      '{' :: cs = objectChars gap fields ++ rest := by
  rcases exists_blanks cs with ⟨gap, hgap, hcs⟩
  unfold scanObject at h
  split at h
  · rename_i after hskipped
    cases h
    refine ⟨⟨gap, hgap⟩, [], rfl, ?_⟩
    rw [hcs, hskipped]
    simp [objectChars, fieldsChars]
  · rcases map_eq_ok h with ⟨⟨entries, last⟩, hentries, hread⟩
    cases hread
    rcases exists_fields_of_scanFields hscan hentries noBlanks.property with
      ⟨field, fields, rfl, hskipped⟩
    have htext : skipBlanks cs = fieldsChars (field :: fields) ++ '}' :: last := hskipped
    refine ⟨⟨gap, hgap⟩, field :: fields, rfl, ?_⟩
    rw [hcs, htext]
    simp [objectChars]

end Parts

theorem scanValue_splits (depth : Nat) : Splits (scanValue depth) := by
  -- A value inside of another one is shorter than it, and so is the depth that it needs.
  induction depth with
  | zero =>
      constructor
      · intro cs read h
        cases h
      · intro cs rest value h
        cases h
  | succ depth ih =>
      refine ⟨scanValue_begins, ?_⟩
      intro cs rest value h hrest
      rcases exists_scansAs h with ⟨inner, hinner, hread⟩
      cases hinner
      cases hread with
      | string hstring =>
          rcases exists_string_of_scanString hstring with ⟨string, rfl, hreads⟩
          exact ⟨'"' :: string, reads_string hreads, rfl⟩
      | list hlist =>
          rcases exists_list_of_scanList ih hlist with ⟨items, hreads, rfl⟩
          exact ⟨'[' :: items, hreads, rfl⟩
      | object hobject =>
          rcases exists_objectChars_of_scanObject ih hobject with ⟨gap, fields, hvalue, hcs⟩
          rw [hvalue]
          exact ⟨objectChars gap fields, reads_objectChars gap fields, hcs⟩
      | word word hword =>
          refine ⟨word, ?_, rfl⟩
          apply Reads.of_succ
          intro depth _ tail _
          exact scanValue_word hword depth tail
      | number hnumber _ =>
          rcases exists_number_of_scanNumber hnumber hrest with ⟨read, rfl, hreads⟩
          refine ⟨read, ?_, rfl⟩
          apply Reads.of_succ
          intro depth _ tail htail
          exact scanValue_number (hreads tail htail) depth

/-! ## Objects as fields -/

/-- A text reads as an object exactly if it is fields between brackets, with any blanks around. -/
theorem parse_eq_object_iff (cs : List Char) (entries : List (String × Value)) :
    parse cs = .ok (.object entries) ↔
      ∃ (front gap back : Blanks) (fields : List Field),
        cs = front.val ++ objectChars gap fields ++ back.val ∧
          entries = Assoc.ofList (fields.map Field.entry) := by
  constructor
  · intro h
    rcases scanText_eq_ok ((parse_eq_ok_iff cs _).mp h) with ⟨rest, hvalue, hrest⟩
    rcases exists_blanks cs with ⟨front, hfront, hcs⟩
    rcases exists_scansAs hvalue with ⟨inner, _, hread⟩
    generalize hskipped : skipBlanks cs = skipped at hcs hread
    cases hread with
    | object hobject =>
        rcases exists_objectChars_of_scanObject (scanValue_splits inner) hobject with
          ⟨gap, fields, hentries, htext⟩
        refine ⟨⟨front, hfront⟩, gap, ⟨rest, blanks_of_skipBlanks hrest⟩, fields, ?_,
          Value.object.inj hentries⟩
        rw [hcs, htext, List.append_assoc]
    | word word hword =>
        simp [words] at hword
    | number _ hnumber =>
        cases hnumber
  · intro h
    rcases h with ⟨front, gap, back, fields, rfl, rfl⟩
    exact parse_objectChars front gap back fields

end Json
end Highlighting
