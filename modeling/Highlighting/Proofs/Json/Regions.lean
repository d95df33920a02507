import Highlighting.Proofs.Json.Values
import Mathlib.Algebra.GroupWithZero.Nat

/-!
# Strings and line ends of JSON text

A JSON text is followed character by character: every point of it lies outside of all strings, in a
string, or in a string behind a backslash. What is printed for a value consists of visible ASCII
characters and of line ends, it ends outside of all strings, and so does everything in front of one
of its line ends. Its number of line ends is told by the layout and by the value without its texts.
-/

namespace Highlighting
namespace Json

/-! ## Regions -/

/-- Where a point of a text lies with respect to the strings of the text. -/
inductive Region where
  | outside
  | string
  | escape
  deriving DecidableEq, Repr

namespace Region

def next : Region → Char → Region
  | .outside, c => if c = '"' then .string else .outside
  | .string, c => if c = '"' then .outside else if c = '\\' then .escape else .string
  | .escape, _ => .string

def after (region : Region) (cs : List Char) : Region :=
  cs.foldl next region

theorem after_append (region : Region) (a b : List Char) :
    region.after (a ++ b) = (region.after a).after b :=
  List.foldl_append

theorem after_outside {cs : List Char} (h : '"' ∉ cs) : outside.after cs = .outside := by
  induction cs with
  | nil =>
      rfl
  | cons c cs ih =>
      rw [List.mem_cons, not_or] at h
      have hnext : outside.next c = .outside := if_neg (Ne.symm h.1)
      rw [after, List.foldl_cons, hnext]
      exact ih h.2

end Region

def IsVisible (c : Char) : Prop :=
  0x20 ≤ c.toNat ∧ c.toNat < 0x7f

instance : DecidablePred IsVisible :=
  fun c => inferInstanceAs (Decidable (0x20 ≤ c.toNat ∧ c.toNat < 0x7f))

/-- Text from one point outside of all strings to another, with no line end in a string. -/
structure LaidOut (cs : List Char) : Prop where
  visible : ∀ c ∈ cs, c = '\n' ∨ IsVisible c
  outside : ∀ before rest, cs = before ++ '\n' :: rest → Region.outside.after before = .outside
  closed : Region.outside.after cs = .outside

namespace LaidOut

theorem append {a b : List Char} (ha : LaidOut a) (hb : LaidOut b) : LaidOut (a ++ b) where
  visible := by
    intro c hc
    rcases List.mem_append.mp hc with hc | hc
    · exact ha.visible c hc
    · exact hb.visible c hc
  outside := by
    intro before rest h
    rcases List.append_eq_append_iff.mp h with ⟨m, hbefore, hrest⟩ | ⟨m, hfirst, hrest⟩
    · rw [hbefore, Region.after_append, ha.closed]
      exact hb.outside m rest hrest
    · cases m with
      | nil =>
          rw [List.append_nil] at hfirst
          rw [← hfirst]
          exact ha.closed
      | cons c m =>
          have hc : c = '\n' := (List.cons.inj hrest).1.symm
          rw [hc] at hfirst
          exact ha.outside before m hfirst
  closed := by
    rw [Region.after_append, ha.closed, hb.closed]

theorem of_not_mem {cs : List Char} (hvisible : ∀ c ∈ cs, c = '\n' ∨ IsVisible c)
    (hquote : '"' ∉ cs) : LaidOut cs where
  visible := hvisible
  outside := by
    intro before rest h
    apply Region.after_outside
    intro hmem
    rw [h] at hquote
    exact hquote (List.mem_append_left _ hmem)
  closed := Region.after_outside hquote

theorem singleton {c : Char} (hvisible : IsVisible c) (hquote : c ≠ '"') : LaidOut [c] := by
  apply of_not_mem
  · intro d hd
    rw [List.mem_singleton.mp hd]
    exact Or.inr hvisible
  · intro hmem
    exact hquote (List.mem_singleton.mp hmem).symm

theorem cons {c : Char} {cs : List Char} (hvisible : IsVisible c) (hquote : c ≠ '"')
    (h : LaidOut cs) : LaidOut (c :: cs) :=
  (singleton hvisible hquote).append h

end LaidOut

/-! ## Strings -/

/-- Visible text inside of a string, which the string goes on behind. -/
structure Enclosed (cs : List Char) : Prop where
  visible : ∀ c ∈ cs, IsVisible c
  stays : Region.string.after cs = .string

namespace Enclosed

theorem nil : Enclosed [] :=
  ⟨by simp, rfl⟩

theorem append {a b : List Char} (ha : Enclosed a) (hb : Enclosed b) : Enclosed (a ++ b) where
  visible := by
    intro c hc
    rcases List.mem_append.mp hc with hc | hc
    · exact ha.visible c hc
    · exact hb.visible c hc
  stays := by
    rw [Region.after_append, ha.stays, hb.stays]

theorem flatMap {α : Type} {f : α → List Char} (h : ∀ x, Enclosed (f x)) (xs : List α) :
    Enclosed (xs.flatMap f) := by
  induction xs with
  | nil =>
      exact nil
  | cons x xs ih =>
      exact (h x).append ih

theorem singleton {c : Char} (hvisible : IsVisible c) (hquote : c ≠ '"') (hbackslash : c ≠ '\\') :
    Enclosed [c] where
  visible := by
    intro d hd
    rw [List.mem_singleton.mp hd]
    exact hvisible
  stays := by
    simp [Region.after, Region.next, hquote, hbackslash]

/-- A backslash hides what the character behind it means. -/
theorem escaped {c : Char} (hvisible : IsVisible c) : Enclosed ['\\', c] where
  visible := by
    intro d hd
    rw [List.mem_cons, List.mem_singleton] at hd
    rcases hd with hd | hd
    · rw [hd]
      decide
    · rw [hd]
      exact hvisible
  stays := rfl

end Enclosed

theorem isVisible_digitChar : ∀ d < 16, IsVisible (Nat.digitChar d) ∧ Nat.digitChar d ≠ '"' ∧
    Nat.digitChar d ≠ '\\' := by
  decide

theorem enclosed_hex (width n : Nat) : Enclosed (Numeral.hex width n) := by
  induction width generalizing n with
  | zero =>
      exact Enclosed.nil
  | succ width ih =>
      rcases isVisible_digitChar (n % 16) (Nat.mod_lt n (by decide)) with
        ⟨hvisible, hquote, hbackslash⟩
      exact (ih (n / 16)).append (Enclosed.singleton hvisible hquote hbackslash)

theorem enclosed_escapeUnit (n : Nat) : Enclosed (escapeUnit n) := by
  have hmark : Enclosed ['\\', 'u'] := Enclosed.escaped (by decide)
  exact hmark.append (enclosed_hex 4 n)

theorem enclosed_escapeChar (c : Char) : Enclosed (escapeChar c) := by
  unfold escapeChar
  split
  · exact Enclosed.escaped (by decide)
  rename_i hquote
  split
  · exact Enclosed.escaped (by decide)
  rename_i hbackslash
  split
  · exact Enclosed.escaped (by decide)
  split
  · exact Enclosed.escaped (by decide)
  split
  · exact Enclosed.escaped (by decide)
  split
  · exact Enclosed.escaped (by decide)
  split
  · exact Enclosed.escaped (by decide)
  split
  · rename_i hvisible
    exact Enclosed.singleton hvisible hquote hbackslash
  split
  · exact enclosed_escapeUnit _
  · exact (enclosed_escapeUnit _).append (enclosed_escapeUnit _)

theorem isVisible_of_mem_printString {text : String} {c : Char} (h : c ∈ printString text) :
    IsVisible c := by
  rw [printString, List.mem_cons, List.mem_append, List.mem_singleton] at h
  rcases h with h | h | h
  · rw [h]
    decide
  · exact (Enclosed.flatMap enclosed_escapeChar text.toList).visible c h
  · rw [h]
    decide

theorem not_isVisible_newline : ¬ IsVisible '\n' := by
  decide

theorem newline_not_mem_printString (text : String) : '\n' ∉ printString text :=
  fun h => not_isVisible_newline (isVisible_of_mem_printString h)

theorem laidOut_printString (text : String) : LaidOut (printString text) where
  visible := fun _ h => Or.inr (isVisible_of_mem_printString h)
  outside := by
    intro before rest h
    apply absurd _ (newline_not_mem_printString text)
    rw [h]
    exact List.mem_append_right before List.mem_cons_self
  closed := by
    have hbody := (Enclosed.flatMap enclosed_escapeChar text.toList).stays
    have hopen : Region.outside.after ['"'] = .string := rfl
    have hclose : Region.string.after ['"'] = .outside := rfl
    have hparts : printString text = ['"'] ++ (text.toList.flatMap escapeChar ++ ['"']) := rfl
    rw [hparts, Region.after_append, hopen, Region.after_append, hbody, hclose]

/-! ## Layout -/

theorem laidOut_lead (layout : Layout) (level : Nat) : LaidOut (layout.lead level) := by
  apply LaidOut.of_not_mem
  · intro c hc
    cases layout with
    | compact =>
        cases hc
    | indented width =>
        rcases List.mem_cons.mp hc with hc | hc
        · exact Or.inl hc
        · rw [List.eq_of_mem_replicate hc]
          exact Or.inr (by decide)
  · intro hquote
    exact absurd (isBlank_of_mem_lead hquote) (by decide)

theorem laidOut_separator (layout : Layout) (level : Nat) : LaidOut (layout.separator level) := by
  have hcomma : IsVisible ',' ∧ ',' ≠ '"' := by
    decide
  cases layout with
  | compact =>
      exact LaidOut.cons hcomma.1 hcomma.2 (LaidOut.singleton (by decide) (by decide))
  | indented width =>
      exact LaidOut.cons hcomma.1 hcomma.2 (laidOut_lead (.indented width) level)

/-! ## Values -/

section Printed

variable {layout : Layout} {level : Nat}

theorem laidOut_printItems {items : List Value}
    (h : ∀ item ∈ items, LaidOut (printAt layout level item)) :
    LaidOut (printItems layout level items) := by
  induction items with
  | nil =>
      exact LaidOut.of_not_mem (by simp [printItems]) (by simp [printItems])
  | cons item items ih =>
      have hitem := h item List.mem_cons_self
      have hitems := ih fun other hother => h other (List.mem_cons_of_mem item hother)
      exact ((laidOut_separator layout level).append hitem).append hitems

theorem laidOut_field (key : String) {cs : List Char} (h : LaidOut cs) :
    LaidOut (printString key ++ ':' :: ' ' :: cs) := by
  have hspace := LaidOut.cons (show IsVisible ' ' by decide) (by decide) h
  have hcolon := LaidOut.cons (show IsVisible ':' by decide) (by decide) hspace
  exact (laidOut_printString key).append hcolon

theorem laidOut_printFields {fields : List (String × Value)}
    (h : ∀ field ∈ fields, LaidOut (printAt layout level field.2)) :
    LaidOut (printFields layout level fields) := by
  induction fields with
  | nil =>
      exact LaidOut.of_not_mem (by simp [printFields]) (by simp [printFields])
  | cons field fields ih =>
      have hfield := laidOut_field field.1 (h field List.mem_cons_self)
      have hfields := ih fun other hother => h other (List.mem_cons_of_mem field hother)
      have hfirst := (laidOut_separator layout level).append hfield
      have htext := hfirst.append hfields
      simpa [printFields] using htext

end Printed

theorem laidOut_bracketed {opening closing : Char} {cs : List Char}
    (hopening : IsVisible opening ∧ opening ≠ '"') (hclosing : IsVisible closing ∧ closing ≠ '"')
    (layout : Layout) (level : Nat) (h : LaidOut cs) :
    LaidOut (opening :: (layout.lead (level + 1) ++ cs ++ layout.lead level ++ [closing])) := by
  have hinner := (laidOut_lead layout (level + 1)).append h
  have hend := (hinner.append (laidOut_lead layout level)).append
    (LaidOut.singleton hclosing.1 hclosing.2)
  exact LaidOut.cons hopening.1 hopening.2 hend

def printedWords : List (List Char) :=
  ["null".toList, "true".toList, "false".toList, ['[', ']'], ['{', '}']]

theorem laidOut_printedWord {cs : List Char} (h : cs ∈ printedWords) : LaidOut cs := by
  have hplain : ∀ cs ∈ printedWords, (cs.all fun c => IsVisible c) = true ∧ '"' ∉ cs := by
    decide
  have hvisible : ∀ c ∈ cs, IsVisible c := fun c hc =>
    of_decide_eq_true (List.all_eq_true.mp (hplain cs h).1 c hc)
  exact LaidOut.of_not_mem (fun c hc => Or.inr (hvisible c hc)) (hplain cs h).2

theorem laidOut_printAt {value : Value} (h : Readable value) (layout : Layout) (level : Nat) :
    LaidOut (printAt layout level value) := by
  -- The items of a list stand one level deeper than its brackets, hence the arbitrary level.
  induction h generalizing level with
  | null =>
      exact laidOut_printedWord (by simp [printAt, printedWords])
  | bool b =>
      cases b with
      | true =>
          exact laidOut_printedWord (by simp [printAt, printedWords])
      | false =>
          exact laidOut_printedWord (by simp [printAt, printedWords])
  | text t =>
      exact laidOut_printString t
  | @list items hreadable ih =>
      cases items with
      | nil =>
          exact laidOut_printedWord (by simp [printAt, printedWords])
      | cons item items =>
          have hitem := ih item List.mem_cons_self (level + 1)
          have hitems : LaidOut (printItems layout (level + 1) items) :=
            laidOut_printItems fun other hother =>
              ih other (List.mem_cons_of_mem item hother) (level + 1)
          have htext := laidOut_bracketed (show IsVisible '[' ∧ '[' ≠ '"' by decide)
            (show IsVisible ']' ∧ ']' ≠ '"' by decide) layout level (hitem.append hitems)
          simpa [printAt] using htext
  | @object fields hkeys hreadable ih =>
      cases fields with
      | nil =>
          exact laidOut_printedWord (by simp [printAt, printedWords])
      | cons field fields =>
          have hfield := laidOut_field field.1 (ih field List.mem_cons_self (level + 1))
          have hfields : LaidOut (printFields layout (level + 1) fields) :=
            laidOut_printFields fun other hother =>
              ih other (List.mem_cons_of_mem field hother) (level + 1)
          have htext := laidOut_bracketed (show IsVisible '{' ∧ '{' ≠ '"' by decide)
            (show IsVisible '}' ∧ '}' ≠ '"' by decide) layout level (hfield.append hfields)
          simpa [printAt] using htext

theorem laidOut_print {value : Value} (h : Readable value) (layout : Layout) :
    LaidOut (print layout value) :=
  laidOut_printAt h.sorted layout 0

end Json

/-! ## Numbers of line ends -/

namespace Value

mutual

/-- Line ends of a value whose items and fields stand on lines of their own. -/
def lineEnds : Value → Nat
  | .list [] => 0
  | .list (item :: rest) => lineEnds item + lineEndsOfItems rest + 2
  | .object [] => 0
  | .object ((_, value) :: rest) => lineEnds value + lineEndsOfFields rest + 2
  | _ => 0
termination_by structural value => value

def lineEndsOfItems : List Value → Nat
  | [] => 0
  | item :: rest => lineEnds item + lineEndsOfItems rest + 1
termination_by structural items => items

def lineEndsOfFields : List (String × Value) → Nat
  | [] => 0
  | (_, value) :: rest => lineEnds value + lineEndsOfFields rest + 1
termination_by structural fields => fields

end

theorem lineEndsOfItems_eq_sum (items : List Value) :
    lineEndsOfItems items = (items.map fun item => item.lineEnds + 1).sum := by
  induction items with
  | nil =>
      rfl
  | cons item items ih =>
      rw [lineEndsOfItems, ih, List.map_cons, List.sum_cons]
      omega

theorem lineEndsOfFields_eq_sum (fields : List (String × Value)) :
    lineEndsOfFields fields = (fields.map fun field => field.2.lineEnds + 1).sum := by
  induction fields with
  | nil =>
      rfl
  | cons field fields ih =>
      rw [lineEndsOfFields, ih, List.map_cons, List.sum_cons]
      omega

theorem lineEnds_list {items : List Value} (h : items ≠ []) :
    (list items).lineEnds = lineEndsOfItems items + 1 := by
  cases items with
  | nil =>
      exact absurd rfl h
  | cons item items =>
      rfl

theorem lineEnds_object {fields : List (String × Value)} (h : fields ≠ []) :
    (object fields).lineEnds = lineEndsOfFields fields + 1 := by
  cases fields with
  | nil =>
      exact absurd rfl h
  | cons field fields =>
      rfl

theorem lineEnds_object_perm {first second : List (String × Value)} (h : first.Perm second) :
    (object first).lineEnds = (object second).lineEnds := by
  by_cases hempty : first = []
  · rw [hempty] at h ⊢
    rw [List.nil_perm.mp h]
  · have hsecond : second ≠ [] := fun heq => hempty (List.perm_nil.mp (heq ▸ h))
    have hsum := (h.map fun field => field.2.lineEnds + 1).sum_nat
    rw [lineEnds_object hempty, lineEnds_object hsecond, lineEndsOfFields_eq_sum,
      lineEndsOfFields_eq_sum, hsum]

theorem lineEnds_sorted {value : Value} (h : Json.Readable value) :
    value.sorted.lineEnds = value.lineEnds := by
  induction h with
  | null =>
      rfl
  | bool b =>
      rfl
  | text t =>
      rfl
  | @list items hreadable ih =>
      by_cases hempty : items = []
      · rw [hempty]
        rfl
      · have hsorted : items.map sorted ≠ [] := fun heq => hempty (List.map_eq_nil_iff.mp heq)
        have hitems : (items.map sorted).map (fun item => item.lineEnds + 1) =
            items.map fun item => item.lineEnds + 1 := by
          rw [List.map_map]
          apply List.map_congr_left
          intro item hitem
          rw [Function.comp_apply, ih item hitem]
        rw [sorted, sortedItems_eq_map, lineEnds_list hsorted, lineEnds_list hempty,
          lineEndsOfItems_eq_sum, lineEndsOfItems_eq_sum, hitems]
  | @object fields hkeys hreadable ih =>
      rw [sorted, lineEnds_object_perm (Assoc.sortByKey_perm _), sortedFields_eq_map]
      by_cases hempty : fields = []
      · rw [hempty]
        rfl
      · have hsorted : (fields.map fun field => (field.1, field.2.sorted)) ≠ [] :=
          fun heq => hempty (List.map_eq_nil_iff.mp heq)
        have hfields : (fields.map fun field => (field.1, field.2.sorted)).map
            (fun field => field.2.lineEnds + 1) = fields.map fun field => field.2.lineEnds + 1 := by
          rw [List.map_map]
          apply List.map_congr_left
          intro field hfield
          rw [Function.comp_apply, ih field hfield]
        rw [lineEnds_object hsorted, lineEnds_object hempty, lineEndsOfFields_eq_sum,
          lineEndsOfFields_eq_sum, hfields]

end Value

namespace Json

def Layout.breaks : Layout → Nat
  | .compact => 0
  | .indented _ => 1

theorem count_printString (text : String) : (printString text).count '\n' = 0 :=
  List.count_eq_zero.mpr (newline_not_mem_printString text)

theorem count_printedWord {cs : List Char} (h : cs ∈ printedWords) : cs.count '\n' = 0 := by
  have hwords : ∀ cs ∈ printedWords, cs.count '\n' = 0 := by
    decide
  exact hwords cs h

theorem count_lead (layout : Layout) (level : Nat) :
    (layout.lead level).count '\n' = layout.breaks := by
  cases layout with
  | compact =>
      rfl
  | indented width =>
      have hblanks : (List.replicate (width * level) ' ').count '\n' = 0 := by
        rw [List.count_eq_zero]
        intro h
        exact absurd (List.eq_of_mem_replicate h) (by decide)
      rw [Layout.lead, List.count_cons_self, hblanks, Layout.breaks]

theorem count_separator (layout : Layout) (level : Nat) :
    (layout.separator level).count '\n' = layout.breaks := by
  cases layout with
  | compact =>
      rfl
  | indented width =>
      rw [Layout.separator, List.count_cons_of_ne (by decide), count_lead]

theorem count_field (key : String) (cs : List Char) :
    (printString key ++ ':' :: ' ' :: cs).count '\n' = cs.count '\n' := by
  rw [List.count_append, count_printString, Nat.zero_add, List.count_cons_of_ne (by decide),
    List.count_cons_of_ne (by decide)]

section Printed

variable {layout : Layout} {level : Nat}

theorem count_printItems {items : List Value}
    (h : ∀ item ∈ items, (printAt layout level item).count '\n' = layout.breaks * item.lineEnds) :
    (printItems layout level items).count '\n' = layout.breaks * Value.lineEndsOfItems items := by
  induction items with
  | nil =>
      rfl
  | cons item items ih =>
      have hitem := h item List.mem_cons_self
      have hitems := ih fun other hother => h other (List.mem_cons_of_mem item hother)
      rw [printItems, List.count_append, List.count_append, count_separator, hitem, hitems,
        Value.lineEndsOfItems, Nat.mul_add, Nat.mul_add]
      omega

theorem count_printFields {fields : List (String × Value)}
    (h : ∀ field ∈ fields,
      (printAt layout level field.2).count '\n' = layout.breaks * field.2.lineEnds) :
    (printFields layout level fields).count '\n' =
      layout.breaks * Value.lineEndsOfFields fields := by
  induction fields with
  | nil =>
      rfl
  | cons field fields ih =>
      have hfield := h field List.mem_cons_self
      have hfields := ih fun other hother => h other (List.mem_cons_of_mem field hother)
      rw [printFields, List.append_assoc, List.append_assoc, List.count_append, count_separator]
      simp only [List.cons_append]
      rw [count_field, List.count_append, hfield, hfields, Value.lineEndsOfFields, Nat.mul_add,
        Nat.mul_add]
      omega

end Printed

theorem count_bracketed {opening closing : Char} (hopening : opening ≠ '\n')
    (hclosing : closing ≠ '\n') (layout : Layout) (level : Nat) (cs : List Char) :
    (opening :: (layout.lead (level + 1) ++ cs ++ layout.lead level ++ [closing])).count '\n' =
      cs.count '\n' + layout.breaks * 2 := by
  have hend : [closing].count '\n' = 0 := by
    rw [List.count_cons_of_ne hclosing, List.count_nil]
  rw [List.count_cons_of_ne hopening, List.count_append, List.count_append, List.count_append,
    count_lead, count_lead, hend]
  omega

theorem count_printAt {value : Value} (h : Readable value) (layout : Layout) (level : Nat) :
    (printAt layout level value).count '\n' = layout.breaks * value.lineEnds := by
  induction h generalizing level with
  | null =>
      exact count_printedWord (by simp [printAt, printedWords])
  | bool b =>
      cases b with
      | true =>
          exact count_printedWord (by simp [printAt, printedWords])
      | false =>
          exact count_printedWord (by simp [printAt, printedWords])
  | text t =>
      exact count_printString t
  | @list items hreadable ih =>
      cases items with
      | nil =>
          exact count_printedWord (by simp [printAt, printedWords])
      | cons item items =>
          have hitem := ih item List.mem_cons_self (level + 1)
          have hitems := count_printItems fun other hother =>
            ih other (List.mem_cons_of_mem item hother) (level + 1)
          have htext := @count_bracketed '[' ']' (by decide) (by decide) layout level
            (printAt layout (level + 1) item ++ printItems layout (level + 1) items)
          rw [List.count_append, hitem, hitems, ← Nat.mul_add, ← Nat.mul_add] at htext
          simpa [printAt, Value.lineEnds] using htext
  | @object fields hkeys hreadable ih =>
      cases fields with
      | nil =>
          exact count_printedWord (by simp [printAt, printedWords])
      | cons field fields =>
          have hfield := ih field List.mem_cons_self (level + 1)
          have hfields := count_printFields fun other hother =>
            ih other (List.mem_cons_of_mem field hother) (level + 1)
          have htext := @count_bracketed '{' '}' (by decide) (by decide) layout level
            ((printString field.1 ++ ':' :: ' ' :: printAt layout (level + 1) field.2) ++
              printFields layout (level + 1) fields)
          rw [List.count_append, count_field, hfield, hfields, ← Nat.mul_add,
            ← Nat.mul_add] at htext
          simpa [printAt, Value.lineEnds] using htext

theorem count_print {value : Value} (h : Readable value) (layout : Layout) :
    (print layout value).count '\n' = layout.breaks * value.lineEnds := by
  rw [print, count_printAt h.sorted, Value.lineEnds_sorted h]

end Json
end Highlighting
