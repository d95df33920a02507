import Highlighting.Proofs.Json.Delimited

/-!
# Values split off a text

How a value is read is settled by the first characters of the text, and a number alone depends on
what stands behind it. In front of a delimiter a scanner therefore splits off a text that is read as
the same value in front of every other delimiter, by a scanner that goes as deep as the text is
long. A list is split off when its items are.
-/

namespace Highlighting
namespace Json

/-! ## Blanks -/

theorem skipBlanks_blanks_cons {blanks : List Char} (h : ∀ c ∈ blanks, isBlank c = true) {c : Char}
    (hc : isBlank c = false) (rest : List Char) : skipBlanks (blanks ++ c :: rest) = c :: rest := by
  rw [skipBlanks_append h, skipBlanks_cons hc]

theorem exists_blanks (cs : List Char) :
    ∃ blanks, (∀ c ∈ blanks, isBlank c = true) ∧ cs = blanks ++ skipBlanks cs :=
  ⟨cs.takeWhile isBlank, fun _ hc => List.mem_takeWhile_imp hc,
    List.takeWhile_append_dropWhile.symm⟩

/-- A text that begins with no blank, and not with a byte order mark either. -/
def Begins (cs : List Char) : Prop :=
  ∃ c rest, cs = c :: rest ∧ isBlank c = false ∧ c ≠ '\ufeff'

theorem Begins.skipBlanks {cs : List Char} (h : Begins cs) : skipBlanks cs = cs := by
  rcases h with ⟨c, rest, rfl, hc, _⟩
  exact skipBlanks_cons hc rest

theorem Begins.of_append {read rest : List Char} (h : Begins (read ++ rest)) (hne : read ≠ [])
    (tail : List Char) : Begins (read ++ tail) := by
  rcases h with ⟨c, behind, hcs, hc⟩
  cases read with
  | nil =>
      exact absurd rfl hne
  | cons d read =>
      rw [← (List.cons.inj hcs).1] at hc
      exact ⟨d, read ++ tail, rfl, hc⟩

/-! ## Ways of reading a value -/

def words : List (List Char × Value) :=
  [("null".toList, .null), ("true".toList, .bool true), ("false".toList, .bool false),
    ("NaN".toList, .float .nan), ("Infinity".toList, .float (.infinite false)),
    ("-Infinity".toList, .float (.infinite true))]

def IsNumber : Value → Prop
  | .int _ | .float _ => True
  | _ => False

/-- How a value is read that is no deeper inside than the given depth, and what it leaves. -/
inductive ScansAs (depth : Nat) : List Char → Value → List Char → Prop where
  | string {opened rest : List Char} {text : String}
      (h : scanString ('"' :: opened) opened = .ok (text, rest)) :
      ScansAs depth ('"' :: opened) (.text text) rest
  | list {opened rest : List Char} {items : List Value}
      (h : scanList (scanValue depth) opened = .ok (.list items, rest)) :
      ScansAs depth ('[' :: opened) (.list items) rest
  | object {opened rest : List Char} {entries : List (String × Value)}
      (h : scanObject (scanValue depth) opened = .ok (.object entries, rest)) :
      ScansAs depth ('{' :: opened) (.object entries) rest
  | word (word : List Char) {rest : List Char} {value : Value} (h : (word, value) ∈ words) :
      ScansAs depth (word ++ rest) value rest
  | number {cs rest : List Char} {value : Value} (h : scanNumber cs = some (value, rest))
      (hvalue : IsNumber value) : ScansAs depth cs value rest

theorem isNumber_of_scanNumber {cs rest : List Char} {value : Value}
    (h : scanNumber cs = some (value, rest)) : IsNumber value := by
  rw [scanNumber_eq] at h
  rcases Option.map_eq_some_iff.mp h with ⟨read, _, hread⟩
  have hvalue := congrArg Prod.fst hread
  simp only [numberValue] at hvalue
  split at hvalue
  · rw [← hvalue]
    trivial
  · rw [← hvalue]
    trivial

theorem exists_items_of_value {scan : List Char → Scanned Value} {cs rest : List Char}
    {value : Value} (h : scanList scan cs = .ok (value, rest)) : ∃ items, value = .list items := by
  unfold scanList at h
  split at h
  · cases h
    exact ⟨[], rfl⟩
  · rcases map_eq_ok h with ⟨read, _, hread⟩
    exact ⟨read.1, (congrArg Prod.fst hread).symm⟩

theorem exists_entries_of_value {scan : List Char → Scanned Value} {cs rest : List Char}
    {value : Value} (h : scanObject scan cs = .ok (value, rest)) :
    ∃ entries, value = .object entries := by
  unfold scanObject at h
  split at h
  · cases h
    exact ⟨[], rfl⟩
  · rcases map_eq_ok h with ⟨read, _, hread⟩
    exact ⟨_, (congrArg Prod.fst hread).symm⟩

theorem exists_scansAs {depth : Nat} {cs rest : List Char} {value : Value}
    (h : scanValue depth cs = .ok (value, rest)) :
    ∃ inner, depth = inner + 1 ∧ ScansAs inner cs value rest := by
  cases depth with
  | zero =>
      cases h
  | succ depth =>
      refine ⟨depth, rfl, ?_⟩
      unfold scanValue at h
      split at h
      case h_1 =>
        rcases map_eq_ok h with ⟨read, hread, heq⟩
        cases heq
        exact .string hread
      case h_2 =>
        rcases exists_items_of_value h with ⟨items, rfl⟩
        exact .list h
      case h_3 =>
        rcases exists_entries_of_value h with ⟨entries, rfl⟩
        exact .object h
      case h_4 =>
        cases h
        exact .word "null".toList (by simp [words])
      case h_5 =>
        cases h
        exact .word "true".toList (by simp [words])
      case h_6 =>
        cases h
        exact .word "false".toList (by simp [words])
      case h_7 =>
        cases h
        exact .word "NaN".toList (by simp [words])
      case h_8 =>
        cases h
        exact .word "Infinity".toList (by simp [words])
      case h_9 =>
        cases h
        exact .word "-Infinity".toList (by simp [words])
      case h_10 =>
        split at h
        · rename_i read hread
          cases h
          exact .number hread (isNumber_of_scanNumber hread)
        · cases h

theorem scanValue_word {word : List Char} {value : Value} (h : (word, value) ∈ words) (depth : Nat)
    (tail : List Char) : scanValue (depth + 1) (word ++ tail) = .ok (value, tail) := by
  simp only [words, List.mem_cons, Prod.mk.injEq, List.not_mem_nil, or_false] at h
  rcases h with ⟨rfl, rfl⟩ | ⟨rfl, rfl⟩ | ⟨rfl, rfl⟩ | ⟨rfl, rfl⟩ | ⟨rfl, rfl⟩ | ⟨rfl, rfl⟩
  all_goals
    rfl

theorem begins_of_isDigit {c : Char} (h : isDigit c = true) (rest : List Char) :
    Begins (c :: rest) := by
  have hdigit : ∀ d, isDigit d = false → c ≠ d := by
    intro d hd heq
    rw [heq, hd] at h
    cases h
  have hblank : isBlank c = false := by
    simp [isBlank, hdigit ' ' rfl, hdigit '\t' rfl, hdigit '\n' rfl, hdigit '\r' rfl]
  exact ⟨c, rest, rfl, hblank, hdigit '\ufeff' rfl⟩

theorem scanValue_begins {depth : Nat} {cs : List Char} {read : Value × List Char}
    (h : scanValue depth cs = .ok read) : Begins cs := by
  rcases read with ⟨value, behind⟩
  rcases exists_scansAs h with ⟨inner, _, hread⟩
  cases hread with
  | string _ =>
      exact ⟨'"', _, rfl, rfl, by decide⟩
  | list _ =>
      exact ⟨'[', _, rfl, rfl, by decide⟩
  | object _ =>
      exact ⟨'{', _, rfl, rfl, by decide⟩
  | word word hword =>
      simp only [words, List.mem_cons, Prod.mk.injEq, List.not_mem_nil, or_false] at hword
      rcases hword with ⟨rfl, _⟩ | ⟨rfl, _⟩ | ⟨rfl, _⟩ | ⟨rfl, _⟩ | ⟨rfl, _⟩ | ⟨rfl, _⟩
      all_goals
        exact ⟨_, _, rfl, rfl, by decide⟩
  | number hnumber _ =>
      rcases exists_digit_of_scanNumber hnumber with ⟨c, rest, hc, rfl | rfl⟩
      · exact begins_of_isDigit hc rest
      · exact ⟨'-', c :: rest, rfl, rfl, by decide⟩

theorem exists_string_of_scanValue {depth : Nat} {cs rest : List Char} {text : String}
    (h : scanValue depth cs = .ok (.text text, rest)) :
    ∃ opened, cs = '"' :: opened ∧ scanString cs opened = .ok (text, rest) := by
  rcases exists_scansAs h with ⟨inner, _, hread⟩
  cases hread with
  | @string opened _ _ hstring =>
      exact ⟨opened, rfl, hstring⟩
  | word word hword =>
      simp [words] at hword
  | number _ hvalue =>
      cases hvalue

/-! ## Values in front of a delimiter -/

theorem scanValue_delimited {depth depth' : Nat} (hdepth : depth ≤ depth') {cs rest : List Char}
    {value : Value} (h : scanValue depth cs = .ok (value, rest)) {tail : List Char}
    (htail : Delimited tail) : scanValue depth' (cs ++ tail) = .ok (value, rest ++ tail) := by
  rcases exists_scansAs h with ⟨inner, rfl, hread⟩
  rcases Nat.exists_eq_add_of_lt hdepth with ⟨more, rfl⟩
  have hinner := scanValue_extends (Nat.le_add_right inner more)
  cases hread with
  | string hstring =>
      rw [List.cons_append, scanValue, scanString_append hstring]
      rfl
  | list hlist =>
      exact scanList_append hinner hlist tail
  | object hobject =>
      exact scanObject_append hinner hobject tail
  | word word hword =>
      rw [List.append_assoc]
      exact scanValue_word hword (inner + more) (rest ++ tail)
  | number hnumber _ =>
      apply scanValue_number
      rw [scanNumber_delimited htail, hnumber]
      rfl

/-! ## Texts of values -/

/-- A text that is read as a value in front of every delimiter, by a scanner that goes as deep. -/
structure Reads (read : List Char) (value : Value) : Prop where
  ne_nil : read ≠ []
  scan : ∀ {depth}, read.length ≤ depth → ∀ {tail}, Delimited tail →
    scanValue depth (read ++ tail) = .ok (value, tail)

theorem Reads.of_succ {read : List Char} {value : Value}
    (h : ∀ depth, read.length ≤ depth + 1 → ∀ tail, Delimited tail →
      scanValue (depth + 1) (read ++ tail) = .ok (value, tail)) : Reads read value := by
  have hne : read ≠ [] := by
    intro hnil
    have hempty := h read.length (Nat.le_succ _) [] delimited_nil
    rw [hnil] at hempty
    cases hempty
  refine ⟨hne, ?_⟩
  intro depth hdepth tail htail
  have hpositive : 0 < depth := Nat.lt_of_lt_of_le (List.length_pos_iff.mpr hne) hdepth
  rcases Nat.exists_eq_add_one.mpr hpositive with ⟨depth, rfl⟩
  exact h depth hdepth tail htail

theorem reads_string {string : List Char} {text : String}
    (h : ∀ opening tail, scanString opening (string ++ tail) = .ok (text, tail)) :
    Reads ('"' :: string) (.text text) := by
  apply Reads.of_succ
  intro depth _ tail _
  rw [List.cons_append, scanValue, h]
  rfl

/-- A scanner that splits texts of values off in front of a delimiter. -/
structure Splits (scan : List Char → Scanned Value) : Prop where
  begins : ∀ {cs read}, scan cs = .ok read → Begins cs
  split : ∀ {cs rest value}, scan cs = .ok (value, rest) → Delimited rest →
    ∃ read, Reads read value ∧ cs = read ++ rest

/-! ## Items -/

section Items

variable {scan : List Char → Scanned Value} {depth : Nat}

theorem Splits.exists_value (hscan : Splits scan) {cs rest : List Char} {value : Value}
    (h : scan cs = .ok (value, rest)) {c : Char} {behind : List Char}
    (hbehind : skipBlanks rest = c :: behind) (hc : ∀ ds, Delimited (c :: ds)) :
    ∃ read blanks, Reads read value ∧ (∀ d ∈ blanks, isBlank d = true) ∧
      cs = read ++ (blanks ++ c :: behind) := by
  rcases exists_blanks rest with ⟨blanks, hblanks, hrest⟩
  rw [hbehind] at hrest
  rw [hrest] at h
  rcases hscan.split h (delimited_blanks_append hblanks (hc behind)) with ⟨read, hread, hcs⟩
  exact ⟨read, blanks, hread, hblanks, hcs⟩

theorem scanItems_begins (hscan : Splits scan) {budget : Nat} {cs : List Char}
    {read : List Value × List Char} (h : scanItems scan budget cs = .ok read) : Begins cs := by
  cases budget with
  | zero =>
      cases h
  | succ budget =>
      cases hitem : scan cs with
      | error fault =>
          rw [scanItems, hitem] at h
          cases h
      | ok item =>
          exact hscan.begins hitem

theorem scanItems_last_of_reads {first blanks : List Char} {value : Value} (h : Reads first value)
    (hdepth : first.length ≤ depth) (hblanks : ∀ c ∈ blanks, isBlank c = true) (budget : Nat)
    (tail : List Char) :
    scanItems (scanValue depth) (budget + 1) (first ++ (blanks ++ ']' :: tail)) =
      .ok ([value], tail) :=
  scanItems_last (h.scan hdepth (delimited_blanks_append hblanks (delimited_bracket tail)))
    (skipBlanks_blanks_cons hblanks rfl tail)

theorem scanItems_more_of_reads {first blanks gap cs : List Char} {value : Value}
    (h : Reads first value) (hdepth : first.length ≤ depth)
    (hblanks : ∀ c ∈ blanks, isBlank c = true) (hgap : ∀ c ∈ gap, isBlank c = true)
    (hcs : Begins cs) (budget : Nat) :
    scanItems (scanValue depth) (budget + 1) (first ++ (blanks ++ ',' :: (gap ++ cs))) =
      (scanItems (scanValue depth) budget cs).map fun read => (value :: read.1, read.2) := by
  have hvalue := h.scan hdepth (delimited_blanks_append hblanks (delimited_comma (gap ++ cs)))
  rw [scanItems_more hvalue (skipBlanks_blanks_cons hblanks rfl (gap ++ cs)),
    skipBlanks_append hgap, hcs.skipBlanks]

theorem exists_items_of_scanItems (hscan : Splits scan) {budget : Nat} {cs rest : List Char}
    {values : List Value} (h : scanItems scan budget cs = .ok (values, rest)) :
    ∃ read, read ≠ [] ∧ cs = read ++ rest ∧ ∀ depth budget', read.length ≤ depth →
      read.length ≤ budget' →
        ∀ tail, scanItems (scanValue depth) budget' (read ++ tail) = .ok (values, tail) := by
  -- Every item takes a character at least, so that the length of the text is budget enough for them.
  induction budget generalizing cs values with
  | zero =>
      cases h
  | succ budget ih =>
      rw [scanItems] at h
      split at h
      · cases h
      rename_i value behind hitem
      split at h
      · rename_i after hbehind
        cases h
        rcases hscan.exists_value hitem hbehind delimited_bracket with
          ⟨first, blanks, hfirst, hblanks, rfl⟩
        refine ⟨first ++ (blanks ++ [']']), by simp, by simp, ?_⟩
        intro depth budget' hdepth hbudget tail
        simp only [List.length_append, List.length_singleton] at hdepth hbudget
        have hpositive : 0 < budget' := by omega
        rcases Nat.exists_eq_add_one.mpr hpositive with ⟨budget', rfl⟩
        have hlength : first.length ≤ depth := by omega
        have hlast := scanItems_last_of_reads hfirst hlength hblanks budget' tail
        simpa using hlast
      · rename_i after hbehind
        rcases map_eq_ok h with ⟨⟨more, last⟩, hmore, hread⟩
        cases hread
        rcases hscan.exists_value hitem hbehind delimited_comma with
          ⟨first, blanks, hfirst, hblanks, rfl⟩
        rcases ih hmore with ⟨second, hne, hafter, hitems⟩
        rcases exists_blanks after with ⟨gap, hgap, hskipped⟩
        have hbegins := scanItems_begins hscan hmore
        rw [hafter] at hbegins hskipped
        refine ⟨first ++ (blanks ++ ',' :: (gap ++ second)), by simp, by rw [hskipped]; simp, ?_⟩
        intro depth budget' hdepth hbudget tail
        simp only [List.length_append, List.length_cons] at hdepth hbudget
        have hpositive : 0 < budget' := by omega
        rcases Nat.exists_eq_add_one.mpr hpositive with ⟨budget', rfl⟩
        have hlength : first.length ≤ depth := by omega
        have hnext := scanItems_more_of_reads hfirst hlength hblanks hgap
          (hbegins.of_append hne tail) budget'
        rw [hitems depth budget' (by omega) (by omega) tail] at hnext
        simpa [Except.map] using hnext
      · cases h

theorem exists_list_of_scanList (hscan : Splits scan) {cs rest : List Char} {value : Value}
    (h : scanList scan cs = .ok (value, rest)) :
    ∃ items, Reads ('[' :: items) value ∧ cs = items ++ rest := by
  rcases exists_blanks cs with ⟨gap, hgap, hcs⟩
  unfold scanList at h
  split at h
  · rename_i after hskipped
    cases h
    rw [hskipped] at hcs
    refine ⟨gap ++ [']'], ?_, by rw [hcs]; simp⟩
    apply Reads.of_succ
    intro depth _ tail _
    have hskip : skipBlanks (gap ++ [']'] ++ tail) = ']' :: tail := by
      rw [List.append_assoc]
      exact skipBlanks_blanks_cons hgap rfl tail
    rw [List.cons_append, scanValue, scanList, hskip]
    rfl
  · rename_i hbracket
    rcases map_eq_ok h with ⟨⟨values, last⟩, hvalues, hread⟩
    cases hread
    rcases exists_items_of_scanItems hscan hvalues with ⟨items, hne, hskipped, hitems⟩
    have hbegins := scanItems_begins hscan hvalues
    rw [hskipped] at hcs hbegins
    refine ⟨gap ++ items, ?_, by rw [hcs]; simp⟩
    apply Reads.of_succ
    intro depth hdepth tail _
    simp only [List.length_cons, List.length_append] at hdepth
    have hskip : skipBlanks (gap ++ items ++ tail) = items ++ tail := by
      rw [List.append_assoc, skipBlanks_append hgap, (hbegins.of_append hne tail).skipBlanks]
    have hnot : ∀ ds, items ++ tail ≠ ']' :: ds := by
      apply append_ne_cons hne
      intro ds heq
      exact hbracket (ds ++ last) (by rw [hskipped, heq]; rfl)
    rw [List.cons_append, scanValue, scanList_of_ne hskip hnot,
      hitems depth _ (by omega) (by simp; omega) tail]
    rfl

end Items

end Json
end Highlighting
