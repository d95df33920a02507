import Highlighting.Proofs.Data.Assoc
import Highlighting.Proofs.Json.Strings

/-!
# JSON values

Scanning a printed value gives the value back, whatever layout it was printed in and whatever stands
behind it. This holds for values without numbers in which no object repeats a name; a number would
be read further than it was printed where digits follow it.
-/

namespace Highlighting
namespace Json

/-- Values without numbers in which no object repeats a name. -/
inductive Readable : Value → Prop where
  | null : Readable .null
  | bool (b : Bool) : Readable (.bool b)
  | text (t : String) : Readable (.text t)
  | list {items : List Value} (h : ∀ item ∈ items, Readable item) : Readable (.list items)
  | object {fields : List (String × Value)} (hkeys : (Assoc.keys fields).Nodup)
      (h : ∀ field ∈ fields, Readable field.2) : Readable (.object fields)

/-! ## Blanks -/

theorem skipBlanks_append {blanks : List Char} (h : ∀ c ∈ blanks, isBlank c = true)
    (rest : List Char) : skipBlanks (blanks ++ rest) = skipBlanks rest := by
  induction blanks with
  | nil =>
      rfl
  | cons c blanks ih =>
      have hc := h c List.mem_cons_self
      have hrest := ih fun d hd => h d (List.mem_cons_of_mem c hd)
      simp [skipBlanks, hc]
      exact hrest

theorem skipBlanks_cons {c : Char} (h : isBlank c = false) (rest : List Char) :
    skipBlanks (c :: rest) = c :: rest := by
  simp [skipBlanks, h]

theorem isBlank_of_mem_lead {layout : Layout} {level : Nat} {c : Char}
    (h : c ∈ layout.lead level) : isBlank c = true := by
  cases layout with
  | compact =>
      cases h
  | indented width =>
      rcases List.mem_cons.mp h with rfl | h
      · rfl
      · rw [List.eq_of_mem_replicate h]
        rfl

theorem separator_eq (layout : Layout) (level : Nat) :
    ∃ blanks, layout.separator level = ',' :: blanks ∧ ∀ c ∈ blanks, isBlank c = true := by
  cases layout with
  | compact =>
      exact ⟨[' '], rfl, by simp [isBlank]⟩
  | indented width =>
      exact ⟨(Layout.indented width).lead level, rfl, fun c hc => isBlank_of_mem_lead hc⟩

def leads : List Char :=
  ['n', 't', 'f', '"', '[', '\x7b']

theorem isBlank_of_mem_leads : ∀ c ∈ leads, isBlank c = false := by
  simp [leads, isBlank]

theorem printAt_head {value : Value} (h : Readable value) (layout : Layout) (level : Nat) :
    ∃ c cs, printAt layout level value = c :: cs ∧ c ∈ leads := by
  cases h with
  | null =>
      exact ⟨'n', _, rfl, by decide⟩
  | bool b =>
      cases b with
      | true =>
          exact ⟨'t', _, rfl, by decide⟩
      | false =>
          exact ⟨'f', _, rfl, by decide⟩
  | text t =>
      exact ⟨'"', _, rfl, by decide⟩
  | @list items h =>
      cases items with
      | nil =>
          exact ⟨'[', _, rfl, by decide⟩
      | cons item rest =>
          exact ⟨'[', _, rfl, by decide⟩
  | @object fields hkeys h =>
      cases fields with
      | nil =>
          exact ⟨'{', _, rfl, by decide⟩
      | cons field rest =>
          exact ⟨'{', _, rfl, by decide⟩

theorem skipBlanks_printAt {value : Value} (h : Readable value) (layout : Layout) (level : Nat)
    (rest : List Char) :
    skipBlanks (printAt layout level value ++ rest) = printAt layout level value ++ rest := by
  rcases printAt_head h layout level with ⟨c, cs, heq, hlead⟩
  rw [heq, List.cons_append, skipBlanks_cons (isBlank_of_mem_leads c hlead)]

/-! ## Items and fields -/

section Items

variable {scan : List Char → Scanned Value} {budget : Nat} {cs rest tail : List Char}

theorem scanItems_last {value : Value} (hscan : scan cs = .ok (value, rest))
    (hrest : skipBlanks rest = ']' :: tail) :
    scanItems scan (budget + 1) cs = .ok ([value], tail) := by
  simp [scanItems, hscan, hrest]

theorem scanItems_more {value : Value} (hscan : scan cs = .ok (value, rest))
    (hrest : skipBlanks rest = ',' :: tail) :
    scanItems scan (budget + 1) cs =
      (scanItems scan budget (skipBlanks tail)).map fun read => (value :: read.1, read.2) := by
  simp [scanItems, hscan, hrest]

theorem scanFields_last {field : String × Value} (hscan : scanField scan cs = .ok (field, rest))
    (hrest : skipBlanks rest = '}' :: tail) :
    scanFields scan (budget + 1) cs = .ok ([field], tail) := by
  simp [scanFields, hscan, hrest]

theorem scanFields_more {field : String × Value} (hscan : scanField scan cs = .ok (field, rest))
    (hrest : skipBlanks rest = ',' :: tail) :
    scanFields scan (budget + 1) cs =
      (scanFields scan budget (skipBlanks tail)).map fun read => (field :: read.1, read.2) := by
  simp [scanFields, hscan, hrest]

end Items

section Printed

variable {scan : List Char → Scanned Value} {layout : Layout} {level outer : Nat}

theorem skipBlanks_lead_cons {c : Char} (hc : isBlank c = false) (rest : List Char) :
    skipBlanks (layout.lead outer ++ c :: rest) = c :: rest := by
  rw [skipBlanks_append (fun _ hc => isBlank_of_mem_lead hc), skipBlanks_cons hc]

theorem scanItems_print {item : Value} {items : List Value} {budget : Nat} (rest : List Char)
    (hbudget : items.length < budget)
    (hreadable : ∀ value ∈ item :: items, Readable value)
    (hscan : ∀ value ∈ item :: items, ∀ tail,
      scan (printAt layout level value ++ tail) = .ok (value, tail)) :
    scanItems scan budget (printAt layout level item ++ (printItems layout level items ++
      (layout.lead outer ++ ']' :: rest))) = .ok (item :: items, rest) := by
  induction items generalizing item budget with
  | nil =>
      cases budget with
      | zero =>
          exact absurd hbudget (Nat.not_lt_zero _)
      | succ budget =>
          exact scanItems_last (hscan item List.mem_cons_self _) (skipBlanks_lead_cons rfl rest)
  | cons next items ih =>
      cases budget with
      | zero =>
          exact absurd hbudget (Nat.not_lt_zero _)
      | succ budget =>
          rcases separator_eq layout level with ⟨blanks, hseparator, hblanks⟩
          have hlength : items.length < budget := by
            simpa using hbudget
          have hnext : ∀ value ∈ next :: items, value ∈ item :: next :: items :=
            fun value hvalue => List.mem_cons_of_mem item hvalue
          have hrest := ih hlength
            (fun value hvalue => hreadable value (hnext value hvalue))
            (fun value hvalue => hscan value (hnext value hvalue))
          have hcomma : skipBlanks (printItems layout level (next :: items) ++
              (layout.lead outer ++ ']' :: rest)) =
              ',' :: (blanks ++ (printAt layout level next ++ (printItems layout level items ++
                (layout.lead outer ++ ']' :: rest)))) := by
            simp [printItems, hseparator, skipBlanks_cons (show isBlank ',' = false from rfl)]
          rw [scanItems_more (hscan item List.mem_cons_self _) hcomma, skipBlanks_append hblanks,
            skipBlanks_printAt (hreadable next (by simp)), hrest]
          rfl

theorem scanField_print (key : String) {value : Value} (hreadable : Readable value)
    (hscan : ∀ tail, scan (printAt layout level value ++ tail) = .ok (value, tail))
    (rest : List Char) :
    scanField scan (printString key ++ ':' :: ' ' :: (printAt layout level value ++ rest)) =
      .ok ((key, value), rest) := by
  have hstring := scanString_escapeChars_append
    (printString key ++ ':' :: ' ' :: (printAt layout level value ++ rest)) key
    (':' :: ' ' :: (printAt layout level value ++ rest))
  have hcolon := skipBlanks_cons (show isBlank ':' = false from rfl)
    (' ' :: (printAt layout level value ++ rest))
  have hspace : skipBlanks (' ' :: (printAt layout level value ++ rest)) =
      printAt layout level value ++ rest :=
    skipBlanks_printAt hreadable layout level rest
  simp only [printString, List.cons_append, List.append_assoc, List.nil_append] at hstring ⊢
  simp [scanField, hstring, hcolon, hspace, hscan, Except.map]

theorem scanFields_print {field : String × Value} {fields : List (String × Value)} {budget : Nat}
    (rest : List Char) (hbudget : fields.length < budget)
    (hreadable : ∀ entry ∈ field :: fields, Readable entry.2)
    (hscan : ∀ entry ∈ field :: fields, ∀ tail,
      scan (printAt layout level entry.2 ++ tail) = .ok (entry.2, tail)) :
    scanFields scan budget (printString field.1 ++ ':' :: ' ' :: (printAt layout level field.2 ++
      (printFields layout level fields ++ (layout.lead outer ++ '}' :: rest)))) =
        .ok (field :: fields, rest) := by
  induction fields generalizing field budget with
  | nil =>
      cases budget with
      | zero =>
          exact absurd hbudget (Nat.not_lt_zero _)
      | succ budget =>
          have hfield := scanField_print field.1 (hreadable field List.mem_cons_self)
            (hscan field List.mem_cons_self)
          exact scanFields_last (hfield _) (skipBlanks_lead_cons rfl rest)
  | cons next fields ih =>
      cases budget with
      | zero =>
          exact absurd hbudget (Nat.not_lt_zero _)
      | succ budget =>
          rcases separator_eq layout level with ⟨blanks, hseparator, hblanks⟩
          have hlength : fields.length < budget := by
            simpa using hbudget
          have hnext : ∀ entry ∈ next :: fields, entry ∈ field :: next :: fields :=
            fun entry hentry => List.mem_cons_of_mem field hentry
          have hrest := ih hlength
            (fun entry hentry => hreadable entry (hnext entry hentry))
            (fun entry hentry => hscan entry (hnext entry hentry))
          have hfield := scanField_print field.1 (hreadable field List.mem_cons_self)
            (hscan field List.mem_cons_self)
          have hcomma : skipBlanks (printFields layout level (next :: fields) ++
              (layout.lead outer ++ '}' :: rest)) =
              ',' :: (blanks ++ (printString next.1 ++ ':' :: ' ' ::
                (printAt layout level next.2 ++ (printFields layout level fields ++
                  (layout.lead outer ++ '}' :: rest))))) := by
            simp [printFields, hseparator, skipBlanks_cons (show isBlank ',' = false from rfl)]
          have hquote : ∀ tail, skipBlanks (printString next.1 ++ tail) =
              printString next.1 ++ tail := fun _ => rfl
          rw [scanFields_more (hfield _) hcomma, skipBlanks_append hblanks, hquote, hrest]
          rfl

end Printed

/-!
## Values

The depth that the scanner is given only has to exceed the nesting of the value, and every level of
nesting has a bracket of its own in the text.
-/

section Lengths

variable (layout : Layout) (level : Nat)

theorem length_printAt_le_of_mem {value : Value} {items : List Value} (h : value ∈ items) :
    (printAt layout level value).length ≤ (printItems layout level items).length := by
  induction items with
  | nil =>
      cases h
  | cons item items ih =>
      rw [printItems, List.length_append, List.length_append]
      rcases List.mem_cons.mp h with rfl | h
      · omega
      · have hrest := ih h
        omega

theorem length_le_printItems (items : List Value) :
    items.length ≤ (printItems layout level items).length := by
  induction items with
  | nil =>
      exact Nat.zero_le _
  | cons item items ih =>
      rcases separator_eq layout level with ⟨blanks, hseparator, _⟩
      rw [printItems, hseparator]
      simp only [List.length_append, List.length_cons]
      omega

theorem length_printAt_le_of_mem_fields {field : String × Value}
    {fields : List (String × Value)} (h : field ∈ fields) :
    (printAt layout level field.2).length ≤ (printFields layout level fields).length := by
  induction fields with
  | nil =>
      cases h
  | cons first fields ih =>
      rw [printFields]
      simp only [List.length_append, List.length_cons]
      rcases List.mem_cons.mp h with rfl | h
      · omega
      · have hrest := ih h
        omega

theorem length_le_printFields (fields : List (String × Value)) :
    fields.length ≤ (printFields layout level fields).length := by
  induction fields with
  | nil =>
      exact Nat.zero_le _
  | cons first fields ih =>
      rcases separator_eq layout level with ⟨blanks, hseparator, _⟩
      rw [printFields, hseparator]
      simp only [List.length_append, List.length_cons]
      omega

end Lengths

theorem scanList_of_ne {scan : List Char → Scanned Value} {cs text : List Char}
    (htext : skipBlanks cs = text) (hne : ∀ rest, text ≠ ']' :: rest) :
    scanList scan cs =
      (scanItems scan (text.length + 1) text).map fun read => (.list read.1, read.2) := by
  subst htext
  unfold scanList
  split
  · rename_i rest heq
    exact absurd heq (hne rest)
  · rfl

theorem scanObject_of_ne {scan : List Char → Scanned Value} {cs text : List Char}
    (htext : skipBlanks cs = text) (hne : ∀ rest, text ≠ '}' :: rest) :
    scanObject scan cs =
      (scanFields scan (text.length + 1) text).map fun read =>
        (.object (Assoc.ofList read.1), read.2) := by
  subst htext
  unfold scanObject
  split
  · rename_i rest heq
    exact absurd heq (hne rest)
  · rfl

section Nested

variable {scan : List Char → Scanned Value} {layout : Layout} {level : Nat}

theorem scanList_print {item : Value} {items : List Value}
    (hreadable : ∀ value ∈ item :: items, Readable value)
    (hscan : ∀ value ∈ item :: items, ∀ tail,
      scan (printAt layout (level + 1) value ++ tail) = .ok (value, tail)) (rest : List Char) :
    scanList scan ((layout.lead (level + 1) ++ printAt layout (level + 1) item ++
      printItems layout (level + 1) items ++ layout.lead level ++ [']']) ++ rest) =
        .ok (.list (item :: items), rest) := by
  have hitem := hreadable item List.mem_cons_self
  have htext : skipBlanks ((layout.lead (level + 1) ++ printAt layout (level + 1) item ++
      printItems layout (level + 1) items ++ layout.lead level ++ [']']) ++ rest) =
      printAt layout (level + 1) item ++ (printItems layout (level + 1) items ++
        (layout.lead level ++ ']' :: rest)) := by
    simp only [List.append_assoc, List.singleton_append]
    rw [skipBlanks_append (fun _ hc => isBlank_of_mem_lead hc), skipBlanks_printAt hitem]
  have hne : ∀ tail, printAt layout (level + 1) item ++ (printItems layout (level + 1) items ++
      (layout.lead level ++ ']' :: rest)) ≠ ']' :: tail := by
    intro tail heq
    rcases printAt_head hitem layout (level + 1) with ⟨c, cs, hhead, hlead⟩
    rw [hhead] at heq
    have hbracket := List.head_eq_of_cons_eq heq
    rw [hbracket] at hlead
    exact absurd hlead (by decide)
  have hitems : items.length < (printAt layout (level + 1) item ++
      (printItems layout (level + 1) items ++ (layout.lead level ++ ']' :: rest))).length + 1 := by
    have hlength := length_le_printItems layout (level + 1) items
    simp only [List.length_append]
    omega
  rw [scanList_of_ne htext hne, scanItems_print rest hitems hreadable hscan]
  rfl

theorem scanObject_print {field : String × Value} {fields : List (String × Value)}
    (hkeys : (Assoc.keys (field :: fields)).Nodup)
    (hreadable : ∀ entry ∈ field :: fields, Readable entry.2)
    (hscan : ∀ entry ∈ field :: fields, ∀ tail,
      scan (printAt layout (level + 1) entry.2 ++ tail) = .ok (entry.2, tail))
    (rest : List Char) :
    scanObject scan ((layout.lead (level + 1) ++ printString field.1 ++ ':' :: ' ' ::
      printAt layout (level + 1) field.2 ++ printFields layout (level + 1) fields ++
        layout.lead level ++ ['}']) ++ rest) = .ok (.object (field :: fields), rest) := by
  have htext : skipBlanks ((layout.lead (level + 1) ++ printString field.1 ++ ':' :: ' ' ::
      printAt layout (level + 1) field.2 ++ printFields layout (level + 1) fields ++
        layout.lead level ++ ['}']) ++ rest) =
      printString field.1 ++ ':' :: ' ' :: (printAt layout (level + 1) field.2 ++
        (printFields layout (level + 1) fields ++ (layout.lead level ++ '}' :: rest))) := by
    simp only [List.append_assoc, List.cons_append, List.nil_append]
    rw [skipBlanks_append (fun _ hc => isBlank_of_mem_lead hc)]
    rfl
  have hne : ∀ tail, printString field.1 ++ ':' :: ' ' :: (printAt layout (level + 1) field.2 ++
      (printFields layout (level + 1) fields ++ (layout.lead level ++ '}' :: rest))) ≠
        '}' :: tail := by
    intro tail heq
    have hquote := List.head_eq_of_cons_eq heq
    exact absurd hquote (by decide)
  have hfields : fields.length < (printString field.1 ++ ':' :: ' ' ::
      (printAt layout (level + 1) field.2 ++ (printFields layout (level + 1) fields ++
        (layout.lead level ++ '}' :: rest)))).length + 1 := by
    have hlength := length_le_printFields layout (level + 1) fields
    simp only [List.length_append, List.length_cons]
    omega
  rw [scanObject_of_ne htext hne, scanFields_print rest hfields hreadable hscan]
  simp [Except.map, Assoc.ofList_of_nodup hkeys]

end Nested

theorem scanValue_printAt {value : Value} (h : Readable value) (layout : Layout) (level : Nat)
    {depth : Nat} (hdepth : (printAt layout level value).length ≤ depth + 1) (rest : List Char) :
    scanValue (depth + 1) (printAt layout level value ++ rest) = .ok (value, rest) := by
  -- An inner value has a smaller depth left, and is shorter than the text with its brackets.
  induction h generalizing level depth rest with
  | null =>
      rfl
  | bool b =>
      cases b with
      | true =>
          rfl
      | false =>
          rfl
  | text t =>
      have hstring := scanString_escapeChars_append (printAt layout level (.text t) ++ rest) t rest
      simp only [printAt, printString, List.cons_append, List.append_assoc,
        List.nil_append] at hstring ⊢
      simp [scanValue, hstring, Except.map]
  | @list items hreadable ih =>
      cases items with
      | nil =>
          rfl
      | cons item items =>
          simp only [printAt, List.length_cons, List.length_append, List.length_nil] at hdepth
          cases depth with
          | zero =>
              omega
          | succ depth =>
              have hscan : ∀ value ∈ item :: items, ∀ tail,
                  scanValue (depth + 1) (printAt layout (level + 1) value ++ tail) =
                    .ok (value, tail) := by
                intro value hvalue tail
                apply ih value hvalue
                rcases List.mem_cons.mp hvalue with rfl | hvalue
                · omega
                · have hlength := length_printAt_le_of_mem layout (level + 1) hvalue
                  omega
              exact scanList_print hreadable hscan rest
  | @object fields hkeys hreadable ih =>
      cases fields with
      | nil =>
          rfl
      | cons field fields =>
          simp only [printAt, List.length_cons, List.length_append, List.length_nil] at hdepth
          cases depth with
          | zero =>
              omega
          | succ depth =>
              have hscan : ∀ entry ∈ field :: fields, ∀ tail,
                  scanValue (depth + 1) (printAt layout (level + 1) entry.2 ++ tail) =
                    .ok (entry.2, tail) := by
                intro entry hentry tail
                apply ih entry hentry
                rcases List.mem_cons.mp hentry with rfl | hentry
                · omega
                · have hlength := length_printAt_le_of_mem_fields layout (level + 1) hentry
                  omega
              exact scanObject_print hkeys hreadable hscan rest

/-! ## Whole texts -/

theorem scanText_of_ne {cs : List Char} (h : ∀ rest, cs ≠ '\ufeff' :: rest) {value : Value}
    {rest : List Char} (hvalue : scanValue (cs.length + 1) (skipBlanks cs) = .ok (value, rest)) :
    scanText cs =
      if skipBlanks rest = [] then .ok value else .error ⟨.extraData, skipBlanks rest⟩ := by
  unfold scanText
  split
  · exact absurd rfl (h _)
  · simp only [hvalue]
    cases skipBlanks rest with
    | nil =>
        rfl
    | cons c behind =>
        rfl

/-- Behind a value there is room for blanks only; anything else is too much. -/
theorem scanText_printAt_append {value : Value} (h : Readable value) (layout : Layout)
    {before : List Char} (hbefore : ∀ c ∈ before, isBlank c = true) (after : List Char) :
    scanText (before ++ printAt layout 0 value ++ after) =
      if skipBlanks after = [] then .ok value else .error ⟨.extraData, skipBlanks after⟩ := by
  rcases printAt_head h layout 0 with ⟨c, cs, hhead, hlead⟩
  have hmark : ∀ rest, before ++ printAt layout 0 value ++ after ≠ '\ufeff' :: rest := by
    intro rest heq
    cases before with
    | nil =>
        rw [hhead] at heq
        have hfirst := List.head_eq_of_cons_eq heq
        rw [hfirst] at hlead
        exact absurd hlead (by decide)
    | cons d before =>
        have hfirst := List.head_eq_of_cons_eq heq
        have hblank := hbefore d List.mem_cons_self
        rw [hfirst] at hblank
        exact absurd hblank (by decide)
  have hvalue : scanValue ((before ++ printAt layout 0 value ++ after).length + 1)
      (skipBlanks (before ++ printAt layout 0 value ++ after)) = .ok (value, after) := by
    rw [List.append_assoc, skipBlanks_append hbefore, skipBlanks_printAt h]
    apply scanValue_printAt h layout 0
    simp only [List.length_append]
    omega
  exact scanText_of_ne hmark hvalue

theorem scanText_printAt {value : Value} (h : Readable value) (layout : Layout)
    {before after : List Char} (hbefore : ∀ c ∈ before, isBlank c = true)
    (hafter : ∀ c ∈ after, isBlank c = true) :
    scanText (before ++ printAt layout 0 value ++ after) = .ok value := by
  have hrest : skipBlanks after = [] := by
    simpa [skipBlanks] using skipBlanks_append hafter []
  rw [scanText_printAt_append h layout hbefore, if_pos hrest]

end Json

/-! ## Ordered values -/

namespace Value

theorem sortedItems_eq_map (items : List Value) : sortedItems items = items.map sorted := by
  induction items with
  | nil =>
      rfl
  | cons item items ih =>
      rw [sortedItems, ih, List.map_cons]

theorem sortedFields_eq_map (fields : List (String × Value)) :
    sortedFields fields = fields.map fun field => (field.1, field.2.sorted) := by
  induction fields with
  | nil =>
      rfl
  | cons field fields ih =>
      rw [sortedFields, ih, List.map_cons]

theorem keys_sortedFields (fields : List (String × Value)) :
    Assoc.keys (sortedFields fields) = Assoc.keys fields := by
  rw [sortedFields_eq_map, Assoc.keys, List.map_map]
  rfl

end Value

namespace Json

theorem Readable.sorted {value : Value} (h : Readable value) : Readable value.sorted := by
  induction h with
  | null =>
      exact Readable.null
  | bool b =>
      exact Readable.bool b
  | text t =>
      exact Readable.text t
  | list hreadable ih =>
      apply Readable.list
      intro item hitem
      rw [Value.sortedItems_eq_map] at hitem
      rcases List.mem_map.mp hitem with ⟨original, horiginal, rfl⟩
      exact ih original horiginal
  | @object fields hkeys hreadable ih =>
      apply Readable.object
      · have hsorted := hkeys
        rw [← Value.keys_sortedFields] at hsorted
        exact (Assoc.keys_sortByKey_perm _).nodup_iff.mpr hsorted
      · intro field hfield
        have hmem := (Assoc.sortByKey_perm _).mem_iff.mp hfield
        rw [Value.sortedFields_eq_map] at hmem
        rcases List.mem_map.mp hmem with ⟨original, horiginal, rfl⟩
        exact ih original horiginal

theorem parse_print {value : Value} (h : Readable value) (layout : Layout)
    {before after : List Char} (hbefore : ∀ c ∈ before, isBlank c = true)
    (hafter : ∀ c ∈ after, isBlank c = true) :
    parse (before ++ print layout value ++ after) = .ok value.sorted := by
  rw [parse, print, scanText_printAt h.sorted layout hbefore hafter]
  rfl

end Json
end Highlighting
