/-!
# Parts of markup

Markup as a scanner sees it that is handed nothing but the characters: tags, and the characters
between them. It walks through the text from left to right and refuses it at an angle bracket that
no tag accounts for and at a tag that is not a name with attributes in double quotes. The main
result says that it undoes writing, and accepts no other text.
-/

namespace Highlighting
namespace Html

inductive Part where
  | char (c : Char)
  | opening (name : String) (attributes : List (String × String))
  | closing (name : String)
  deriving DecidableEq, Repr

def writeAttribute (entry : String × String) : List Char :=
  ' ' :: (entry.1.toList ++ '=' :: '"' :: (entry.2.toList ++ ['"']))

def Lower (read : String) : Prop :=
  ∀ c ∈ read.toList, c.isLower = true

def IsName (name : String) : Prop :=
  name ≠ "" ∧ Lower name

instance (read : String) : Decidable (Lower read) :=
  List.decidableBAll (fun c : Char => c.isLower = true) read.toList

instance (name : String) : Decidable (IsName name) :=
  inferInstanceAs (Decidable (name ≠ "" ∧ Lower name))

/-- Characters that may stand between the double quotes in a tag. -/
def IsValue (value : String) : Prop :=
  ∀ c ∈ value.toList, c ≠ '"' ∧ c ≠ '<' ∧ c ≠ '>'

namespace Part

def write : Part → List Char
  | .char c => [c]
  | .opening name attributes =>
      '<' :: (name.toList ++ attributes.flatMap writeAttribute ++ ['>'])
  | .closing name => '<' :: '/' :: (name.toList ++ ['>'])

def Proper : Part → Prop
  | .char c => c ≠ '<' ∧ c ≠ '>'
  | .opening name attributes =>
      IsName name ∧ ∀ entry ∈ attributes, IsName entry.1 ∧ IsValue entry.2
  | .closing name => IsName name

end Part

/-!
## Scanning

The scanner is a state machine on single characters. A place records what has been read of the tag
in which the scanner stands.
-/

/-- Where a scanner stands: outside of all tags, or at some point of a tag. -/
inductive Place where
  | outside
  | opening (read : String)
  | closing (read : String)
  | key (name : String) (attributes : List (String × String)) (read : String)
  | equals (name : String) (attributes : List (String × String)) (field : String)
  | value (name : String) (attributes : List (String × String)) (field read : String)
  | behind (name : String) (attributes : List (String × String))
  deriving DecidableEq, Repr

namespace Place

/-- One character more: the parts that it completes, and where the scanner stands behind it. -/
def step : Place → Char → Option (List Part × Place)
  | .outside, c =>
      if c = '<' then some ([], .opening "")
      else if c = '>' then none
      else some ([.char c], .outside)
  | .opening read, c =>
      if c.isLower then some ([], .opening (read.push c))
      else if read = "" then if c = '/' then some ([], .closing "") else none
      else if c = ' ' then some ([], .key read [] "")
      else if c = '>' then some ([.opening read []], .outside)
      else none
  | .closing read, c =>
      if c.isLower then some ([], .closing (read.push c))
      else if c = '>' ∧ read ≠ "" then some ([.closing read], .outside)
      else none
  | .key name attributes read, c =>
      if c.isLower then some ([], .key name attributes (read.push c))
      else if c = '=' ∧ read ≠ "" then some ([], .equals name attributes read)
      else none
  | .equals name attributes field, c =>
      if c = '"' then some ([], .value name attributes field "") else none
  | .value name attributes field read, c =>
      if c = '"' then some ([], .behind name (attributes ++ [(field, read)]))
      else if c = '<' ∨ c = '>' then none
      else some ([], .value name attributes field (read.push c))
  | .behind name attributes, c =>
      if c = ' ' then some ([], .key name attributes "")
      else if c = '>' then some ([.opening name attributes], .outside)
      else none

def run : Place → List Char → Option (List Part × Place)
  | place, [] => some ([], place)
  | place, c :: cs =>
      match place.step c with
      | none => none
      | some (parts, next) => (next.run cs).map fun result => (parts ++ result.1, result.2)

def written : Place → List Char
  | .outside => []
  | .opening read => '<' :: read.toList
  | .closing read => '<' :: '/' :: read.toList
  | .key name attributes read =>
      '<' :: (name.toList ++ attributes.flatMap writeAttribute ++ ' ' :: read.toList)
  | .equals name attributes field =>
      '<' :: (name.toList ++ attributes.flatMap writeAttribute ++ ' ' :: (field.toList ++ ['=']))
  | .value name attributes field read =>
      '<' :: (name.toList ++ attributes.flatMap writeAttribute ++
        ' ' :: (field.toList ++ '=' :: '"' :: read.toList))
  | .behind name attributes => '<' :: (name.toList ++ attributes.flatMap writeAttribute)

/-- What a scanner has made sure of: names so far are lower case, and what is complete is proper. -/
def Proper : Place → Prop
  | .outside => True
  | .opening read => Lower read
  | .closing read => Lower read
  | .key name attributes read => (Part.opening name attributes).Proper ∧ Lower read
  | .equals name attributes field => (Part.opening name attributes).Proper ∧ IsName field
  | .value name attributes field read =>
      (Part.opening name attributes).Proper ∧ IsName field ∧ IsValue read
  | .behind name attributes => (Part.opening name attributes).Proper

end Place

/-!
What the scanner has passed is always the parts that it has found and the characters of the tag in
which it stands.
-/

theorem lower_empty : Lower "" := by
  intro c hc
  simp at hc

theorem lower_push {read : String} {c : Char} (h : Lower read) (hc : c.isLower = true) :
    Lower (read.push c) := by
  intro d hd
  rw [String.toList_push, List.mem_append, List.mem_singleton] at hd
  rcases hd with hd | rfl
  · exact h d hd
  · exact hc

theorem isValue_push {read : String} {c : Char} (h : IsValue read)
    (hc : c ≠ '"' ∧ c ≠ '<' ∧ c ≠ '>') : IsValue (read.push c) := by
  intro d hd
  rw [String.toList_push, List.mem_append, List.mem_singleton] at hd
  rcases hd with hd | rfl
  · exact h d hd
  · exact hc

theorem Part.proper_opening_append {name : String} {attributes : List (String × String)}
    {entry : String × String} (h : (Part.opening name attributes).Proper)
    (hname : IsName entry.1) (hvalue : IsValue entry.2) :
    (Part.opening name (attributes ++ [entry])).Proper := by
  refine ⟨h.1, ?_⟩
  intro other hother
  rw [List.mem_append, List.mem_singleton] at hother
  rcases hother with hother | rfl
  · exact h.2 other hother
  · exact ⟨hname, hvalue⟩

namespace Place

theorem step_sound {place next : Place} {c : Char} {parts : List Part} (hplace : place.Proper)
    (h : place.step c = some (parts, next)) :
    place.written ++ [c] = parts.flatMap Part.write ++ next.written ∧
      next.Proper ∧ ∀ part ∈ parts, part.Proper := by
  cases place with
  | outside =>
      simp only [step] at h
      split at h
      · rename_i hc
        cases h
        exact ⟨by simp [written, hc], lower_empty, by simp⟩
      split at h
      · cases h
      · rename_i hlt hgt
        cases h
        exact ⟨by simp [written, Part.write], trivial, by simpa [Part.Proper] using ⟨hlt, hgt⟩⟩
  | opening read =>
      simp only [step] at h
      split at h
      · rename_i hc
        cases h
        exact ⟨by simp [written], lower_push hplace hc, by simp⟩
      split at h
      · split at h
        · rename_i hread hc
          cases h
          exact ⟨by simp [written, hread, hc], lower_empty, by simp⟩
        · cases h
      rename_i hread
      have hname : IsName read := ⟨hread, hplace⟩
      split at h
      · rename_i hc
        cases h
        exact ⟨by simp [written, hc], ⟨⟨hname, by simp⟩, lower_empty⟩, by simp⟩
      split at h
      · rename_i hc
        cases h
        exact ⟨by simp [written, Part.write, hc], trivial, by simpa [Part.Proper] using hname⟩
      · cases h
  | closing read =>
      simp only [step] at h
      split at h
      · rename_i hc
        cases h
        exact ⟨by simp [written], lower_push hplace hc, by simp⟩
      split at h
      · rename_i hc
        cases h
        exact ⟨by simp [written, Part.write, hc.1], trivial,
          by simpa [Part.Proper] using ⟨hc.2, hplace⟩⟩
      · cases h
  | key name attributes read =>
      simp only [step] at h
      split at h
      · rename_i hc
        cases h
        exact ⟨by simp [written], ⟨hplace.1, lower_push hplace.2 hc⟩, by simp⟩
      split at h
      · rename_i hc
        cases h
        exact ⟨by simp [written, hc.1], ⟨hplace.1, hc.2, hplace.2⟩, by simp⟩
      · cases h
  | equals name attributes field =>
      simp only [step] at h
      split at h
      · rename_i hc
        cases h
        exact ⟨by simp [written, hc], ⟨hplace.1, hplace.2, by simp [IsValue]⟩, by simp⟩
      · cases h
  | value name attributes field read =>
      simp only [step] at h
      split at h
      · rename_i hc
        cases h
        exact ⟨by simp [written, writeAttribute, hc],
          Part.proper_opening_append hplace.1 hplace.2.1 hplace.2.2, by simp⟩
      split at h
      · cases h
      · rename_i hquote hangle
        cases h
        have hc : c ≠ '"' ∧ c ≠ '<' ∧ c ≠ '>' := ⟨hquote, not_or.mp hangle⟩
        exact ⟨by simp [written], ⟨hplace.1, hplace.2.1, isValue_push hplace.2.2 hc⟩, by simp⟩
  | behind name attributes =>
      simp only [step] at h
      split at h
      · rename_i hc
        cases h
        exact ⟨by simp [written, hc], ⟨hplace, lower_empty⟩, by simp⟩
      split at h
      · rename_i hc
        cases h
        exact ⟨by simp [written, Part.write, hc], trivial, by simpa [Proper] using hplace⟩
      · cases h

theorem run_sound {place last : Place} {cs : List Char} {parts : List Part}
    (hplace : place.Proper) (h : place.run cs = some (parts, last)) :
    place.written ++ cs = parts.flatMap Part.write ++ last.written ∧
      ∀ part ∈ parts, part.Proper := by
  induction cs generalizing place parts with
  | nil =>
      cases h
      simp
  | cons c cs ih =>
      cases hstep : place.step c with
      | none =>
          simp [run, hstep] at h
      | some result =>
          obtain ⟨first, next⟩ := result
          rcases step_sound hplace hstep with ⟨hwritten, hnext, hfirst⟩
          simp only [run, hstep, Option.map_eq_some_iff] at h
          obtain ⟨⟨others, place'⟩, hrun, heq⟩ := h
          cases heq
          rcases ih hnext hrun with ⟨hrest, hothers⟩
          constructor
          · rw [List.append_cons, hwritten, List.append_assoc, hrest, List.flatMap_append,
              List.append_assoc]
          · intro part hpart
            rcases List.mem_append.mp hpart with hpart | hpart
            · exact hfirst part hpart
            · exact hothers part hpart

/-!
Conversely every proper part is found again: the scanner collects each name and each value
character by character, and no character in it makes the scanner turn off earlier.
-/

theorem not_isLower : '='.isLower = false ∧ '/'.isLower = false ∧ ' '.isLower = false ∧
    '>'.isLower = false := by
  decide

theorem run_cons {place next last : Place} {c : Char} {cs : List Char} {xs ys : List Part}
    (hc : place.step c = some (xs, next)) (hcs : next.run cs = some (ys, last)) :
    place.run (c :: cs) = some (xs ++ ys, last) := by
  simp [run, hc, hcs]

theorem run_append {place next last : Place} {a b : List Char} {xs ys : List Part}
    (ha : place.run a = some (xs, next)) (hb : next.run b = some (ys, last)) :
    place.run (a ++ b) = some (xs ++ ys, last) := by
  induction a generalizing place xs with
  | nil =>
      cases ha
      simpa using hb
  | cons c a ih =>
      cases hstep : place.step c with
      | none =>
          simp [run, hstep] at ha
      | some result =>
          simp only [run, hstep, Option.map_eq_some_iff] at ha
          obtain ⟨⟨others, place'⟩, hrun, heq⟩ := ha
          cases heq
          simp [run, hstep, ih hrun]

theorem run_collect (ok : Char → Prop) {place : String → Place}
    (hstep : ∀ read c, ok c → (place read).step c = some ([], place (read.push c)))
    (read : String) {cs : List Char} (hcs : ∀ c ∈ cs, ok c) :
    (place read).run cs = some ([], place (String.ofList (read.toList ++ cs))) := by
  induction cs generalizing read with
  | nil =>
      simp [run]
  | cons c cs ih =>
      have hc : ok c := hcs c List.mem_cons_self
      have hrest := ih (read.push c) fun d hd => hcs d (List.mem_cons_of_mem c hd)
      have hread : (read.push c).toList ++ cs = read.toList ++ c :: cs := by
        simp
      rw [hread] at hrest
      exact run_cons (hstep read c hc) hrest

theorem run_collect_all (ok : Char → Prop) {place : String → Place}
    (hstep : ∀ read c, ok c → (place read).step c = some ([], place (read.push c)))
    {word : String} (hword : ∀ c ∈ word.toList, ok c) :
    (place "").run word.toList = some ([], place word) := by
  simpa using run_collect ok hstep "" hword

theorem run_writeAttribute {name : String} {attributes : List (String × String)}
    {entry : String × String} (hname : IsName entry.1) (hvalue : IsValue entry.2) :
    (behind name attributes).run (writeAttribute entry) =
      some ([], behind name (attributes ++ [entry])) := by
  have hkey : (key name attributes "").run entry.1.toList =
      some ([], key name attributes entry.1) :=
    run_collect_all (fun c => c.isLower = true)
      (fun read c hc => by simp [step, hc]) hname.2
  have hread : (value name attributes entry.1 "").run entry.2.toList =
      some ([], value name attributes entry.1 entry.2) :=
    run_collect_all (fun c => c ≠ '"' ∧ c ≠ '<' ∧ c ≠ '>')
      (fun read c hc => by simp [step, hc]) hvalue
  have hend : (value name attributes entry.1 entry.2).run ['"'] =
      some ([], behind name (attributes ++ [entry])) := by
    simp [run, step]
  have hequals : (key name attributes entry.1).step '=' =
      some ([], equals name attributes entry.1) := by
    simp [step, hname.1, not_isLower]
  have hquote : (equals name attributes entry.1).step '"' =
      some ([], value name attributes entry.1 "") := by
    simp [step]
  have hspace : (behind name attributes).step ' ' = some ([], key name attributes "") := by
    simp [step]
  exact run_cons hspace (run_append hkey (run_cons hequals (run_cons hquote
    (run_append hread hend))))

theorem run_writeAttributes {name : String} {attributes : List (String × String)}
    (before : List (String × String))
    (h : ∀ entry ∈ attributes, IsName entry.1 ∧ IsValue entry.2) :
    (behind name before).run (attributes.flatMap writeAttribute) =
      some ([], behind name (before ++ attributes)) := by
  induction attributes generalizing before with
  | nil =>
      simp [run]
  | cons entry rest ih =>
      have hentry := h entry List.mem_cons_self
      have hrest := ih (before ++ [entry]) fun other hother =>
        h other (List.mem_cons_of_mem entry hother)
      rw [List.append_assoc, List.singleton_append] at hrest
      exact run_append (run_writeAttribute hentry.1 hentry.2) hrest

/-- Behind a name a tag goes on as it does behind an attribute. -/
theorem run_opening_eq {name : String} (hname : name ≠ "") (attributes : List (String × String)) :
    (opening name).run (attributes.flatMap writeAttribute ++ ['>']) =
      (behind name []).run (attributes.flatMap writeAttribute ++ ['>']) := by
  cases attributes with
  | nil =>
      simp [run, step, hname, not_isLower]
  | cons entry rest =>
      simp [run, step, hname, writeAttribute, not_isLower]

theorem run_write {part : Part} (h : part.Proper) :
    outside.run part.write = some ([part], .outside) := by
  cases part with
  | char c =>
      simp [Part.write, run, step, h.1, h.2]
  | opening name attributes =>
      have hstart : outside.step '<' = some ([], .opening "") := by
        simp [step]
      have hname : (opening "").run name.toList = some ([], .opening name) :=
        run_collect_all (fun c => c.isLower = true)
          (fun read c hc => by simp [step, hc]) h.1.2
      have hend : (behind name attributes).run ['>'] =
          some ([.opening name attributes], .outside) := by
        simp [run, step]
      have hrest := run_append (run_writeAttributes [] h.2) hend
      rw [List.nil_append, ← run_opening_eq h.1.1] at hrest
      rw [Part.write, List.append_assoc]
      exact run_cons hstart (run_append hname hrest)
  | closing name =>
      have hstart : outside.step '<' = some ([], .opening "") := by
        simp [step]
      have hslash : (opening "").step '/' = some ([], .closing "") := by
        simp [step, not_isLower]
      have hname : (closing "").run name.toList = some ([], .closing name) :=
        run_collect_all (fun c => c.isLower = true)
          (fun read c hc => by simp [step, hc]) h.2
      have hend : (closing name).run ['>'] = some ([.closing name], .outside) := by
        simp [run, step, h.1, not_isLower]
      exact run_cons hstart (run_cons hslash (run_append hname hend))

theorem run_flatMap_write {parts : List Part} (h : ∀ part ∈ parts, part.Proper) :
    outside.run (parts.flatMap Part.write) = some (parts, .outside) := by
  induction parts with
  | nil =>
      rfl
  | cons part rest ih =>
      have hrest := ih fun other hother => h other (List.mem_cons_of_mem part hother)
      exact run_append (run_write (h part List.mem_cons_self)) hrest

end Place

def Part.scan (cs : List Char) : Option (List Part) :=
  match Place.outside.run cs with
  | some (parts, .outside) => some parts
  | _ => none

theorem Part.scan_eq_some_iff {cs : List Char} {parts : List Part} :
    Part.scan cs = some parts ↔
      parts.flatMap Part.write = cs ∧ ∀ part ∈ parts, part.Proper := by
  constructor
  · intro h
    unfold Part.scan at h
    split at h
    · rename_i hrun
      cases h
      have hstart : Place.outside.Proper := trivial
      simpa [Place.written, eq_comm] using Place.run_sound hstart hrun
    · cases h
  · intro h
    rcases h with ⟨rfl, hproper⟩
    simp [Part.scan, Place.run_flatMap_write hproper]

end Html
end Highlighting
