import Highlighting.Proofs.Json.Numbers
import Highlighting.Proofs.Json.Values

/-!
# Longer texts

What a scanner has read does not change when the text goes on behind it, provided that it knew where
to stop: a string, a bracket and a name end by themselves, and a number ends in front of a character
that no number goes on with. So a scanner that accepts the beginning of a text has read it to the
same end in the whole text.
-/

namespace Highlighting
namespace Json

/-! ## Blanks -/

theorem skipBlanks_append_of_cons {cs rest : List Char} {c : Char}
    (h : skipBlanks cs = c :: rest) (tail : List Char) :
    skipBlanks (cs ++ tail) = c :: (rest ++ tail) := by
  induction cs with
  | nil =>
      cases h
  | cons d cs ih =>
      cases hd : isBlank d with
      | true =>
          have hskip : ∀ ds, skipBlanks (d :: ds) = skipBlanks ds := by
            intro ds
            simp [skipBlanks, hd]
          rw [hskip] at h
          rw [List.cons_append, hskip, ih h]
      | false =>
          rw [skipBlanks_cons hd] at h
          obtain ⟨rfl, rfl⟩ := List.cons.inj h
          exact skipBlanks_cons hd (cs ++ tail)

theorem skipBlanks_append_of_ne_nil {cs : List Char} (h : skipBlanks cs ≠ []) (tail : List Char) :
    skipBlanks (cs ++ tail) = skipBlanks cs ++ tail := by
  obtain ⟨c, rest, hcs⟩ := List.exists_cons_of_ne_nil h
  rw [skipBlanks_append_of_cons hcs, hcs, List.cons_append]

/-! ## Strings -/

theorem map_eq_ok {α β : Type} {f : α × List Char → β × List Char} {scanned : Scanned α}
    {read : β × List Char} (h : Except.map f scanned = .ok read) :
    ∃ inner, scanned = .ok inner ∧ f inner = read := by
  cases scanned with
  | error fault =>
      cases h
  | ok inner =>
      exact ⟨inner, rfl, Except.ok.inj h⟩

theorem cons_eq_ok {piece : Piece} {scanned : Scanned (List Piece)} {pieces : List Piece}
    {rest : List Char} (h : scanned.cons piece = .ok (pieces, rest)) :
    ∃ others, scanned = .ok (others, rest) ∧ pieces = piece.cons others := by
  cases scanned with
  | error fault =>
      cases h
  | ok read =>
      cases h
      exact ⟨read.1, rfl, rfl⟩

theorem scanPieces_append {opening cs rest : List Char} {pieces : List Piece}
    (h : scanPieces opening cs = .ok (pieces, rest)) (opening' tail : List Char) :
    scanPieces opening' (cs ++ tail) = .ok (pieces, rest ++ tail) := by
  fun_induction scanPieces opening cs generalizing pieces rest with
  | case2 cs =>
      cases h
      rfl
  | case4 a b c d n e cs hunit ih =>
      obtain ⟨others, hothers, rfl⟩ := cons_eq_ok h
      rw [List.cons_append, List.cons_append, List.cons_append, List.cons_append, List.cons_append,
        List.cons_append, scanPieces_unit opening' hunit (by simp), ih hothers]
      rfl
  | case7 c cs _ hu escaped hescape ih =>
      obtain ⟨others, hothers, rfl⟩ := cons_eq_ok h
      rw [List.cons_append, List.cons_append, scanPieces_shortEscape opening' hu hescape,
        ih hothers]
      rfl
  | case10 c cs hquote hlast _ _ hescape hcontrol ih =>
      obtain ⟨others, hothers, rfl⟩ := cons_eq_ok h
      have hbackslash : c ≠ '\\' := by
        intro hc
        cases cs with
        | nil =>
            exact hlast hc rfl
        | cons d cs =>
            exact hescape d cs hc rfl
      rw [List.cons_append, scanPieces_cons opening' hquote hbackslash (Nat.le_of_not_lt hcontrol),
        ih hothers]
      rfl
  | _ =>
      cases h

theorem scanString_append {opening cs rest : List Char} {text : String}
    (h : scanString opening cs = .ok (text, rest)) (opening' tail : List Char) :
    scanString opening' (cs ++ tail) = .ok (text, rest ++ tail) := by
  unfold scanString at h ⊢
  cases hpieces : scanPieces opening cs with
  | error fault =>
      rw [hpieces] at h
      cases h
  | ok read =>
      rw [hpieces] at h
      cases h
      rw [scanPieces_append hpieces opening' tail]
      rfl

/-! ## Items and fields -/

/--
Reads that another scanner repeats on every longer text. A number has to end in front of a character
that it cannot go on with.
-/
structure Extends (scan scan' : List Char → Scanned Value) : Prop where
  ne_nil : ∀ {cs read}, scan cs = .ok read → cs ≠ []
  append : ∀ {cs rest value}, scan cs = .ok (value, rest) →
    (BeginsNumber cs → EndsNumber rest) → ∀ tail, scan' (cs ++ tail) = .ok (value, rest ++ tail)

theorem EndsNumber.of_skipBlanks {cs rest : List Char} {c : Char}
    (h : skipBlanks cs = c :: rest) (hc : continuesNumber c = false) : EndsNumber cs := by
  cases cs with
  | nil =>
      cases h
  | cons d cs =>
      cases hd : isBlank d with
      | true =>
          refine ⟨d, cs, rfl, ?_⟩
          simp only [isBlank, Bool.or_eq_true, beq_iff_eq] at hd
          rcases hd with ((rfl | rfl) | rfl) | rfl <;> decide
      | false =>
          rw [skipBlanks_cons hd] at h
          obtain ⟨rfl, _⟩ := List.cons.inj h
          exact ⟨d, cs, rfl, hc⟩

section Containers

variable {scan scan' : List Char → Scanned Value} {cs rest : List Char}

theorem scanItems_ne_nil (hscan : Extends scan scan') {budget : Nat}
    {read : List Value × List Char} (h : scanItems scan budget cs = .ok read) : cs ≠ [] := by
  cases budget with
  | zero =>
      cases h
  | succ budget =>
      cases hitem : scan cs with
      | error fault =>
          rw [scanItems, hitem] at h
          cases h
      | ok item =>
          exact hscan.ne_nil hitem

theorem scanItems_append (hscan : Extends scan scan') {budget budget' : Nat}
    (hbudget : budget ≤ budget') {values : List Value}
    (h : scanItems scan budget cs = .ok (values, rest)) (tail : List Char) :
    scanItems scan' budget' (cs ++ tail) = .ok (values, rest ++ tail) := by
  induction budget generalizing budget' cs values with
  | zero =>
      cases h
  | succ budget ih =>
      obtain ⟨budget', rfl⟩ := Nat.exists_eq_add_of_lt hbudget
      rw [scanItems] at h
      split at h
      · cases h
      rename_i value behind hitem
      split at h
      · rename_i after hbehind
        cases h
        have hends := EndsNumber.of_skipBlanks hbehind (by decide)
        exact scanItems_last (hscan.append hitem (fun _ => hends) tail)
          (skipBlanks_append_of_cons hbehind tail)
      · rename_i after hbehind
        obtain ⟨others, hothers, hread⟩ := map_eq_ok h
        obtain ⟨rfl, rfl⟩ := Prod.mk.inj hread
        have hends := EndsNumber.of_skipBlanks hbehind (by decide)
        have hrest := ih (Nat.le_add_right budget budget') hothers
        rw [scanItems_more (hscan.append hitem (fun _ => hends) tail)
          (skipBlanks_append_of_cons hbehind tail),
          skipBlanks_append_of_ne_nil (scanItems_ne_nil hscan hothers), hrest]
        rfl
      · cases h

theorem scanField_ne_nil {read : (String × Value) × List Char}
    (h : scanField scan cs = .ok read) : cs ≠ [] := by
  intro h
  rcases h with rfl
  cases h

theorem scanField_append (hscan : Extends scan scan') {field : String × Value}
    (h : scanField scan cs = .ok (field, rest)) (hrest : EndsNumber rest) (tail : List Char) :
    scanField scan' (cs ++ tail) = .ok (field, rest ++ tail) := by
  unfold scanField at h
  split at h
  · rename_i opened
    split at h
    · cases h
    rename_i name behind hname
    split at h
    · rename_i after hbehind
      obtain ⟨⟨value, last⟩, hvalue, hread⟩ := map_eq_ok h
      obtain ⟨rfl, rfl⟩ := Prod.mk.inj hread
      have hcolon := skipBlanks_append_of_cons hbehind tail
      have hafter := hscan.append hvalue (fun _ => hrest) tail
      rw [← skipBlanks_append_of_ne_nil (hscan.ne_nil hvalue)] at hafter
      simp only [List.cons_append, scanField, scanString_append hname, hcolon, hafter]
      rfl
    · cases h
  · cases h

theorem scanFields_ne_nil {budget : Nat} {read : List (String × Value) × List Char}
    (h : scanFields scan budget cs = .ok read) : cs ≠ [] := by
  cases budget with
  | zero =>
      cases h
  | succ budget =>
      cases hfield : scanField scan cs with
      | error fault =>
          rw [scanFields, hfield] at h
          cases h
      | ok field =>
          exact scanField_ne_nil hfield

theorem scanFields_append (hscan : Extends scan scan') {budget budget' : Nat}
    (hbudget : budget ≤ budget') {fields : List (String × Value)}
    (h : scanFields scan budget cs = .ok (fields, rest)) (tail : List Char) :
    scanFields scan' budget' (cs ++ tail) = .ok (fields, rest ++ tail) := by
  induction budget generalizing budget' cs fields with
  | zero =>
      cases h
  | succ budget ih =>
      obtain ⟨budget', rfl⟩ := Nat.exists_eq_add_of_lt hbudget
      rw [scanFields] at h
      split at h
      · cases h
      rename_i field behind hfield
      split at h
      · rename_i after hbehind
        cases h
        have hends := EndsNumber.of_skipBlanks hbehind (by decide)
        exact scanFields_last (scanField_append hscan hfield hends tail)
          (skipBlanks_append_of_cons hbehind tail)
      · rename_i after hbehind
        obtain ⟨others, hothers, hread⟩ := map_eq_ok h
        obtain ⟨rfl, rfl⟩ := Prod.mk.inj hread
        have hends := EndsNumber.of_skipBlanks hbehind (by decide)
        have hrest := ih (Nat.le_add_right budget budget') hothers
        rw [scanFields_more (scanField_append hscan hfield hends tail)
          (skipBlanks_append_of_cons hbehind tail),
          skipBlanks_append_of_ne_nil (scanFields_ne_nil hothers), hrest]
        rfl
      · cases h

theorem append_ne_cons {c : Char} (hne : cs ≠ []) (h : ∀ rest, cs = c :: rest → False)
    (tail behind : List Char) : cs ++ tail ≠ c :: behind := by
  obtain ⟨d, rest, rfl⟩ := List.exists_cons_of_ne_nil hne
  intro heq
  exact h rest (by rw [(List.cons.inj heq).1])

theorem scanList_append (hscan : Extends scan scan') {value : Value}
    (h : scanList scan cs = .ok (value, rest)) (tail : List Char) :
    scanList scan' (cs ++ tail) = .ok (value, rest ++ tail) := by
  unfold scanList at h
  split at h
  · rename_i after hcs
    cases h
    rw [scanList, skipBlanks_append_of_cons hcs]
    rfl
  · rename_i hbracket
    obtain ⟨⟨values, last⟩, hvalues, hread⟩ := map_eq_ok h
    obtain ⟨rfl, rfl⟩ := Prod.mk.inj hread
    have hne := scanItems_ne_nil hscan hvalues
    rw [scanList_of_ne (skipBlanks_append_of_ne_nil hne tail) (append_ne_cons hne hbracket tail),
      scanItems_append hscan (by simp) hvalues]
    rfl

theorem scanObject_append (hscan : Extends scan scan') {value : Value}
    (h : scanObject scan cs = .ok (value, rest)) (tail : List Char) :
    scanObject scan' (cs ++ tail) = .ok (value, rest ++ tail) := by
  unfold scanObject at h
  split at h
  · rename_i after hcs
    cases h
    rw [scanObject, skipBlanks_append_of_cons hcs]
    rfl
  · rename_i hbracket
    obtain ⟨⟨fields, last⟩, hfields, hread⟩ := map_eq_ok h
    obtain ⟨rfl, rfl⟩ := Prod.mk.inj hread
    have hne := scanFields_ne_nil hfields
    rw [scanObject_of_ne (skipBlanks_append_of_ne_nil hne tail)
      (append_ne_cons hne hbracket tail), scanFields_append hscan (by simp) hfields]
    rfl

end Containers

theorem scanValue_extends {depth depth' : Nat} (h : depth ≤ depth') :
    Extends (scanValue depth) (scanValue depth') := by
  -- Only a number looks at the character behind it; brackets, quotes and names end by themselves.
  induction depth generalizing depth' with
  | zero =>
      constructor
      · intro cs read hread
        cases hread
      · intro cs rest value hread
        cases hread
  | succ depth ih =>
      obtain ⟨depth', rfl⟩ := Nat.exists_eq_add_of_lt h
      have hinner := ih (Nat.le_add_right depth depth')
      constructor
      · intro cs read hread h
        rcases h with rfl
        cases hread
      · intro cs rest value hread hnumber tail
        unfold scanValue at hread
        split at hread
        case h_1 =>
          obtain ⟨⟨text, behind⟩, htext, hread⟩ := map_eq_ok hread
          obtain ⟨rfl, rfl⟩ := Prod.mk.inj hread
          rw [List.cons_append, scanValue, scanString_append htext]
          rfl
        case h_2 =>
          exact scanList_append hinner hread tail
        case h_3 =>
          exact scanObject_append hinner hread tail
        case h_10 =>
          split at hread
          · rename_i read hread'
            cases hread
            have hends := hnumber (beginsNumber_of_scanNumber hread')
            exact scanValue_number (scanNumber_append hread' hends tail) (depth + depth')
          · cases hread
        all_goals
          cases hread
          rfl

/-! ## Whole texts -/

theorem not_beginsNumber_of_mem_leads {c : Char} (h : c ∈ leads) (cs : List Char) :
    ¬ BeginsNumber (c :: cs) := by
  have hleads : ∀ d ∈ leads, ¬ (isDigit d = true ∨ d = '-') := by
    simp [leads, isDigit, Numeral.digit?]
  intro h
  rcases h with ⟨d, rest, heq, hd⟩
  rw [(List.cons.inj heq).1] at h
  exact hleads d h hd

theorem scanText_eq_ok {cs : List Char} {value : Value} (h : scanText cs = .ok value) :
    ∃ rest, scanValue (cs.length + 1) (skipBlanks cs) = .ok (value, rest) ∧
      skipBlanks rest = [] := by
  unfold scanText at h
  split at h
  · cases h
  split at h
  · cases h
  · rename_i read rest hvalue
    split at h
    · rename_i hrest
      cases h
      exact ⟨rest, hvalue, hrest⟩
    · cases h

/-- A text that breaks off inside a printed value is not the text of any value. -/
theorem scanText_of_cut {value : Value} (h : Readable value) {layout : Layout}
    {front behind : List Char} (hcut : front ++ behind = printAt layout 0 value)
    (hne : behind ≠ []) : ∃ fault, scanText front = .error fault := by
  -- A value read in front of the cut would be read in the whole text too, with the part behind the
  -- cut left over; but the whole text is read to its end.
  cases hread : scanText front with
  | error fault =>
      exact ⟨fault, rfl⟩
  | ok read =>
      obtain ⟨rest, hvalue, -⟩ := scanText_eq_ok hread
      cases front with
      | nil =>
          cases hvalue
      | cons c front =>
          obtain ⟨d, cs, hhead, hlead⟩ := printAt_head h layout 0
          have hfirst : c = d := List.head_eq_of_cons_eq (hcut.trans hhead)
          rw [← hfirst] at hlead
          rw [skipBlanks_cons (isBlank_of_mem_leads c hlead)] at hvalue
          have hnumber : ¬ BeginsNumber (c :: front) := not_beginsNumber_of_mem_leads hlead front
          have hlength : (c :: front).length ≤ (printAt layout 0 value).length := by
            rw [← hcut, List.length_append]
            exact Nat.le_add_right _ _
          have hlonger := (scanValue_extends (Nat.succ_le_succ hlength)).append hvalue
            (fun hbegins => absurd hbegins hnumber) behind
          have hwhole := scanValue_printAt h layout 0 (Nat.le_succ _) []
          rw [List.append_nil, ← hcut] at hwhole
          rw [← hcut, hwhole] at hlonger
          have hrest := congrArg Prod.snd (Except.ok.inj hlonger)
          exact absurd (List.append_eq_nil_iff.mp hrest.symm).2 hne

end Json
end Highlighting
