import Highlighting.Data.Assoc
import Mathlib.Data.List.Forall2
import Mathlib.Data.List.Induction

/-!
# Laws of association lists

Ordering the pairs by key moves them, but changes no look-up. Collecting pairs shows every key at its
first place with its last value, and gives pairs whose keys are all different back. A table is
determined by the order of its keys and their values.
-/

namespace Highlighting
namespace Assoc

/-! ## Ordering by key -/

section Sorting

variable {α : Type}

theorem find?_insertSorted (key : String) (entry : String × α) (entries : List (String × α)) :
    find? key (insertSorted entry entries) = find? key (entry :: entries) := by
  induction entries with
  | nil =>
      rfl
  | cons first rest ih =>
      rw [insertSorted]
      split
      · rename_i hlt
        have hne : first.1 ≠ entry.1 := String.ne_of_lt hlt
        rw [find?, ih, find?, find?, find?]
        by_cases hfirst : first.1 = key
        · have hentry : entry.1 ≠ key := fun heq => hne (hfirst.trans heq.symm)
          rw [if_pos hfirst, if_neg hentry, if_pos hfirst]
        · rw [if_neg hfirst, if_neg hfirst]
      · rfl

theorem find?_sortByKey (key : String) (entries : List (String × α)) :
    find? key (sortByKey entries) = find? key entries := by
  induction entries with
  | nil =>
      rfl
  | cons entry rest ih =>
      rw [sortByKey, find?_insertSorted, find?, find?, ih]

theorem insertSorted_perm (entry : String × α) (entries : List (String × α)) :
    (insertSorted entry entries).Perm (entry :: entries) := by
  induction entries with
  | nil =>
      exact List.Perm.refl _
  | cons first rest ih =>
      rw [insertSorted]
      split
      · exact (ih.cons first).trans (List.Perm.swap entry first rest)
      · exact List.Perm.refl _

theorem sortByKey_perm (entries : List (String × α)) : (sortByKey entries).Perm entries := by
  induction entries with
  | nil =>
      exact List.Perm.refl _
  | cons entry rest ih =>
      exact (insertSorted_perm entry (sortByKey rest)).trans (ih.cons entry)

theorem keys_sortByKey_perm (entries : List (String × α)) :
    (keys (sortByKey entries)).Perm (keys entries) :=
  (sortByKey_perm entries).map Prod.fst

theorem sortTexts_perm (texts : List String) : (sortTexts texts).Perm texts := by
  have hpairs := (sortByKey_perm (texts.map fun text => (text, ()))).map Prod.fst
  simpa [sortTexts, Function.comp_def] using hpairs

theorem pairwise_insertSorted (entry : String × α) {entries : List (String × α)}
    (h : entries.Pairwise fun first second => first.1 ≤ second.1) :
    (insertSorted entry entries).Pairwise fun first second => first.1 ≤ second.1 := by
  induction entries with
  | nil =>
      exact List.pairwise_singleton _ entry
  | cons first rest ih =>
      rcases List.pairwise_cons.mp h with ⟨hfirst, hrest⟩
      rw [insertSorted]
      split
      · rename_i hlt
        apply List.pairwise_cons.mpr
        constructor
        · intro other hother
          rcases List.mem_cons.mp ((insertSorted_perm entry rest).mem_iff.mp hother) with heq | hmem
          · rw [heq]
            exact String.not_lt.mp (String.lt_asymm hlt)
          · exact hfirst other hmem
        · exact ih hrest
      · rename_i hlt
        have hle : entry.1 ≤ first.1 := String.not_lt.mp hlt
        apply List.pairwise_cons.mpr
        constructor
        · intro other hother
          rcases List.mem_cons.mp hother with heq | hmem
          · rw [heq]
            exact hle
          · exact String.le_trans hle (hfirst other hmem)
        · exact h

theorem pairwise_sortByKey (entries : List (String × α)) :
    (sortByKey entries).Pairwise fun first second => first.1 ≤ second.1 := by
  induction entries with
  | nil =>
      exact List.Pairwise.nil
  | cons entry rest ih =>
      exact pairwise_insertSorted entry ih

theorem pairwise_sortTexts (texts : List String) : (sortTexts texts).Pairwise (· ≤ ·) :=
  List.pairwise_map.mpr (pairwise_sortByKey _)

theorem sortTexts_eq_of_perm {first second : List String} (h : first.Perm second) :
    sortTexts first = sortTexts second := by
  apply List.Perm.eq_of_pairwise _ (pairwise_sortTexts first) (pairwise_sortTexts second)
  · exact ((sortTexts_perm first).trans h).trans (sortTexts_perm second).symm
  · intro a b _ _ hab hba
    exact String.le_antisymm hab hba

end Sorting

/-! ## Different keys -/

section Distinct

variable {κ α : Type} [DecidableEq κ]

theorem insert_of_not_mem {key : κ} {entries : List (κ × α)} (h : key ∉ keys entries) (value : α) :
    insert key value entries = entries ++ [(key, value)] := by
  induction entries with
  | nil =>
      rfl
  | cons entry rest ih =>
      have hentry : entry.1 ≠ key := fun heq => h (by simp [keys, heq])
      have hrest : key ∉ keys rest := fun hmem => h (List.mem_cons_of_mem _ hmem)
      rw [insert, if_neg hentry, ih hrest, List.cons_append]

theorem foldl_insert_of_nodup {entries start : List (κ × α)}
    (h : (keys (start ++ entries)).Nodup) :
    entries.foldl (fun collected entry => insert entry.1 entry.2 collected) start =
      start ++ entries := by
  induction entries generalizing start with
  | nil =>
      simp
  | cons entry rest ih =>
      have hmem : entry.1 ∉ keys start := by
        intro hmem
        rw [keys, List.map_append, List.nodup_append] at h
        exact h.2.2 entry.1 hmem entry.1 (by simp) rfl
      have hstep : start ++ entry :: rest = (start ++ [entry]) ++ rest := by
        simp
      rw [hstep] at h ⊢
      rw [List.foldl_cons, insert_of_not_mem hmem, ih h]

theorem find?_eq_of_perm {first second : List (κ × α)} (h : first.Perm second)
    (hnodup : (keys first).Nodup) (key : κ) : find? key first = find? key second := by
  induction h with
  | nil =>
      rfl
  | cons entry hrest ih =>
      rw [find?, find?, ih (List.nodup_cons.mp hnodup).2]
  | swap entry other rest =>
      have hkeys : other.1 ≠ entry.1 := by
        intro heq
        exact (List.nodup_cons.mp hnodup).1 (List.mem_cons.mpr (Or.inl heq))
      rw [find?, find?, find?, find?]
      by_cases hother : other.1 = key
      · have hentry : entry.1 ≠ key := fun heq => hkeys (hother.trans heq.symm)
        rw [if_pos hother, if_neg hentry, if_pos hother]
      · rw [if_neg hother, if_neg hother]
  | trans hfirst hsecond ih ih' =>
      have hmiddle := (hfirst.map Prod.fst).nodup hnodup
      exact (ih hnodup).trans (ih' hmiddle)

theorem find?_append (key : κ) (first second : List (κ × α)) :
    find? key (first ++ second) = (find? key first).or (find? key second) := by
  induction first with
  | nil =>
      rfl
  | cons entry rest ih =>
      rw [List.cons_append, find?, find?, ih]
      split
      · rfl
      · rfl

theorem find?_append_cons_of_ne {key : κ} {entry : κ × α} (h : entry.1 ≠ key)
    (before after : List (κ × α)) :
    find? key (before ++ entry :: after) = find? key (before ++ after) := by
  rw [find?_append, find?_append, find?, if_neg h]

theorem ofList_of_nodup {entries : List (κ × α)} (h : (keys entries).Nodup) :
    ofList entries = entries := by
  have hnil : (keys ([] ++ entries)).Nodup := h
  simpa [ofList] using foldl_insert_of_nodup hnil

end Distinct

/-! ## Collected pairs -/

section Collecting

variable {κ α : Type} [DecidableEq κ]

theorem ofList_concat (entries : List (κ × α)) (entry : κ × α) :
    ofList (entries ++ [entry]) = insert entry.1 entry.2 (ofList entries) := by
  rw [ofList, List.foldl_append]
  rfl

theorem keys_ofList (entries : List (κ × α)) :
    keys (ofList entries) = (keys entries).eraseDups := by
  induction entries using List.reverseRecOn with
  | nil =>
      rfl
  | append_singleton entries entry ih =>
      have hkeys : keys (entries ++ [entry]) = keys entries ++ [entry.1] := by
        simp [keys]
      rw [ofList_concat, keys_insert, ih, hkeys, List.eraseDups_append]
      by_cases hmem : entry.1 ∈ keys entries
      · simp [hmem, List.removeAll]
      · simp [hmem, List.removeAll, List.eraseDups_cons]

theorem find?_ofList (key : κ) (entries : List (κ × α)) :
    find? key (ofList entries) = entries.reverse.lookup key := by
  induction entries using List.reverseRecOn with
  | nil =>
      rfl
  | append_singleton entries entry ih =>
      rw [ofList_concat, find?_insert, ih, List.reverse_append, List.reverse_singleton,
        List.singleton_append, List.lookup_cons]
      by_cases hkey : entry.1 = key
      · simp [hkey]
      · have hne : (key == entry.1) = false := by
          simpa using fun heq => hkey heq.symm
        rw [if_neg hkey, hne]

/-- Pairs behind a pair go before it, and it goes before the pairs in front of it. -/
theorem find?_ofList_append_cons (before after : List (κ × α)) (entry : κ × α) (key : κ) :
    find? key (ofList (before ++ entry :: after)) =
      (find? key (ofList after)).or
        (if entry.1 = key then some entry.2 else find? key (ofList before)) := by
  rw [find?_ofList, find?_ofList, find?_ofList, List.reverse_append, List.reverse_cons,
    List.append_assoc, List.lookup_append, List.singleton_append, List.lookup_cons]
  by_cases hkey : entry.1 = key
  · simp [hkey]
  · have hne : (key == entry.1) = false := by
      simpa using fun heq => hkey heq.symm
    rw [hne, if_neg hkey]

theorem find?_eq_none_of_not_mem {key : κ} {entries : List (κ × α)} (h : key ∉ keys entries) :
    find? key entries = none := by
  induction entries with
  | nil =>
      rfl
  | cons entry rest ih =>
      have hentry : entry.1 ≠ key := fun heq => h (by simp [keys, heq])
      have hrest : key ∉ keys rest := fun hmem => h (List.mem_cons_of_mem _ hmem)
      rw [find?, if_neg hentry, ih hrest]

theorem find?_ofList_of_not_mem {key : κ} {entries : List (κ × α)}
    (h : ∀ value, (key, value) ∉ entries) : find? key (ofList entries) = none := by
  apply find?_eq_none_of_not_mem
  rw [keys_ofList, List.mem_eraseDups]
  intro hmem
  rcases List.mem_map.mp hmem with ⟨entry, hentry, rfl⟩
  exact h entry.2 hentry

theorem find?_ofList_of_last (before after : List (κ × α)) {key : κ} (value : α)
    (h : ∀ other, (key, other) ∉ after) :
    find? key (ofList (before ++ (key, value) :: after)) = some value := by
  rw [find?_ofList_append_cons, find?_ofList_of_not_mem h, if_pos rfl]
  rfl

/-- Pairs without repeated keys are determined by the order of the keys and their values. -/
theorem eq_of_find? {first second : List (κ × α)} (hnodup : (keys first).Nodup)
    (hkeys : keys first = keys second) (hfind : ∀ key, find? key first = find? key second) :
    first = second := by
  induction first generalizing second with
  | nil =>
      cases second with
      | nil =>
          rfl
      | cons entry rest =>
          cases hkeys
  | cons entry rest ih =>
      cases second with
      | nil =>
          cases hkeys
      | cons entry' rest' =>
          obtain ⟨hkey, hrest⟩ := List.cons.inj hkeys
          obtain ⟨hfresh, hnodup⟩ := List.nodup_cons.mp hnodup
          have hvalue : some entry.2 = some entry'.2 := by
            simpa [find?, hkey] using hfind entry.1
          have hothers : ∀ key, find? key rest = find? key rest' := by
            intro key
            by_cases hsame : entry.1 = key
            · have hfresh' : entry.1 ∉ keys rest' := by
                rwa [keys, ← hrest]
              rw [← hsame, find?_eq_none_of_not_mem hfresh, find?_eq_none_of_not_mem hfresh']
            · have hsame' : entry'.1 ≠ key := by
                rwa [← hkey]
              simpa [find?, hsame, hsame'] using hfind key
          rw [ih hnodup hrest hothers, Prod.ext hkey (Option.some.inj hvalue)]

end Collecting

/-! ## Related pairs -/

section Related

variable {κ κ' α β : Type} [DecidableEq κ] [DecidableEq κ'] {R : κ × α → κ' × β → Prop}

/-- A relation between pairs under which the same keys go with the same keys. -/
def RespectsKeys (R : κ × α → κ' × β → Prop) : Prop :=
  ∀ x y x' y', R x y → R x' y' → (x.1 = x'.1 ↔ y.1 = y'.1)

theorem forall₂_insert (hkeys : RespectsKeys R) {x : κ × α} {y : κ' × β} (h : R x y)
    {xs : List (κ × α)} {ys : List (κ' × β)} (hrest : List.Forall₂ R xs ys) :
    List.Forall₂ R (insert x.1 x.2 xs) (insert y.1 y.2 ys) := by
  induction hrest with
  | nil =>
      exact .cons h .nil
  | @cons x' y' xs ys h' hrest ih =>
      rw [insert, insert]
      by_cases hkey : x'.1 = x.1
      · have hkey' := (hkeys x' y' x y h' h).mp hkey
        rw [if_pos hkey, if_pos hkey', hkey, hkey']
        exact .cons h hrest
      · have hkey' := fun heq => hkey ((hkeys x' y' x y h' h).mpr heq)
        rw [if_neg hkey, if_neg hkey']
        exact .cons h' ih

/-- Collecting related pairs keeps them related, although some of them are overwritten. -/
theorem forall₂_ofList (hkeys : RespectsKeys R) {xs : List (κ × α)} {ys : List (κ' × β)}
    (h : List.Forall₂ R xs ys) : List.Forall₂ R (ofList xs) (ofList ys) := by
  have hfold : ∀ {start : List (κ × α)} {start' : List (κ' × β)}, List.Forall₂ R start start' →
      List.Forall₂ R (xs.foldl (fun collected entry => insert entry.1 entry.2 collected) start)
        (ys.foldl (fun collected entry => insert entry.1 entry.2 collected) start') := by
    induction h with
    | nil =>
        intro start start' hstart
        exact hstart
    | cons hxy hrest ih =>
        intro start start' hstart
        exact ih (forall₂_insert hkeys hxy hstart)
  exact hfold .nil

end Related
end Assoc

namespace Table

variable {κ α : Type} [DecidableEq κ]

theorem ofList_entries (table : Table κ α) : ofList table.entries = table := by
  cases table with
  | mk entries nodup =>
      simp [ofList, Assoc.ofList_of_nodup nodup]

theorem eq_ofList_iff (table : Table κ α) (entries : List (κ × α)) :
    table = ofList entries ↔
      Assoc.keys table.entries = (Assoc.keys entries).eraseDups ∧
        ∀ key, table.find? key = entries.reverse.lookup key := by
  constructor
  · intro h
    rcases h with rfl
    exact ⟨Assoc.keys_ofList entries, fun key => Assoc.find?_ofList key entries⟩
  · intro h
    rcases h with ⟨hkeys, hfind⟩
    have hentries : table.entries = Assoc.ofList entries := by
      apply Assoc.eq_of_find? table.nodup_keys
      · rw [hkeys, Assoc.keys_ofList]
      · intro key
        rw [Assoc.find?_ofList, ← hfind key]
        rfl
    cases table with
    | mk entries' nodup =>
        simpa [ofList] using hentries

end Table

end Highlighting
