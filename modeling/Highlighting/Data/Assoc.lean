/-!
# Association lists

Pairs of a key and a value in the order in which the keys first arrived. Giving a known key a new
value keeps its place, so a list filled from left to right shows every key at its first position
with its last value. A table is such a list in which no key is repeated.
-/

namespace Highlighting
namespace Assoc

variable {κ α : Type} [DecidableEq κ]

def keys (entries : List (κ × α)) : List κ :=
  entries.map Prod.fst

/-- Gives a key a value: a known key keeps its place, a new one goes to the end. -/
def insert (key : κ) (value : α) : List (κ × α) → List (κ × α)
  | [] => [(key, value)]
  | entry :: rest =>
      if entry.1 = key then (entry.1, value) :: rest else entry :: insert key value rest

/-- Collects pairs from left to right: first position, last value. -/
def ofList (entries : List (κ × α)) : List (κ × α) :=
  entries.foldl (fun collected entry => insert entry.1 entry.2 collected) []

def find? (key : κ) : List (κ × α) → Option α
  | [] => none
  | entry :: rest => if entry.1 = key then some entry.2 else find? key rest

/-! ## Keys after an insertion -/

theorem keys_insert (key : κ) (value : α) (entries : List (κ × α)) :
    keys (insert key value entries) =
      if key ∈ keys entries then keys entries else keys entries ++ [key] := by
  induction entries with
  | nil =>
      simp [insert, keys]
  | cons entry rest ih =>
      by_cases h : entry.1 = key
      · simp [insert, keys, h]
      · have hne : key ≠ entry.1 := fun heq => h heq.symm
        by_cases hmem : key ∈ keys rest
        · simp_all [insert, keys]
        · simp_all [insert, keys]

theorem nodup_keys_insert (key : κ) (value : α) {entries : List (κ × α)}
    (h : (keys entries).Nodup) : (keys (insert key value entries)).Nodup := by
  rw [keys_insert]
  split
  · exact h
  · rename_i hmem
    refine List.nodup_append.mpr ⟨h, by simp, ?_⟩
    intro a ha b hb heq
    simp only [List.mem_singleton] at hb
    subst hb
    subst heq
    exact hmem ha

theorem nodup_keys_foldl_insert (entries : List (κ × α)) {start : List (κ × α)}
    (h : (keys start).Nodup) :
    (keys (entries.foldl (fun collected entry => insert entry.1 entry.2 collected) start)).Nodup := by
  induction entries generalizing start with
  | nil =>
      exact h
  | cons entry rest ih =>
      exact ih (nodup_keys_insert entry.1 entry.2 h)

theorem nodup_keys_ofList (entries : List (κ × α)) : (keys (ofList entries)).Nodup :=
  nodup_keys_foldl_insert entries (by simp [keys])

/-! ## Look-up after an insertion -/

theorem find?_insert (key other : κ) (value : α) (entries : List (κ × α)) :
    find? other (insert key value entries) =
      if key = other then some value else find? other entries := by
  induction entries with
  | nil =>
      simp [insert, find?]
  | cons entry rest ih =>
      by_cases h : entry.1 = key
      · subst h
        by_cases ho : entry.1 = other <;> simp [insert, find?, ho]
      · rw [insert, if_neg h, find?, find?, ih]
        by_cases ho : entry.1 = other
        · have hne : key ≠ other := fun heq => h (ho.trans heq.symm)
          simp [ho, hne]
        · simp [ho]

/-! ## Ordering by key -/

def insertSorted (entry : String × α) : List (String × α) → List (String × α)
  | [] => [entry]
  | first :: rest =>
      if first.1 < entry.1 then first :: insertSorted entry rest else entry :: first :: rest

/-- Orders pairs by key, code point by code point. -/
def sortByKey : List (String × α) → List (String × α)
  | [] => []
  | entry :: rest => insertSorted entry (sortByKey rest)

def sortTexts (texts : List String) : List String :=
  (sortByKey (texts.map fun text => (text, ()))).map Prod.fst

end Assoc

structure Table (κ α : Type) where
  entries : List (κ × α)
  nodup_keys : (Assoc.keys entries).Nodup
  deriving DecidableEq, Hashable, Repr

namespace Table

variable {κ α : Type} [DecidableEq κ]

def ofList (entries : List (κ × α)) : Table κ α where
  entries := Assoc.ofList entries
  nodup_keys := Assoc.nodup_keys_ofList entries

def find? (table : Table κ α) (key : κ) : Option α :=
  Assoc.find? key table.entries

end Table
end Highlighting
