import Highlighting.Error
import Highlighting.Proofs.Data.Assoc
import Highlighting.Proofs.Data.Report

/-!
# Construction of themes

A theme is made of pairs that are put in one after the other. The first pair that is no category
with its style is reported, also where a later pair for the same category would have replaced it,
and the category is looked at before the style. When all pairs are proper, the theme has the
categories in the order in which they first occur, each with the style of its last pair. A mapping
filled with the same pairs makes the same theme, and so do the pairs of a theme.
-/

namespace Highlighting
namespace Theme

/-! ## Improper pairs -/

def properEntry (entry : Category × Style) : Entry :=
  (.fit entry.1, .fit entry.2)

theorem properEntry_injective : Function.Injective properEntry := by
  intro x y h
  exact Prod.ext (Candidate.fit.inj (congrArg Prod.fst h)) (Candidate.fit.inj (congrArg Prod.snd h))

def entryFaults (entry : Entry) : List EntryError :=
  entry.1.stray?.toList.map .key ++ entry.2.stray?.toList.map .style

theorem checkEntry_reports (entry : Entry) :
    Reports (checkEntry entry) (fun proper => entry = properEntry proper) (entryFaults entry) := by
  have hparts := (Candidate.check_reports EntryError.key entry.1).bind fun category =>
    (Candidate.check_reports EntryError.style entry.2).bind fun style =>
      Reports.result (category, style)
  rw [List.append_nil] at hparts
  apply hparts.congr
  · intro proper
    constructor
    · intro h
      rcases h with ⟨category, hcategory, style, hstyle, rfl⟩
      exact Prod.ext hcategory hstyle
    · intro h
      rw [h]
      exact ⟨proper.1, rfl, proper.2, rfl, rfl⟩
  · rfl

theorem mapM_checkEntry_reports (entries : List Entry) :
    Reports (entries.mapM checkEntry) (fun given => entries = given.map properEntry)
      (entries.flatMap entryFaults) := by
  apply (Reports.mapM checkEntry_reports entries).congr
  · intro given
    rw [← List.forall₂_eq_eq_eq, List.forall₂_map_right_iff]
  · rfl

theorem exists_map_properEntry_iff (entries : List Entry) :
    (∃ given : List (Category × Style), entries = given.map properEntry) ↔
      ∀ entry ∈ entries, entryFaults entry = [] := by
  have hreports := mapM_checkEntry_reports entries
  rw [← List.flatMap_eq_nil_iff, ← hreports.exists_ok_iff]
  simp only [hreports.ok_iff]

theorem head?_entryFaults_iff (entry : Entry) (e : EntryError) :
    (entryFaults entry).head? = some e ↔
      (∃ value, entry.1 = .stray value ∧ e = .key value) ∨
      ∃ category value, entry = (.fit category, .stray value) ∧ e = .style value := by
  rcases entry with ⟨key, style⟩
  cases key with
  | stray value =>
      simp [entryFaults, Candidate.stray?, eq_comm]
  | fit category =>
      cases style with
      | stray value =>
          simp [entryFaults, Candidate.stray?, eq_comm]
      | fit style =>
          simp [entryFaults, Candidate.stray?]

theorem entryFaults_ne_nil_iff (entry : Entry) :
    entryFaults entry ≠ [] ↔
      (∃ value, entry.1 = .stray value) ∨ ∃ value, entry.2 = .stray value := by
  rcases entry with ⟨key, style⟩
  cases key with
  | stray value =>
      simp [entryFaults, Candidate.stray?]
  | fit category =>
      cases style with
      | stray value =>
          simp [entryFaults, Candidate.stray?]
      | fit style =>
          simp [entryFaults, Candidate.stray?]

section Entries

variable (name : String) (defaultColor backgroundColor : Option Color) (entries : List Entry)

theorem ofEntries_reports :
    Reports (ofEntries name defaultColor backgroundColor entries)
      (fun theme => ∃ given, entries = given.map properEntry ∧
        theme = ⟨name, defaultColor, backgroundColor, Table.ofList given⟩)
      (entries.flatMap entryFaults) := by
  have hparts := (mapM_checkEntry_reports entries).bind fun given =>
    Reports.result (Theme.mk name defaultColor backgroundColor (Table.ofList given))
  rw [List.append_nil] at hparts
  exact hparts

theorem ofEntries_properEntry (given : List (Category × Style)) :
    ofEntries name defaultColor backgroundColor (given.map properEntry) =
      .ok ⟨name, defaultColor, backgroundColor, Table.ofList given⟩ :=
  ((ofEntries_reports name defaultColor backgroundColor _).ok_iff _).mpr ⟨given, rfl, rfl⟩

theorem exists_ofEntries_error_iff :
    (∃ e, ofEntries name defaultColor backgroundColor entries = .error e) ↔
      ∃ entry ∈ entries, (∃ value, entry.1 = .stray value) ∨ ∃ value, entry.2 = .stray value := by
  have hreports := ofEntries_reports name defaultColor backgroundColor entries
  simp only [hreports.error_iff, ← Option.isSome_iff_exists, List.isSome_head?, ne_eq,
    List.flatMap_eq_nil_iff, not_forall, ← entryFaults_ne_nil_iff, exists_prop]

theorem ofEntries_eq_error_iff (e : EntryError) :
    ofEntries name defaultColor backgroundColor entries = .error e ↔
      ∃ (before : List (Category × Style)) (entry : Entry) (after : List Entry),
        entries = before.map properEntry ++ entry :: after ∧
          ((∃ value, entry.1 = .stray value ∧ e = .key value) ∨
            ∃ category value, entry = (.fit category, .stray value) ∧ e = .style value) := by
  have hreports := ofEntries_reports name defaultColor backgroundColor entries
  simp only [hreports.error_iff, List.head?_flatMap, List.findSome?_eq_some_iff,
    head?_entryFaults_iff, List.head?_eq_none_iff, ← exists_map_properEntry_iff]
  constructor
  · intro h
    rcases h with ⟨front, entry, after, hentries, hfault, before, rfl⟩
    exact ⟨before, entry, after, hentries, hfault⟩
  · intro h
    rcases h with ⟨before, entry, after, hentries, hfault⟩
    exact ⟨_, entry, after, hentries, hfault, before, rfl⟩

/-! ## Pairs one after the other -/

/-- Puts one pair in, once its category and its style have been looked at. -/
def put (styles : List (Category × Style)) (entry : Entry) :
    Except EntryError (List (Category × Style)) :=
  (checkEntry entry).map fun proper => Assoc.insert proper.1 proper.2 styles

theorem foldlM_put_eq :
    entries.foldlM put [] =
      (ofEntries name defaultColor backgroundColor entries).map fun theme =>
        theme.styles.entries := by
  have hloop := foldlM_map checkEntry
    (fun styles proper => Assoc.insert proper.1 proper.2 styles)
    ([] : List (Category × Style)) entries
  rw [show (put = fun styles entry => (checkEntry entry).map fun proper =>
    Assoc.insert proper.1 proper.2 styles) from rfl, hloop, ofEntries]
  cases entries.mapM checkEntry with
  | error e =>
      rfl
  | ok given =>
      rfl

end Entries

/-! ## Proper pairs -/

/--
What a theme has of the pairs that it is made of: every category once, in the order in which they
first occur, with the style of its last pair; the other categories are plain.
-/
structure Gathers (given : List (Category × Style)) (theme : Theme) : Prop where
  nodup : (Assoc.keys theme.styles.entries).Nodup
  order : Assoc.keys theme.styles.entries = (given.map Prod.fst).eraseDups
  last : ∀ before category style after, given = before ++ (category, style) :: after →
    (∀ other, (category, other) ∉ after) → theme.styleFor category = style
  plain : ∀ category, (∀ style, (category, style) ∉ given) → theme.styleFor category = .plain

theorem gathers_ofList (name : String) (defaultColor backgroundColor : Option Color)
    (given : List (Category × Style)) :
    Gathers given ⟨name, defaultColor, backgroundColor, Table.ofList given⟩ where
  nodup := Assoc.nodup_keys_ofList given
  order := Assoc.keys_ofList given
  last := by
    intro before category style after hgiven hlast
    have hfind : (Table.ofList given).find? category = some style := by
      rw [hgiven]
      exact Assoc.find?_ofList_of_last before after style hlast
    rw [styleFor, hfind]
    rfl
  plain := by
    intro category hnone
    have hfind : (Table.ofList given).find? category = none :=
      Assoc.find?_ofList_of_not_mem hnone
    rw [styleFor, hfind]
    rfl

/-! ## Mappings -/

theorem insertEntry_properEntry (entry : Category × Style) (styles : List (Category × Style)) :
    insertEntry (properEntry entry) (styles.map properEntry) =
      (Assoc.insert entry.1 entry.2 styles).map properEntry := by
  induction styles with
  | nil =>
      rfl
  | cons first rest ih =>
      rw [List.map_cons, Assoc.insert]
      by_cases h : first.1 = entry.1
      · simp [insertEntry, properEntry, h]
      · simp [insertEntry, properEntry, h]
        exact ih

theorem mappingEntries_properEntry (given : List (Category × Style)) :
    mappingEntries (given.map properEntry) = (Assoc.ofList given).map properEntry := by
  induction given using List.reverseRecOn with
  | nil =>
      rfl
  | append_singleton given entry ih =>
      rw [Assoc.ofList_concat, ← insertEntry_properEntry, ← ih, mappingEntries, List.map_append,
        List.foldl_append]
      rfl

theorem ofMapping_properEntry (name : String) (defaultColor backgroundColor : Option Color)
    (given : List (Category × Style)) :
    ofMapping name defaultColor backgroundColor (given.map properEntry) =
      ofEntries name defaultColor backgroundColor (given.map properEntry) := by
  have htable : Table.ofList (Assoc.ofList given) = Table.ofList given :=
    Table.ofList_entries (Table.ofList given)
  rw [ofMapping, mappingEntries_properEntry, ofEntries_properEntry, ofEntries_properEntry, htable]

theorem ofEntries_entries (theme : Theme) :
    ofEntries theme.name theme.defaultColor theme.backgroundColor
      (theme.styles.entries.map properEntry) = .ok theme := by
  rw [ofEntries_properEntry, Table.ofList_entries]

/--
Putting pairs in one after the other is refused exactly if some pair has no category or no style,
and then the first such pair is reported, its category before its style, with a message that shows
what stands in its place. Otherwise the theme gathers the pairs, and a mapping filled with the same
pairs makes the same theme. The pairs of a theme, handed over as they are or as a mapping, make the
theme again.
-/
theorem ofEntries_gathers (name : String) (defaultColor backgroundColor : Option Color)
    (entries : List Entry) :
    (entries.foldlM put [] =
      (ofEntries name defaultColor backgroundColor entries).map fun theme =>
        theme.styles.entries) ∧
    ((∃ e, ofEntries name defaultColor backgroundColor entries = .error e) ↔
      ∃ entry ∈ entries, (∃ value, entry.1 = .stray value) ∨ ∃ value, entry.2 = .stray value) ∧
    (∀ e, (Error.entry e).family = .type ∧
      (ofEntries name defaultColor backgroundColor entries = .error e ↔
        ∃ (before : List (Category × Style)) (entry : Entry) (after : List Entry),
          entries = before.map properEntry ++ entry :: after ∧
            ((∃ value, entry.1 = .stray value ∧ e = .key value) ∨
              ∃ category value, entry = (.fit category, .stray value) ∧ e = .style value))) ∧
    (∀ value : Argument,
      (Error.entry (.key value)).message =
        "Theme keys must be TokenType, got " ++ value.describe ∧
      (Error.entry (.style value)).message =
        "Theme values must be TokenStyle, got " ++ value.describe) ∧
    (∀ theme, ofEntries name defaultColor backgroundColor entries = .ok theme →
      ∃ given, entries = given.map properEntry ∧ theme.name = name ∧
        theme.defaultColor = defaultColor ∧ theme.backgroundColor = backgroundColor ∧
        Gathers given theme ∧ ofMapping name defaultColor backgroundColor entries = .ok theme) ∧
    ∀ theme : Theme,
      ofEntries theme.name theme.defaultColor theme.backgroundColor
        (theme.styles.entries.map properEntry) = .ok theme ∧
      ofMapping theme.name theme.defaultColor theme.backgroundColor
        (theme.styles.entries.map properEntry) = .ok theme := by
  refine ⟨foldlM_put_eq _ _ _ entries, exists_ofEntries_error_iff _ _ _ entries,
    fun e => ⟨rfl, ofEntries_eq_error_iff _ _ _ entries e⟩, fun value => ⟨rfl, rfl⟩, ?_, ?_⟩
  · intro theme h
    rcases ((ofEntries_reports _ _ _ entries).ok_iff theme).mp h with ⟨given, rfl, rfl⟩
    refine ⟨given, rfl, rfl, rfl, rfl, gathers_ofList _ _ _ given, ?_⟩
    rw [ofMapping_properEntry, h]
  · intro theme
    refine ⟨ofEntries_entries theme, ?_⟩
    rw [ofMapping_properEntry, ofEntries_entries]

/-- A category that is given three times keeps its first place, and has its last style. -/
theorem ofEntries_gathers_repeated :
    let given : List (Category × Style) := [(.string, { bold := true }), (.keyword, .plain),
      (.string, .plain), (.normal, { italic := true }), (.string, { underline := true })]
    ∃ theme, ofEntries "" none none (given.map properEntry) = .ok theme ∧
      ofMapping "" none none (given.map properEntry) = .ok theme ∧
      Assoc.keys theme.styles.entries = [.string, .keyword, .normal] ∧
      theme.styleFor .string = { underline := true } ∧ theme.styleFor .comment = .plain := by
  intro given
  have hmeaning := ofEntries_gathers "" none none (given.map properEntry)
  have haccepted := ofEntries_properEntry "" none none given
  rcases hmeaning.2.2.2.2.1 _ haccepted with ⟨given', hsame, _, _, _, hgathers, hmapping⟩
  rw [← List.map_injective_iff.mpr properEntry_injective hsame] at hgathers
  refine ⟨_, haccepted, hmapping, ?_, ?_, ?_⟩
  · rw [hgathers.order]
    decide
  · exact hgathers.last [(.string, { bold := true }), (.keyword, .plain), (.string, .plain),
      (.normal, { italic := true })] .string _ [] rfl (by simp)
  · exact hgathers.plain .comment (by simp [given])

end Theme
end Highlighting
