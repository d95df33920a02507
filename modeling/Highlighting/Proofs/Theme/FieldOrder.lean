import Highlighting.Proofs.Theme.Defects
import Mathlib.Logic.Relation

/-!
# The order of fields

Fields are found by name, so the order of the fields of a theme, and of the fields of its styles, has
no effect on what is read, and neither have fields that no theme has. This includes defective data:
which of its defects is reported, and with which message, depends on the order in which the fields
are checked, but not on the order in which they stand.
-/

namespace Highlighting

/-! ## Styles -/

namespace Style

theorem unknownFields_eq_of_perm {first second : List (String × Value)} (h : first.Perm second) :
    unknownFields first = unknownFields second :=
  Assoc.sortTexts_eq_of_perm ((h.map Prod.fst).filter _)

theorem ofValue_eq_of_perm {first second : List (String × Value)} (h : first.Perm second)
    (hnodup : (Assoc.keys first).Nodup) (path : String) :
    ofValue path (.object first) = ofValue path (.object second) := by
  have hfind : ∀ name, Assoc.find? name first = Assoc.find? name second :=
    Assoc.find?_eq_of_perm h hnodup
  rw [ofValue, ofValue, unknownFields_eq_of_perm h, hfind, hfind, hfind, hfind, hfind]

end Style

namespace Theme

/-! ## Rearranged data -/

def fieldNames : List String :=
  ["name", "default_color", "background_color", "token_styles"]

/-- Data of one style: the same value, or an object with its fields in another order. -/
inductive SameStyle : Value → Value → Prop where
  | same (value : Value) : SameStyle value value
  | reordered {first second : Table String Value} (h : first.entries.Perm second.entries) :
      SameStyle (.object first.entries) (.object second.entries)

inductive SameEntry : Value → Value → Prop where
  | same (item : Value) : SameEntry item item
  | pair (title : Value) {first second : Value} (h : SameStyle first second) :
      SameEntry (.list [title, first]) (.list [title, second])

/-- One change to the fields of an object that leaves the theme it stands for as it is. -/
inductive Rearranged : Table String Value → Table String Value → Prop where
  | reordered {first second : Table String Value} (h : first.entries.Perm second.entries) :
      Rearranged first second
  | foreign {first second : Table String Value} {before after : List (String × Value)}
      {field : String × Value} (hname : field.1 ∉ fieldNames)
      (hfirst : first.entries = before ++ after)
      (hsecond : second.entries = before ++ field :: after) : Rearranged first second
  | styles {first second : Table String Value} {before after : List (String × Value)}
      {items items' : List Value} (hitems : List.Forall₂ SameEntry items items')
      (hfirst : first.entries = before ++ ("token_styles", .list items) :: after)
      (hsecond : second.entries = before ++ ("token_styles", .list items') :: after) :
      Rearranged first second

/-! ## Entries -/

theorem SameStyle.ofValue_eq {first second : Value} (h : SameStyle first second) (path : String) :
    Style.ofValue path first = Style.ofValue path second := by
  cases h with
  | same value =>
      rfl
  | @reordered first second h =>
      exact Style.ofValue_eq_of_perm h first.nodup_keys path

theorem SameEntry.entryOfValue_eq {first second : Value} (h : SameEntry first second)
    (path : String) : entryOfValue path first = entryOfValue path second := by
  cases h with
  | same item =>
      rfl
  | pair title h =>
      rw [entryOfValue_pair, entryOfValue_pair, h.ofValue_eq]

/-- The first defective entry has the same index in both lists. -/
theorem entriesOfValues_eq {items items' : List Value} (h : List.Forall₂ SameEntry items items')
    (index : Nat) : entriesOfValues index items = entriesOfValues index items' := by
  induction h generalizing index with
  | nil =>
      rfl
  | cons hitem hitems ih =>
      rw [entriesOfValues, entriesOfValues, hitem.entryOfValue_eq, ih]

/-! ## Themes -/

theorem ofValue_congr {first second : List (String × Value)}
    (hfind : ∀ name ∈ fieldNames, name ≠ "token_styles" →
      Assoc.find? name first = Assoc.find? name second)
    (hstyles : entriesOfField (Assoc.find? "token_styles" first) =
      entriesOfField (Assoc.find? "token_styles" second)) :
    ofValue (.object first) = ofValue (.object second) := by
  rw [ofValue_object, ofValue_object, hstyles, hfind "name" (by decide) (by decide),
    hfind "default_color" (by decide) (by decide), hfind "background_color" (by decide) (by decide)]

theorem ofValue_congr_of_find? {first second : List (String × Value)}
    (hfind : ∀ name ∈ fieldNames, Assoc.find? name first = Assoc.find? name second) :
    ofValue (.object first) = ofValue (.object second) := by
  apply ofValue_congr
  · intro name hname _
    exact hfind name hname
  · rw [hfind "token_styles" (by decide)]

theorem Rearranged.ofValue_eq {first second : Table String Value} (h : Rearranged first second) :
    ofValue (.object first.entries) = ofValue (.object second.entries) := by
  cases h with
  | reordered h =>
      apply ofValue_congr_of_find?
      intro name _
      exact Assoc.find?_eq_of_perm h first.nodup_keys name
  | @foreign before after field hname hfirst hsecond =>
      apply ofValue_congr_of_find?
      intro name hmem
      have hne : field.1 ≠ name := fun heq => hname (heq ▸ hmem)
      rw [hfirst, hsecond, Assoc.find?_append_cons_of_ne hne]
  | @styles before after items items' hitems hfirst hsecond =>
      -- No name is repeated, so no field in front of the styles hides them.
      have hbefore : Assoc.find? "token_styles" before = none := by
        apply Assoc.find?_eq_none_of_not_mem
        intro hmem
        have hnodup := first.nodup_keys
        rw [hfirst, Assoc.keys, List.map_append, List.nodup_append] at hnodup
        exact hnodup.2.2 _ hmem _ List.mem_cons_self rfl
      apply ofValue_congr
      · intro name _ hname
        rw [hfirst, hsecond, Assoc.find?_append_cons_of_ne hname.symm,
          Assoc.find?_append_cons_of_ne hname.symm]
      · rw [hfirst, hsecond, Assoc.find?_append, Assoc.find?_append, hbefore]
        exact entriesOfValues_eq hitems 0

/--
Any number of changes to the order of the fields, of the theme or of its styles, and to the fields that
no theme has leave the theme that is read as it is, or the error that is reported, with its message.
-/
theorem ofValue_eq_of_eqvGen {first second : Table String Value}
    (h : Relation.EqvGen Rearranged first second) :
    ofValue (.object first.entries) = ofValue (.object second.entries) := by
  induction h with
  | rel first second hstep =>
      exact hstep.ofValue_eq
  | refl fields =>
      rfl
  | symm first second _ ih =>
      exact ih.symm
  | trans first second third _ _ ih ih' =>
      exact ih.trans ih'

/--
Two fields that no style has, a flag that is no truth value and a color that is none, together with a
field that no theme has: of all these, the fields of the style are reported, in alphabetical order.
-/
theorem ofValue_eq_of_eqvGen_defects :
    let style : Table String Value :=
      ⟨[("zeta", .null), ("bold", .int 1), ("alpha", .null)], by decide⟩
    let style' : Table String Value :=
      ⟨[("alpha", .null), ("zeta", .null), ("bold", .int 1)], by decide⟩
    let first : Table String Value :=
      ⟨[("default_color", .text "red"),
        ("token_styles", .list [.list [.text "KeywordTok", .object style.entries]])], by decide⟩
    let second : Table String Value :=
      ⟨[("token_styles", .list [.list [.text "KeywordTok", .object style'.entries]]),
        ("license", .null), ("default_color", .text "red")], by decide⟩
    Relation.EqvGen Rearranged first second ∧
      ofValue (.object first.entries) = ofValue (.object second.entries) ∧
      ∃ e, ofValue (.object second.entries) = .error e ∧
        e.message = "token_styles[0]: unknown style fields: alpha, zeta" := by
  intro style style' first second
  let restyled : Table String Value :=
    ⟨[("default_color", .text "red"),
      ("token_styles", .list [.list [.text "KeywordTok", .object style'.entries]])], by decide⟩
  let extended : Table String Value :=
    ⟨[("license", .null), ("default_color", .text "red"),
      ("token_styles", .list [.list [.text "KeywordTok", .object style'.entries]])], by decide⟩
  have hstyle : SameStyle (.object style.entries) (.object style'.entries) :=
    .reordered (@List.perm_append_comm _ [_, _] [_])
  have hrestyled : Rearranged first restyled :=
    @Rearranged.styles _ _ [_] [] _ _ (.cons (.pair _ hstyle) .nil) rfl rfl
  have hextended : Rearranged restyled extended :=
    @Rearranged.foreign _ _ [] _ ("license", .null) (by decide) rfl rfl
  have hreordered : Rearranged extended second :=
    .reordered (@List.perm_append_comm _ [_, _] [_])
  have hrearranged : Relation.EqvGen Rearranged first second :=
    .trans _ _ _ (.rel _ _ hrestyled) (.trans _ _ _ (.rel _ _ hextended) (.rel _ _ hreordered))
  exact ⟨hrearranged, ofValue_eq_of_eqvGen hrearranged, _, rfl, by decide⟩

end Theme
end Highlighting
