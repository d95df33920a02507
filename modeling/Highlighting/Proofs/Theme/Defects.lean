import Highlighting.Proofs.Theme.Description
import Mathlib.Data.List.Forall2

/-!
# The first defect of theme data

Reading theme data gives the theme that it describes, and for other data the first of its defects.
Every part of the reading is shown to report the defects of its part of the data; they are put
together in the order in which the parts are read.
-/

namespace Highlighting
namespace Theme

/-! ## Fields -/

theorem nameOfValue_reports (field : Option Value) :
    Reports (nameOfValue field) (fun name => field.getD (.text "") = .text name)
      (nameDefects (field.getD (.text ""))) := by
  cases field with
  | none =>
      exact Reports.of_ok (by simp [eq_comm]) rfl
  | some value =>
      cases value with
      | text t =>
          exact Reports.of_ok (by simp [eq_comm]) rfl
      | _ =>
          exact Reports.of_error (by simp) rfl

theorem flagAt_reports (path : String) (field : Option Value) :
    Reports (flagAt path field) (fun flag => field.getD (.bool false) = .bool flag)
      (flagDefects path (field.getD (.bool false))) := by
  cases field with
  | none =>
      exact Reports.of_ok (by simp [eq_comm]) rfl
  | some value =>
      cases value with
      | bool b =>
          exact Reports.of_ok (by simp [eq_comm]) rfl
      | _ =>
          exact Reports.of_error (by simp) rfl

theorem parse?_eq_some_iff (value : Value) (color : Color) :
    Color.parse? value = some color ↔ DescribesColor value (some color) := by
  constructor
  · intro h
    cases value with
    | text t =>
        exact .text ((Color.ofHex?_eq_some_iff t color).mp h)
    | _ =>
        cases h
  · intro h
    cases h with
    | text hspells =>
        exact (Color.ofHex?_eq_some_iff _ color).mpr hspells

theorem isColor_iff (value : Value) : IsColor value ↔ ∃ color, DescribesColor value color := by
  constructor
  · intro h
    cases value with
    | null =>
        exact ⟨none, .null⟩
    | text t =>
        obtain ⟨color, hcolor⟩ := h
        exact ⟨some color, .text hcolor⟩
    | _ =>
        cases h
  · intro h
    rcases h with ⟨color, h⟩
    cases h with
    | null =>
        exact trivial
    | text h =>
        exact ⟨_, h⟩

theorem exists_of_describesColor {value : Value} (h : value ≠ .null) (color : Option Color) :
    (∃ c, DescribesColor value (some c) ∧ color = some c) ↔ DescribesColor value color := by
  constructor
  · intro h
    rcases h with ⟨c, hc, rfl⟩
    exact hc
  · intro hcolor
    cases hcolor with
    | null =>
        exact absurd rfl h
    | text hspells =>
        exact ⟨_, .text hspells, rfl⟩

theorem colorAt_reports (path : String) {value : Value} (h : value ≠ .null) :
    Reports (colorAt path value) (fun color => DescribesColor value (some color))
      (colorDefects path value) := by
  unfold colorAt colorDefects
  cases hparse : Color.parse? value with
  | some color =>
      have hcolor := (parse?_eq_some_iff value color).mp hparse
      apply Reports.of_ok
      · intro color'
        rw [← parse?_eq_some_iff, hparse, Option.some.injEq, eq_comm]
      · exact if_pos ((isColor_iff value).mpr ⟨_, hcolor⟩)
  | none =>
      have hnone : ∀ color, ¬ DescribesColor value (some color) := by
        intro color hcolor
        rw [← parse?_eq_some_iff, hparse] at hcolor
        cases hcolor
      apply Reports.of_error hnone
      apply if_neg
      rw [isColor_iff]
      intro h
      rcases h with ⟨color, hcolor⟩
      obtain ⟨c, hc, -⟩ := (exists_of_describesColor h color).mpr hcolor
      exact hnone c hc

theorem optionalColorAt_of_ne (path : String) {value : Value} (h : value ≠ .null) :
    optionalColorAt path (some value) = (colorAt path value).map some := by
  unfold optionalColorAt
  split
  · rename_i heq
    cases heq
  · rename_i heq
    exact absurd (Option.some.inj heq) h
  · rename_i heq
    rw [Option.some.inj heq]

theorem optionalColorAt_reports (path : String) (field : Option Value) :
    Reports (optionalColorAt path field) (DescribesColor (field.getD .null))
      (colorDefects path (field.getD .null)) := by
  have hnone : Reports (.ok none) (DescribesColor .null) (colorDefects path .null) := by
    apply Reports.of_ok
    · intro color
      constructor
      · intro h
        cases h
        rfl
      · intro h
        rcases h with rfl
        exact .null
    · rfl
  cases field with
  | none =>
      exact hnone
  | some value =>
      by_cases hnull : value = .null
      · rw [hnull]
        exact hnone
      · rw [optionalColorAt_of_ne path hnull]
        exact ((colorAt_reports path hnull).map some).congr (exists_of_describesColor hnull) rfl

/-! ## Styles -/

theorem unknownFields_eq_nil_iff (fields : List (String × Value)) :
    Style.unknownFields fields = [] ↔ ∀ name ∈ Assoc.keys fields, name ∈ Style.fieldNames := by
  have hperm := Assoc.sortTexts_perm
    ((Assoc.keys fields).filter fun name => !Style.fieldNames.contains name)
  rw [Style.unknownFields, ← List.perm_nil, hperm.congr_left, List.perm_nil, List.filter_eq_nil_iff]
  simp

theorem styleOfValue_reports (path : String) (value : Value) :
    Reports (Style.ofValue path value)
      (fun style => ∃ fields, value = .object fields ∧ DescribesStyle fields style)
      (styleDefects path value) := by
  cases value with
  | object fields =>
      by_cases hknown : ∀ name ∈ Assoc.keys fields, name ∈ Style.fieldNames
      · have hparts :=
          (optionalColorAt_reports (Style.fieldPath path "color")
            (Assoc.find? "color" fields)).bind fun color =>
          (optionalColorAt_reports (Style.fieldPath path "background")
            (Assoc.find? "background" fields)).bind fun background =>
          (flagAt_reports (Style.fieldPath path "bold") (Assoc.find? "bold" fields)).bind fun bold =>
          (flagAt_reports (Style.fieldPath path "italic")
            (Assoc.find? "italic" fields)).bind fun italic =>
          (flagAt_reports (Style.fieldPath path "underline")
            (Assoc.find? "underline" fields)).bind fun underline =>
          Reports.result (Style.mk color background bold italic underline)
        have hread : Style.ofValue path (.object fields) = _ :=
          if_neg (not_not.mpr ((unknownFields_eq_nil_iff fields).mpr hknown))
        rw [hread]
        apply hparts.congr
        · intro style
          constructor
          · intro h
            rcases h with ⟨color, hcolor, background, hbackground, bold, hbold, italic, hitalic, underline,
              hunderline, rfl⟩
            exact ⟨fields, rfl, hknown, hcolor, hbackground, hbold, hitalic, hunderline⟩
          · intro h
            rcases h with ⟨fields', hfields, h⟩
            obtain rfl := Value.object.inj hfields
            exact ⟨_, h.color, _, h.background, _, h.bold, _, h.italic, _, h.underline, rfl⟩
        · rw [styleDefects, faultUnless, if_pos hknown]
          simp [fieldOr]
      · have hread : Style.ofValue path (.object fields) =
            .error ⟨.unknownFields (Style.unknownFields fields), path⟩ :=
          if_pos (mt (unknownFields_eq_nil_iff fields).mp hknown)
        rw [hread]
        apply Reports.of_error
        · intro style h
          rcases h with ⟨fields', hfields, h⟩
          obtain rfl := Value.object.inj hfields
          exact hknown h.known
        · rw [styleDefects, faultUnless, if_neg hknown]
          rfl
  | _ =>
      exact Reports.of_error (by simp) rfl

/-! ## Entries -/

def categoryAt (path : String) (title : Value) : Except ThemeError Category :=
  (Category.ofTitle title).mapError fun e => ⟨.unknownTitle e, path⟩

theorem entryOfValue_pair (path : String) (title style : Value) :
    entryOfValue path (.list [title, style]) =
      categoryAt path title >>= fun category =>
        (Style.ofValue path style).map fun s => (category, s) := by
  simp only [entryOfValue, categoryAt]
  cases Category.ofTitle title with
  | ok category =>
      rfl
  | error e =>
      rfl

theorem categoryAt_reports (path : String) (title : Value) :
    Reports (categoryAt path title) (fun category => title = .text category.title)
      (faultUnless (IsTitle title) ⟨.unknownTitle ⟨title⟩, path⟩) := by
  cases title with
  | text t =>
      cases hfound : Category.ofTitle? t with
      | some category =>
          have htitle := Category.title_of_ofTitle? hfound
          have hread : categoryAt path (.text t) = .ok category := by
            simp [categoryAt, Category.ofTitle, hfound, Except.mapError]
          rw [hread]
          apply Reports.of_ok
          · intro category'
            constructor
            · intro h
              exact Category.title_injective ((Value.text.inj h).symm.trans htitle.symm)
            · intro h
              rcases h with rfl
              rw [htitle]
          · exact if_pos ⟨category, htitle⟩
      | none =>
          have hunknown : ∀ category : Category, category.title ≠ t := by
            intro category h
            rcases h with rfl
            rw [Category.ofTitle?_title] at hfound
            cases hfound
          have hread : categoryAt path (.text t) = .error ⟨.unknownTitle ⟨.text t⟩, path⟩ := by
            simp [categoryAt, Category.ofTitle, hfound, Except.mapError]
          rw [hread]
          apply Reports.of_error
          · intro category h
            exact hunknown category (Value.text.inj h).symm
          · apply if_neg
            intro h
            rcases h with ⟨category, h⟩
            exact hunknown category h
  | _ =>
      exact Reports.of_error (by simp) rfl

theorem entryOfValue_reports (path : String) (item : Value) :
    Reports (entryOfValue path item) (DescribesEntry item) (entryDefects path item) := by
  unfold entryDefects
  split
  · rename_i title style
    rw [entryOfValue_pair]
    have hparts := (categoryAt_reports path title).bind fun category =>
      (styleOfValue_reports path style).map fun s => (category, s)
    apply hparts.congr
    · intro entry
      constructor
      · intro h
        rcases h with ⟨category, rfl, s, ⟨fields, rfl, hstyle⟩, rfl⟩
        exact ⟨fields, rfl, hstyle⟩
      · intro h
        rcases h with ⟨fields, hitem, hstyle⟩
        simp only [Value.list.injEq, List.cons.injEq, and_true] at hitem
        exact ⟨entry.1, hitem.1, entry.2, ⟨fields, hitem.2, hstyle⟩, rfl⟩
    · rfl
  · rename_i hpair
    have hread : entryOfValue path item = .error ⟨.notAPair, path⟩ := by
      unfold entryOfValue
      split
      · exact absurd rfl (hpair _ _)
      · rfl
    rw [hread]
    apply Reports.of_error
    · intro entry h
      rcases h with ⟨fields, hitem, -⟩
      exact hpair _ _ hitem
    · rfl

theorem entriesOfValues_reports (index : Nat) (items : List Value) :
    Reports (entriesOfValues index items) (List.Forall₂ DescribesEntry items)
      (entriesDefects index items) := by
  induction items generalizing index with
  | nil =>
      exact Reports.of_ok (fun entries => List.forall₂_nil_left_iff) rfl
  | cons item items ih =>
      have hparts := (entryOfValue_reports (entryPath index) item).bind fun entry =>
        (ih (index + 1)).bind fun others => Reports.result (entry :: others)
      apply hparts.congr
      · intro entries
        rw [List.forall₂_cons_left_iff]
        constructor
        · intro h
          rcases h with ⟨entry, hentry, others, hothers, rfl⟩
          exact ⟨entry, others, hentry, hothers, rfl⟩
        · intro h
          rcases h with ⟨entry, others, hentry, hothers, rfl⟩
          exact ⟨entry, hentry, others, hothers, rfl⟩
      · rw [List.append_nil]
        rfl

theorem entryValues_eq (field : Option Value) :
    entryValues field =
      match entryItems (field.getD (.list [])) with
      | some items => .ok items
      | none => .error ⟨.notStyles, "token_styles"⟩ := by
  cases field with
  | none =>
      rfl
  | some value =>
      cases value with
      | _ =>
          rfl

def entriesOfField (field : Option Value) : Except ThemeError (List (Category × Style)) :=
  entryValues field >>= entriesOfValues 0

theorem entriesOfField_reports (field : Option Value) :
    Reports (entriesOfField field)
      (fun entries => ∃ items, entryItems (field.getD (.list [])) = some items ∧
        List.Forall₂ DescribesEntry items entries)
      (stylesDefects (field.getD (.list []))) := by
  unfold stylesDefects
  cases hitems : entryItems (field.getD (.list [])) with
  | some items =>
      have hread : entriesOfField field = entriesOfValues 0 items := by
        rw [entriesOfField, entryValues_eq, hitems]
        rfl
      rw [hread]
      apply (entriesOfValues_reports 0 items).congr
      · intro entries
        simp
      · rfl
  | none =>
      have hread : entriesOfField field = .error ⟨.notStyles, "token_styles"⟩ := by
        rw [entriesOfField, entryValues_eq, hitems]
        rfl
      rw [hread]
      exact Reports.of_error (by simp) rfl

/-! ## Themes -/

theorem ofValue_object (fields : List (String × Value)) :
    ofValue (.object fields) =
      nameOfValue (Assoc.find? "name" fields) >>= fun name =>
      entriesOfField (Assoc.find? "token_styles" fields) >>= fun entries =>
      optionalColorAt "default_color" (Assoc.find? "default_color" fields) >>= fun defaultColor =>
      optionalColorAt "background_color" (Assoc.find? "background_color" fields) >>=
        fun backgroundColor =>
          .ok ⟨name, defaultColor, backgroundColor, Table.ofList entries⟩ := by
  unfold entriesOfField
  simp only [bind_assoc]
  rfl

theorem ofValue_reports (value : Value) :
    Reports (ofValue value) (Describes value) (defects value) := by
  cases value with
  | object fields =>
      have hparts :=
        (nameOfValue_reports (Assoc.find? "name" fields)).bind fun name =>
        (entriesOfField_reports (Assoc.find? "token_styles" fields)).bind fun entries =>
        (optionalColorAt_reports "default_color"
          (Assoc.find? "default_color" fields)).bind fun defaultColor =>
        (optionalColorAt_reports "background_color"
          (Assoc.find? "background_color" fields)).bind fun backgroundColor =>
        Reports.result (Theme.mk name defaultColor backgroundColor (Table.ofList entries))
      rw [ofValue_object]
      apply hparts.congr
      · intro theme
        constructor
        · intro h
          rcases h with ⟨name, hname, entries, ⟨items, hitems, hentries⟩, defaultColor, hdefault,
            backgroundColor, hbackground, rfl⟩
          have hcollects := (Table.eq_ofList_iff (Table.ofList entries) entries).mp rfl
          exact ⟨fields, rfl, hname, ⟨items, entries, hitems, hentries, hcollects.1, hcollects.2⟩,
            hdefault, hbackground⟩
        · intro h
          rcases h with ⟨fields', hfields, h⟩
          obtain rfl := Value.object.inj hfields
          obtain ⟨items, entries, hitems, hentries, hcollects⟩ := h.styles
          have hstyles := (Table.eq_ofList_iff theme.styles entries).mpr
            ⟨hcollects.categories, hcollects.last⟩
          refine ⟨_, h.name, entries, ⟨items, hitems, hentries⟩, _, h.defaultColor, _,
            h.backgroundColor, ?_⟩
          rw [← hstyles]
      · simp [defects, fieldOr]
  | _ =>
      exact Reports.of_error (by simp [Describes]) rfl

/--
Theme data is read when it is proper, and then as the theme that it describes; otherwise the first of
its defects is reported, with its path.
-/
theorem ofValue_described_or_first_defect (value : Value) :
    ((∃ theme, ofValue value = .ok theme) ↔ IsTheme value) ∧
    (∀ theme, ofValue value = .ok theme ↔ Describes value theme) ∧
    ∀ e, ofValue value = .error e ↔ (defects value).head? = some e :=
  ⟨(ofValue_reports value).exists_ok_iff.trans (defects_eq_nil_iff value),
    (ofValue_reports value).ok_iff, (ofValue_reports value).error_iff⟩

/-- An entry that is no pair and a flag that is no truth value; the entry is reported. -/
example : (defects (.object [("default_color", .null), ("token_styles", .list [.null,
    .list [.text "KeywordTok", .object [("bold", .int 1)]]])])).map ThemeError.path =
      ["token_styles[0]", "token_styles[1].bold"] := by
  decide

end Theme
end Highlighting
