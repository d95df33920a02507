import Highlighting.Proofs.Color.Hex
import Highlighting.Proofs.Data.Assoc
import Highlighting.Proofs.Data.Report
import Highlighting.Theme.Data

/-!
# What theme data describes

Data is read as a theme exactly when it is one: the properties of proper data are stated here field
by field, together with the theme that proper data describes and with all the defects of other data,
in the order in which the fields are checked. A missing field counts as one with its default.
-/

namespace Highlighting
namespace Theme

def fieldOr (default : Value) (name : String) (fields : List (String × Value)) : Value :=
  (Assoc.find? name fields).getD default

/-! ## Proper data -/

def IsName : Value → Prop
  | .text _ => True
  | _ => False

def IsFlag : Value → Prop
  | .bool _ => True
  | _ => False

def IsColor : Value → Prop
  | .null => True
  | .text t => ∃ color, Color.Spells t color
  | _ => False

def IsTitle : Value → Prop
  | .text t => ∃ category : Category, category.title = t
  | _ => False

def IsStyle : Value → Prop
  | .object fields =>
      (∀ name ∈ Assoc.keys fields, name ∈ Style.fieldNames) ∧
      (∀ name ∈ ["color", "background"], IsColor (fieldOr .null name fields)) ∧
      ∀ name ∈ ["bold", "italic", "underline"], IsFlag (fieldOr (.bool false) name fields)
  | _ => False

def IsEntry : Value → Prop
  | .list [title, style] => IsTitle title ∧ IsStyle style
  | _ => False

/-- Entries of styles: the items of a list, or the fields of an object as pairs. -/
def entryItems : Value → Option (List Value)
  | .list items => some items
  | .object fields => some (fields.map fun field => .list [.text field.1, field.2])
  | _ => none

def IsTheme : Value → Prop
  | .object fields =>
      IsName (fieldOr (.text "") "name" fields) ∧
      (∃ items, entryItems (fieldOr (.list []) "token_styles" fields) = some items ∧
        ∀ item ∈ items, IsEntry item) ∧
      ∀ name ∈ ["default_color", "background_color"], IsColor (fieldOr .null name fields)
  | _ => False

instance : DecidablePred IsName
  | .text _ => .isTrue trivial
  | .null | .bool _ | .int _ | .float _ | .list _ | .object _ => .isFalse id

instance : DecidablePred IsFlag
  | .bool _ => .isTrue trivial
  | .null | .int _ | .float _ | .text _ | .list _ | .object _ => .isFalse id

theorem isSome_ofHex?_iff (t : String) :
    (Color.ofHex? t).isSome = true ↔ ∃ color, Color.Spells t color := by
  simp only [Option.isSome_iff_exists, Color.ofHex?_eq_some_iff]

instance : DecidablePred IsColor
  | .null => .isTrue trivial
  | .text t => decidable_of_iff _ (isSome_ofHex?_iff t)
  | .bool _ | .int _ | .float _ | .list _ | .object _ => .isFalse id

theorem isSome_ofTitle?_iff (t : String) :
    (Category.ofTitle? t).isSome = true ↔ ∃ category : Category, category.title = t := by
  rw [Option.isSome_iff_exists]
  constructor
  · intro h
    rcases h with ⟨category, h⟩
    exact ⟨category, Category.title_of_ofTitle? h⟩
  · intro h
    rcases h with ⟨category, rfl⟩
    exact ⟨category, Category.ofTitle?_title category⟩

instance : DecidablePred IsTitle
  | .text t => decidable_of_iff _ (isSome_ofTitle?_iff t)
  | .null | .bool _ | .int _ | .float _ | .list _ | .object _ => .isFalse id

/-! ## Described themes -/

inductive DescribesColor : Value → Option Color → Prop where
  | null : DescribesColor .null none
  | text {t : String} {color : Color} (h : Color.Spells t color) :
      DescribesColor (.text t) (some color)

structure DescribesStyle (fields : List (String × Value)) (style : Style) : Prop where
  known : ∀ name ∈ Assoc.keys fields, name ∈ Style.fieldNames
  color : DescribesColor (fieldOr .null "color" fields) style.color
  background : DescribesColor (fieldOr .null "background" fields) style.background
  bold : fieldOr (.bool false) "bold" fields = .bool style.bold
  italic : fieldOr (.bool false) "italic" fields = .bool style.italic
  underline : fieldOr (.bool false) "underline" fields = .bool style.underline

def DescribesEntry (item : Value) (entry : Category × Style) : Prop :=
  ∃ fields, item = .list [.text entry.1.title, .object fields] ∧ DescribesStyle fields entry.2

/--
A table of the categories of entries in the order in which they first occur, each with the style of
its last entry.
-/
structure Collects (entries : List (Category × Style)) (styles : Table Category Style) : Prop where
  categories : Assoc.keys styles.entries = (entries.map Prod.fst).eraseDups
  last : ∀ category, styles.find? category = entries.reverse.lookup category

structure DescribesTheme (fields : List (String × Value)) (theme : Theme) : Prop where
  name : fieldOr (.text "") "name" fields = .text theme.name
  styles : ∃ items entries, entryItems (fieldOr (.list []) "token_styles" fields) = some items ∧
    List.Forall₂ DescribesEntry items entries ∧ Collects entries theme.styles
  defaultColor : DescribesColor (fieldOr .null "default_color" fields) theme.defaultColor
  backgroundColor : DescribesColor (fieldOr .null "background_color" fields) theme.backgroundColor

def Describes (value : Value) (theme : Theme) : Prop :=
  ∃ fields, value = .object fields ∧ DescribesTheme fields theme

/-! ## Defects -/

def nameDefects (value : Value) : List ThemeError :=
  faultUnless (IsName value) ⟨.notAText value, "name"⟩

def colorDefects (path : String) (value : Value) : List ThemeError :=
  faultUnless (IsColor value) ⟨.invalidColor value, path⟩

def flagDefects (path : String) (value : Value) : List ThemeError :=
  faultUnless (IsFlag value) ⟨.notABool value, path⟩

def styleDefects (path : String) : Value → List ThemeError
  | .object fields =>
      faultUnless (∀ name ∈ Assoc.keys fields, name ∈ Style.fieldNames)
        ⟨.unknownFields (Style.unknownFields fields), path⟩ ++
      (["color", "background"].flatMap fun name =>
        colorDefects (Style.fieldPath path name) (fieldOr .null name fields)) ++
      (["bold", "italic", "underline"].flatMap fun name =>
        flagDefects (Style.fieldPath path name) (fieldOr (.bool false) name fields))
  | value => [⟨.notAnObject value.kindName, path⟩]

def entryDefects (path : String) : Value → List ThemeError
  | .list [title, style] =>
      faultUnless (IsTitle title) ⟨.unknownTitle ⟨title⟩, path⟩ ++ styleDefects path style
  | _ => [⟨.notAPair, path⟩]

def entriesDefects (index : Nat) (items : List Value) : List ThemeError :=
  (items.zipIdx index).flatMap fun item => entryDefects (entryPath item.2) item.1

def stylesDefects (value : Value) : List ThemeError :=
  match entryItems value with
  | some items => entriesDefects 0 items
  | none => [⟨.notStyles, "token_styles"⟩]

/-- All defects of theme data, in the order in which its fields are checked. -/
def defects : Value → List ThemeError
  | .object fields =>
      nameDefects (fieldOr (.text "") "name" fields) ++
      stylesDefects (fieldOr (.list []) "token_styles" fields) ++
      (["default_color", "background_color"].flatMap fun name =>
        colorDefects name (fieldOr .null name fields))
  | value => [⟨.notAnObject value.kindName, ""⟩]

/-! ## Data without defects -/

theorem styleDefects_eq_nil_iff (path : String) (value : Value) :
    styleDefects path value = [] ↔ IsStyle value := by
  cases value with
  | object fields =>
      simp only [styleDefects, colorDefects, flagDefects, IsStyle, List.append_eq_nil_iff,
        List.flatMap_eq_nil_iff, faultUnless_eq_nil_iff, and_assoc]
  | _ =>
      simp [styleDefects, IsStyle]

theorem entryDefects_eq_nil_iff (path : String) (item : Value) :
    entryDefects path item = [] ↔ IsEntry item := by
  unfold entryDefects
  split
  · rw [List.append_eq_nil_iff, faultUnless_eq_nil_iff, styleDefects_eq_nil_iff]
    rfl
  · rename_i hpair
    apply iff_of_false (List.cons_ne_nil _ _)
    intro hitem
    unfold IsEntry at hitem
    split at hitem
    · exact hpair _ _ rfl
    · exact hitem

theorem entriesDefects_eq_nil_iff (index : Nat) (items : List Value) :
    entriesDefects index items = [] ↔ ∀ item ∈ items, IsEntry item := by
  induction items generalizing index with
  | nil =>
      simp [entriesDefects]
  | cons item items ih =>
      have hrest := ih (index + 1)
      unfold entriesDefects at hrest ⊢
      rw [List.zipIdx_cons, List.flatMap_cons, List.append_eq_nil_iff, entryDefects_eq_nil_iff,
        hrest, List.forall_mem_cons]

theorem stylesDefects_eq_nil_iff (value : Value) :
    stylesDefects value = [] ↔
      ∃ items, entryItems value = some items ∧ ∀ item ∈ items, IsEntry item := by
  unfold stylesDefects
  split
  · rename_i items hitems
    simp [hitems, entriesDefects_eq_nil_iff]
  · rename_i hitems
    simp [hitems]

theorem defects_eq_nil_iff (value : Value) : defects value = [] ↔ IsTheme value := by
  cases value with
  | object fields =>
      simp only [defects, nameDefects, colorDefects, IsTheme, List.append_eq_nil_iff, List.flatMap_eq_nil_iff,
        faultUnless_eq_nil_iff, stylesDefects_eq_nil_iff, and_assoc]
  | _ =>
      simp [defects, IsTheme]

end Theme
end Highlighting
