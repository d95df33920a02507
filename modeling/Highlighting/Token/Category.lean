import Highlighting.Data.Value

/-!
# Token categories

The closed set of categories into which the pieces of a source line are classified. Each has a
label, a short code that names its style sheet class and its macro, and a title. Normal text has
an empty short code, since it is never wrapped.
-/

namespace Highlighting

inductive Category where
  | keyword
  | dataType
  | decimal
  | baseN
  | float
  | character
  | string
  | comment
  | other
  | alert
  | function
  | regionMarker
  | error
  | normal
  deriving DecidableEq, Hashable, Repr, Inhabited

namespace Category

def all : List Category :=
  [.keyword, .dataType, .decimal, .baseN, .float, .character, .string, .comment, .other, .alert,
    .function, .regionMarker, .error, .normal]

theorem mem_all (c : Category) : c ∈ all := by
  cases c <;> decide

def label : Category → String
  | .keyword => "KEYWORD"
  | .dataType => "DATA_TYPE"
  | .decimal => "DEC_VAL"
  | .baseN => "BASE_N"
  | .float => "FLOAT"
  | .character => "CHAR"
  | .string => "STRING"
  | .comment => "COMMENT"
  | .other => "OTHER"
  | .alert => "ALERT"
  | .function => "FUNCTION"
  | .regionMarker => "REGION_MARKER"
  | .error => "ERROR"
  | .normal => "NORMAL"

def short : Category → String
  | .keyword => "kw"
  | .dataType => "dt"
  | .decimal => "dv"
  | .baseN => "bn"
  | .float => "fl"
  | .character => "ch"
  | .string => "st"
  | .comment => "co"
  | .other => "ot"
  | .alert => "al"
  | .function => "fu"
  | .regionMarker => "re"
  | .error => "er"
  | .normal => ""

/-- Full name of a category, by which theme files refer to it. -/
def title : Category → String
  | .keyword => "KeywordTok"
  | .dataType => "DataTypeTok"
  | .decimal => "DecValTok"
  | .baseN => "BaseNTok"
  | .float => "FloatTok"
  | .character => "CharTok"
  | .string => "StringTok"
  | .comment => "CommentTok"
  | .other => "OtherTok"
  | .alert => "AlertTok"
  | .function => "FunctionTok"
  | .regionMarker => "RegionMarkerTok"
  | .error => "ErrorTok"
  | .normal => "NormalTok"

def ofTitle? (title : String) : Option Category :=
  all.find? fun c => c.title = title

theorem ofTitle?_title (c : Category) : ofTitle? c.title = some c := by
  cases c <;> decide

theorem title_of_ofTitle? {title : String} {c : Category} (h : ofTitle? title = some c) :
    c.title = title := by
  simpa using List.find?_some h

theorem title_injective {c d : Category} (h : c.title = d.title) : c = d :=
  Option.some.inj ((ofTitle?_title c).symm.trans (h ▸ ofTitle?_title d))

theorem short_injective {c d : Category} (h : c.short = d.short) : c = d := by
  have hfind : ∀ c : Category, all.find? (fun d => d.short = c.short) = some c := by
    intro c
    cases c <;> decide
  exact Option.some.inj ((hfind c).symm.trans (h ▸ hfind d))

theorem isLower_of_mem_short {category : Category} {c : Char} (h : c ∈ category.short.toList) :
    c.isLower = true := by
  have hall : category.short.toList.all Char.isLower = true := by
    cases category <;> rfl
  exact List.all_eq_true.mp hall c h

theorem not_mem_short {c : Char} (h : c.isLower = false) (category : Category) :
    c ∉ category.short.toList := by
  intro hmem
  rw [isLower_of_mem_short hmem] at h
  cases h

end Category

structure UnknownTitle where
  title : Value
  deriving Repr

namespace UnknownTitle

def message (e : UnknownTitle) : String :=
  "Unknown token type: " ++ e.title.describe

end UnknownTitle

def Category.ofTitle (value : Value) : Except UnknownTitle Category :=
  let found := match value with
    | .text title => ofTitle? title
    | _ => none
  match found with
  | some c => .ok c
  | none => .error ⟨value⟩

end Highlighting
