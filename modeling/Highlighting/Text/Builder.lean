/-!
# Text builder

Collects pieces of text and joins them at the end. Empty pieces are not kept, which never shows
in the joined text.
-/

namespace Highlighting

/-- Pieces collected so far, the latest first. -/
structure TextBuilder where
  pieces : List String
  deriving DecidableEq, Repr

namespace TextBuilder

def empty : TextBuilder :=
  ⟨[]⟩

def append (builder : TextBuilder) (piece : String) : TextBuilder :=
  if piece = "" then builder else ⟨piece :: builder.pieces⟩

def appendLine (builder : TextBuilder) (piece : String) : TextBuilder :=
  ⟨"\n" :: (builder.append piece).pieces⟩

def build (builder : TextBuilder) : String :=
  builder.pieces.foldl (fun text piece => piece ++ text) ""

/-! ## Written characters -/

def written (builder : TextBuilder) : List Char :=
  builder.build.toList

theorem build_eq (builder : TextBuilder) : builder.build = String.ofList builder.written :=
  String.ofList_toList.symm

theorem foldl_append (pieces : List String) (text : String) :
    pieces.foldl (fun text piece => piece ++ text) text =
      pieces.foldl (fun text piece => piece ++ text) "" ++ text := by
  induction pieces generalizing text with
  | nil =>
      simp
  | cons piece rest ih =>
      rw [List.foldl_cons, ih, List.foldl_cons, ih (piece ++ "")]
      simp [String.append_assoc]

@[simp]
theorem written_empty : empty.written = [] := by
  rfl

@[simp]
theorem written_append (builder : TextBuilder) (piece : String) :
    (builder.append piece).written = builder.written ++ piece.toList := by
  unfold append
  split
  · rename_i h
    simp [h]
  · simp [written, build, foldl_append builder.pieces piece]

@[simp]
theorem written_appendLine (builder : TextBuilder) (piece : String) :
    (builder.appendLine piece).written = builder.written ++ piece.toList ++ ['\n'] := by
  rw [← written_append]
  simp [appendLine, written, build, foldl_append (builder.append piece).pieces "\n"]

theorem written_foldl {α : Type} {put : TextBuilder → α → TextBuilder} {text : α → List Char}
    (hput : ∀ builder a, (put builder a).written = builder.written ++ text a)
    (builder : TextBuilder) (elements : List α) :
    (elements.foldl put builder).written = builder.written ++ elements.flatMap text := by
  induction elements generalizing builder with
  | nil =>
      simp
  | cons a rest ih =>
      rw [List.foldl_cons, ih, hput, List.flatMap_cons, List.append_assoc]

end TextBuilder
end Highlighting
