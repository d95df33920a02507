import Highlighting.Proofs.Html.Parts

/-!
# Markup

Elements inside one another, as a reader finds them in the characters. On top of the scanner it
refuses a closing tag that does not close the innermost open element, and an element that is never
closed. The main result says that it undoes writing, and accepts no other text.
-/

namespace Highlighting
namespace Html

inductive Markup where
  | empty
  | char (c : Char) (rest : Markup)
  | element (name : String) (attributes : List (String × String)) (body rest : Markup)
  deriving DecidableEq, Repr

namespace Markup

def parts : Markup → List Part
  | .empty => []
  | .char c rest => .char c :: rest.parts
  | .element name attributes body rest =>
      .opening name attributes :: (body.parts ++ .closing name :: rest.parts)

def write (markup : Markup) : List Char :=
  markup.parts.flatMap Part.write

/-- Forests that can be told from their characters. -/
def Proper (markup : Markup) : Prop :=
  ∀ part ∈ markup.parts, part.Proper

/-!
## Reading

A forest is built from the last part to the first, with a frame for every closing tag whose opening
tag has not been met yet.
-/

/-- Closing tags that wait for their opening tag, each with the forest behind it. -/
abbrev Frames := List (String × Markup)

def frameParts (frames : Frames) : List Part :=
  frames.flatMap fun frame => .closing frame.1 :: frame.2.parts

/-- Forest in front of the first closing tag that stays open, and the frames from there on. -/
def nest : List Part → Option (Markup × Frames)
  | [] => some (.empty, [])
  | .char c :: parts => (nest parts).map fun result => (.char c result.1, result.2)
  | .closing name :: parts => (nest parts).map fun result => (.empty, (name, result.1) :: result.2)
  | .opening name attributes :: parts =>
      match nest parts with
      | some (body, (closing, rest) :: frames) =>
          if closing = name then some (.element name attributes body rest, frames) else none
      | _ => none

def read (cs : List Char) : Option Markup :=
  match (Part.scan cs).bind nest with
  | some (markup, []) => some markup
  | _ => none

theorem nest_sound {parts : List Part} {markup : Markup} {frames : Frames}
    (h : nest parts = some (markup, frames)) : markup.parts ++ frameParts frames = parts := by
  induction parts generalizing markup frames with
  | nil =>
      cases h
      rfl
  | cons part parts ih =>
      cases part with
      | char c =>
          simp only [nest, Option.map_eq_some_iff] at h
          obtain ⟨⟨rest, others⟩, hnest, heq⟩ := h
          cases heq
          simp [Markup.parts, ih hnest]
      | closing name =>
          simp only [nest, Option.map_eq_some_iff] at h
          obtain ⟨⟨rest, others⟩, hnest, heq⟩ := h
          cases heq
          simpa [Markup.parts, frameParts] using ih hnest
      | opening name attributes =>
          simp only [nest] at h
          split at h
          · rename_i body closing rest others hnest
            split at h
            · rename_i hname
              cases h
              subst hname
              simpa [Markup.parts, frameParts] using ih hnest
            · cases h
          · cases h

/-- A forest in front of parts that begin with a closing tag, or of none, is found as it is. -/
theorem nest_parts_append (markup : Markup) {parts : List Part} {frames : Frames}
    (h : nest parts = some (.empty, frames)) :
    nest (markup.parts ++ parts) = some (markup, frames) := by
  -- The body of an element stands in front of its closing tag, hence the arbitrary parts behind.
  induction markup generalizing parts frames with
  | empty =>
      exact h
  | char c rest ih =>
      simp [Markup.parts, nest, ih h]
  | element name attributes body rest ihBody ihRest =>
      have hclosing : nest (.closing name :: (rest.parts ++ parts)) =
          some (.empty, (name, rest) :: frames) := by
        simp [nest, ihRest h]
      have hbody := ihBody hclosing
      simp [Markup.parts, nest, hbody]

theorem nest_eq_some_iff {parts : List Part} {markup : Markup} :
    nest parts = some (markup, []) ↔ markup.parts = parts := by
  constructor
  · intro h
    simpa [frameParts] using nest_sound h
  · intro h
    rcases h with rfl
    have hnil : nest [] = some (.empty, []) := rfl
    simpa using nest_parts_append markup hnil

/-- Reading finds exactly the proper forest that was written, and nothing in any other text. -/
theorem read_eq_some_iff {cs : List Char} {markup : Markup} :
    read cs = some markup ↔ markup.write = cs ∧ markup.Proper := by
  constructor
  · intro h
    unfold read at h
    split at h
    · rename_i hnest
      cases h
      rcases Option.bind_eq_some_iff.mp hnest with ⟨parts, hscan, hparts⟩
      rw [nest_eq_some_iff] at hparts
      subst hparts
      exact Part.scan_eq_some_iff.mp hscan
    · cases h
  · intro h
    rcases h with ⟨hwrite, hproper⟩
    have hscan : Part.scan cs = some markup.parts :=
      Part.scan_eq_some_iff.mpr ⟨hwrite, hproper⟩
    have hnest : nest markup.parts = some (markup, []) :=
      nest_eq_some_iff.mpr rfl
    simp [read, hscan, hnest]

end Markup
end Html
end Highlighting
