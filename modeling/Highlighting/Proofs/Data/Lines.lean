/-!
# Lines and their ends

Lines that are written one after the other, each with an end behind it, are read back by splitting
at the ends, with an empty line behind the last one. What stands in front of the first end is the
first line.
-/

namespace Highlighting

variable {α : Type}

theorem takeWhile_ne_append [DecidableEq α] {mark : α} {line : List α} (h : mark ∉ line)
    (rest : List α) : (line ++ mark :: rest).takeWhile (fun c => c ≠ mark) = line := by
  have hline : ∀ c ∈ line, decide (c ≠ mark) = true := by
    intro c hc
    have hne : c ≠ mark := fun heq => h (heq ▸ hc)
    simp [hne]
  rw [List.takeWhile_append_of_pos hline]
  simp

theorem dropWhile_ne_append [DecidableEq α] {mark : α} {line : List α} (h : mark ∉ line)
    (rest : List α) : (line ++ mark :: rest).dropWhile (fun c => c ≠ mark) = mark :: rest := by
  have hline : ∀ c ∈ line, decide (c ≠ mark) = true := by
    intro c hc
    have hne : c ≠ mark := fun heq => h (heq ▸ hc)
    simp [hne]
  rw [List.dropWhile_append_of_pos hline]
  simp

/-- A text splits uniquely at the first mark. -/
theorem append_mark_inj [DecidableEq α] {mark : α} {first second : List α} (hfirst : mark ∉ first)
    (hsecond : mark ∉ second) {a b : List α} (h : first ++ mark :: a = second ++ mark :: b) :
    first = second ∧ a = b := by
  have hline := congrArg (List.takeWhile fun c => c ≠ mark) h
  have hrest := congrArg (List.dropWhile fun c => c ≠ mark) h
  rw [takeWhile_ne_append hfirst, takeWhile_ne_append hsecond] at hline
  rw [dropWhile_ne_append hfirst, dropWhile_ne_append hsecond] at hrest
  exact ⟨hline, List.tail_eq_of_cons_eq hrest⟩

theorem not_mem_intercalate {mark other : α} (hne : other ≠ mark) {lines : List (List α)}
    (h : ∀ line ∈ lines, other ∉ line) : other ∉ [mark].intercalate lines := by
  induction lines with
  | nil =>
      simp
  | cons line lines ih =>
      have hline := h line List.mem_cons_self
      have hlines := ih fun next hnext => h next (List.mem_cons_of_mem line hnext)
      cases lines with
      | nil =>
          rwa [List.intercalate_singleton]
      | cons next rest =>
          rw [List.intercalate_cons_cons]
          simp [hline, hlines, hne]

theorem intercalate_cons (mark : α) (line : List α) (lines : List (List α)) :
    [mark].intercalate (line :: lines) = line ++ lines.flatMap fun next => mark :: next := by
  induction lines generalizing line with
  | nil =>
      simp
  | cons next lines ih =>
      rw [List.intercalate_cons_cons, ih, List.flatMap_cons]
      simp

theorem flatMap_ended_eq_intercalate (mark : α) (lines : List (List α)) :
    lines.flatMap (fun line => line ++ [mark]) = [mark].intercalate (lines ++ [[]]) := by
  induction lines with
  | nil =>
      rfl
  | cons line lines ih =>
      cases hrest : lines ++ [[]] with
      | nil =>
          simp at hrest
      | cons next rest =>
          rw [hrest] at ih
          rw [List.cons_append, hrest, List.intercalate_cons_cons, ← ih, List.flatMap_cons]

theorem splitOn_flatMap_ended [DecidableEq α] {mark : α} {lines : List (List α)}
    (h : ∀ line ∈ lines, mark ∉ line) :
    (lines.flatMap fun line => line ++ [mark]).splitOn mark = lines ++ [[]] := by
  rw [flatMap_ended_eq_intercalate]
  apply List.splitOn_intercalate
  · intro line hline
    rcases List.mem_append.mp hline with hline | hline
    · exact h line hline
    · simp [List.mem_singleton.mp hline]
  · simp

end Highlighting
