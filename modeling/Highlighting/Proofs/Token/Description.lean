import Highlighting.Proofs.Data.Lines
import Highlighting.Proofs.Text.Quoted
import Highlighting.Token.Basic

/-!
# Tokens as messages show them

What is shown of a token says what its category is and what is kept of its text. Two tokens whose
texts are kept whole are shown alike only if they are equal, and two tokens whose texts are
shortened only if they have the same category and begin with the same seventeen characters.
-/

namespace Highlighting

theorem Category.label_injective : Function.Injective Category.label := by
  intro c d h
  have hfind : ∀ c : Category, all.find? (fun d => d.label = c.label) = some c := by
    intro c
    cases c <;> decide
  exact Option.some.inj ((hfind c).symm.trans (h ▸ hfind d))

theorem Category.comma_not_mem_label (category : Category) : ',' ∉ category.label.toList := by
  cases category <;> decide

namespace Token

/-- Compact form of a token, where any set of characters may count as printable. -/
def describeBy (printable : Char → Bool) (token : Token) : String :=
  "Token(" ++ token.category.label ++ ", " ++
    String.ofList (Quoted.encodeBy printable (shownText token.text.toList)) ++ ")"

theorem describe_eq_describeBy : describe = describeBy isPrintable := by
  funext token
  rw [describe, describeBy, Quoted.encode_eq_encodeBy]

theorem toList_describeBy (printable : Char → Bool) (token : Token) :
    (token.describeBy printable).toList =
      "Token(".toList ++ (token.category.label.toList ++
        ',' :: (' ' :: (Quoted.encodeBy printable (shownText token.text.toList) ++ [')']))) := by
  simp [describeBy]

/-- The label ends at the first comma, and what follows it is the quoted text. -/
theorem describeBy_eq_iff (printable : Char → Bool) (a b : Token) :
    a.describeBy printable = b.describeBy printable ↔
      a.category = b.category ∧ shownText a.text.toList = shownText b.text.toList := by
  constructor
  · intro h
    have hchars := congrArg String.toList h
    rw [toList_describeBy, toList_describeBy] at hchars
    rcases append_mark_inj (Category.comma_not_mem_label a.category)
      (Category.comma_not_mem_label b.category) (List.append_cancel_left hchars) with
      ⟨hlabel, hrest⟩
    have hquoted := List.append_cancel_right (List.cons.inj hrest).2
    exact ⟨Category.label_injective (String.toList_inj.mp hlabel), Quoted.encodeBy_inj.mp hquoted⟩
  · intro h
    rcases h with ⟨hcategory, htext⟩
    rw [describeBy, describeBy, hcategory, htext]

/-! ## What is kept of a text -/

theorem shownText_of_le {cs : List Char} (h : cs.length ≤ shownLength) : shownText cs = cs :=
  if_neg (Nat.not_lt.mpr h)

theorem shownText_of_lt {cs : List Char} (h : shownLength < cs.length) :
    shownText cs = cs.take 17 ++ ['.', '.', '.'] :=
  if_pos h

/--
Two tokens with texts of at most twenty characters are shown alike exactly if they are equal, and
two tokens with longer texts exactly if they have the same category and the same first seventeen
characters. This holds whatever characters count as printable, and so for the form that messages
have.
-/
theorem describe_unambiguous :
    describe = describeBy isPrintable ∧
    ∀ (printable : Char → Bool) (a b : Token),
      (a.text.length ≤ 20 → b.text.length ≤ 20 →
        (a.describeBy printable = b.describeBy printable ↔ a = b)) ∧
      (20 < a.text.length → 20 < b.text.length →
        (a.describeBy printable = b.describeBy printable ↔
          a.category = b.category ∧ a.text.toList.take 17 = b.text.toList.take 17)) := by
  refine ⟨describe_eq_describeBy, ?_⟩
  intro printable a b
  constructor
  · intro ha hb
    rw [describeBy_eq_iff, shownText_of_le ha, shownText_of_le hb, String.toList_inj]
    cases a
    cases b
    simp
  · intro ha hb
    rw [describeBy_eq_iff, shownText_of_lt ha, shownText_of_lt hb, List.append_left_inj]

/-- A newline is not shown as a backslash with an n, and of long texts the end is not shown. -/
theorem describe_unambiguous_newline :
    describe ⟨.string, "a\n"⟩ ≠ describe ⟨.string, "a\\n"⟩ ∧
      describe ⟨.comment, "as long as twenty-one"⟩ =
        describe ⟨.comment, "as long as twenty-four"⟩ := by
  rcases describe_unambiguous with ⟨hdescribe, hunambiguous⟩
  rw [hdescribe]
  constructor
  · intro h
    have hshort := (hunambiguous isPrintable ⟨.string, "a\n"⟩ ⟨.string, "a\\n"⟩).1
      (by decide) (by decide)
    exact absurd (hshort.mp h) (by decide)
  · have hlong := (hunambiguous isPrintable ⟨.comment, "as long as twenty-one"⟩
      ⟨.comment, "as long as twenty-four"⟩).2 (by decide) (by decide)
    exact hlong.mpr ⟨rfl, by decide⟩

end Token
end Highlighting
