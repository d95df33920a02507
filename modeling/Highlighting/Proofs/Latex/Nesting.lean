import Highlighting.Proofs.Latex.Preamble

/-!
# Nesting of macros

The definition of a macro has balanced braces, and its argument stands in it once. The groups around
the argument are those of the definition, of the commands for the fields of the style that are set,
always in the same order, and one of its own. So the depth of the argument shows how many fields are
set, and every line of a preamble is balanced by itself.
-/

namespace Highlighting
namespace Latex

/-! ## Balanced braces -/

/-- Text whose braces are closed again, and none of which is closed before it is opened. -/
structure Balanced (cs : List Char) : Prop where
  fronts : ∀ front, front <+: cs → front.count '}' ≤ front.count '{'
  closed : cs.count '{' = cs.count '}'

namespace Balanced

variable {a b : List Char}

theorem iff_inits (cs : List Char) :
    (∀ front ∈ cs.inits, front.count '}' ≤ front.count '{') ∧ cs.count '{' = cs.count '}' ↔
      Balanced cs := by
  simp only [List.mem_inits]
  constructor
  · intro h
    exact ⟨h.1, h.2⟩
  · intro h
    exact ⟨h.fronts, h.closed⟩

instance : DecidablePred Balanced :=
  fun cs => decidable_of_iff _ (iff_inits cs)

theorem of_not_mem {cs : List Char} (hopen : '{' ∉ cs) (hclose : '}' ∉ cs) : Balanced cs where
  fronts := by
    intro front hfront
    rw [List.count_eq_zero.mpr fun hmem => hclose (hfront.subset hmem)]
    exact Nat.zero_le _
  closed := by
    rw [List.count_eq_zero.mpr hopen, List.count_eq_zero.mpr hclose]

theorem nil : Balanced [] :=
  of_not_mem List.not_mem_nil List.not_mem_nil

theorem append (ha : Balanced a) (hb : Balanced b) : Balanced (a ++ b) where
  fronts := by
    intro front hfront
    rcases Listing.prefix_append_cases hfront with hfront | hfront
    · exact ha.fronts front hfront
    · rcases hfront with ⟨rest, hrest, heq⟩
      rw [heq, List.count_append, List.count_append, ha.closed]
      exact Nat.add_le_add_left (hb.fronts rest hrest) _
  closed := by
    rw [List.count_append, List.count_append, ha.closed, hb.closed]

theorem group (h : Balanced a) : Balanced ('{' :: (a ++ ['}'])) where
  fronts := by
    intro front hfront
    rcases List.prefix_cons_iff.mp hfront with heq | hfront
    · rw [heq]
      exact Nat.le_refl 0
    rcases hfront with ⟨inner, heq, hinner⟩
    rw [heq, List.count_cons_of_ne (by decide), List.count_cons_self]
    rcases List.prefix_concat_iff.mp hinner with hwhole | hinner
    · rw [hwhole, List.count_append, List.count_append, h.closed]
      exact Nat.le_refl _
    · exact Nat.le_succ_of_le (h.fronts inner hinner)
  closed := by
    rw [List.count_cons_self, List.count_cons_of_ne (by decide), List.count_append,
      List.count_append, h.closed]
    rfl

theorem command (ha : Balanced a) (hb : Balanced b) : Balanced (a ++ '{' :: (b ++ ['}'])) :=
  ha.append hb.group

end Balanced

/-! ## Open groups -/

/--
The groups that are open at the end of a text, outermost first. Each of them shows what stands in
front of its brace, back to the brace of the group around it.
-/
inductive OpenGroups : List Char → List (List Char) → Prop where
  | none {text : List Char} (h : Balanced text) : OpenGroups text []
  | group {head text : List Char} {heads : List (List Char)} (hhead : Balanced head)
      (h : OpenGroups text heads) : OpenGroups (head ++ '{' :: text) (head :: heads)

namespace OpenGroups

variable {text : List Char} {heads : List (List Char)}

theorem fronts (h : OpenGroups text heads) :
    ∀ front, front <+: text → front.count '}' ≤ front.count '{' := by
  induction h with
  | none h =>
      exact h.fronts
  | group hhead h ih =>
      intro front hfront
      rcases Listing.prefix_append_cases hfront with hfront | hfront
      · exact hhead.fronts front hfront
      rcases hfront with ⟨rest, hrest, heq⟩
      rw [heq, List.count_append, List.count_append, hhead.closed]
      apply Nat.add_le_add_left
      rcases List.prefix_cons_iff.mp hrest with hnil | hrest
      · rw [hnil]
        exact Nat.le_refl 0
      · rcases hrest with ⟨inner, hcons, hinner⟩
        rw [hcons, List.count_cons_of_ne (by decide), List.count_cons_self]
        exact Nat.le_succ_of_le (ih inner hinner)

theorem count_eq (h : OpenGroups text heads) :
    text.count '{' = text.count '}' + heads.length := by
  induction h with
  | none h =>
      exact h.closed
  | group hhead h ih =>
      rw [List.count_append, List.count_append, List.count_cons_self,
        List.count_cons_of_ne (by decide), ih, hhead.closed, List.length_cons]
      omega

/-- A brace with open groups behind it is not closed, so no balanced text goes on beyond it. -/
theorem eq_nil_of_balanced (h : OpenGroups text heads) {head more rest : List Char}
    (hhead : Balanced head) (hmore : Balanced (head ++ more))
    (heq : '{' :: text = more ++ '{' :: rest) : more = [] := by
  cases more with
  | nil =>
      rfl
  | cons c more =>
      rcases List.cons.inj heq with ⟨hc, htext⟩
      have hfronts := h.fronts more ⟨_, htext.symm⟩
      have hclosed := hmore.closed
      rw [← hc, List.count_append, List.count_append, List.count_cons_self,
        List.count_cons_of_ne (by decide), hhead.closed] at hclosed
      omega

theorem group_inj {head head' text' : List Char} {heads' : List (List Char)}
    (hhead : Balanced head) (hhead' : Balanced head') (h : OpenGroups text heads)
    (h' : OpenGroups text' heads') (heq : head ++ '{' :: text = head' ++ '{' :: text') :
    head = head' ∧ text = text' := by
  have hsame : head = head' := by
    rcases List.append_eq_append_iff.mp heq with hmore | hmore
    · rcases hmore with ⟨more, hlonger, htext⟩
      rw [hlonger] at hhead'
      rw [hlonger, h.eq_nil_of_balanced hhead hhead' htext, List.append_nil]
    · rcases hmore with ⟨more, hlonger, htext⟩
      rw [hlonger] at hhead
      rw [hlonger, h'.eq_nil_of_balanced hhead' hhead htext, List.append_nil]
  rw [hsame] at heq
  exact ⟨hsame, List.tail_eq_of_cons_eq (List.append_cancel_left heq)⟩

theorem unique (h : OpenGroups text heads) {others : List (List Char)}
    (hothers : OpenGroups text others) : heads = others := by
  -- The depth of the text is the same, so both have one more group at the same time.
  have hlength : heads.length = others.length :=
    Nat.add_left_cancel (h.count_eq.symm.trans hothers.count_eq)
  induction h generalizing others with
  | none h =>
      exact (List.length_eq_zero_iff.mp hlength.symm).symm
  | @group head text heads hhead h ih =>
      generalize hwhole : head ++ '{' :: text = whole at hothers
      cases hothers with
      | none h' =>
          cases hlength
      | group hhead' h' =>
          rcases group_inj hhead hhead' h h' hwhole with ⟨hhead, htext⟩
          rw [← htext] at h'
          rw [hhead, ih h' (Nat.succ.inj hlength)]

end OpenGroups

/-- Text that opens groups one in another, with nothing else between their heads. -/
def opened (heads : List (List Char)) : List Char :=
  heads.flatMap fun head => head ++ ['{']

theorem opened_cons (head : List Char) (heads : List (List Char)) :
    opened (head :: heads) = head ++ '{' :: opened heads := by
  rw [opened, List.flatMap_cons, List.append_assoc]
  rfl

theorem openGroups_opened {heads : List (List Char)} (h : ∀ head ∈ heads, Balanced head) :
    OpenGroups (opened heads) heads := by
  induction heads with
  | nil =>
      exact .none Balanced.nil
  | cons head heads ih =>
      rw [opened_cons]
      exact .group (h head List.mem_cons_self)
        (ih fun other hother => h other (List.mem_cons_of_mem head hother))

theorem openGroups_opened_iff {heads others : List (List Char)}
    (h : ∀ head ∈ heads, Balanced head) : OpenGroups (opened heads) others ↔ others = heads := by
  constructor
  · intro hothers
    exact hothers.unique (openGroups_opened h)
  · intro heq
    rw [heq]
    exact openGroups_opened h

/-- Text in groups one in another, all of which end behind it. -/
def nested (heads : List (List Char)) (inner : List Char) : List Char :=
  opened heads ++ inner ++ List.replicate heads.length '}'

theorem nested_cons (head : List Char) (heads : List (List Char)) (inner : List Char) :
    nested (head :: heads) inner = head ++ '{' :: (nested heads inner ++ ['}']) := by
  rw [nested, nested, opened_cons, List.length_cons, List.replicate_succ']
  simp

theorem balanced_nested {heads : List (List Char)} (h : ∀ head ∈ heads, Balanced head)
    {inner : List Char} (hinner : Balanced inner) : Balanced (nested heads inner) := by
  induction heads with
  | nil =>
      rw [nested, List.length_nil, List.replicate_zero, List.append_nil]
      exact hinner
  | cons head heads ih =>
      rw [nested_cons]
      exact (h head List.mem_cons_self).command
        (ih fun other hother => h other (List.mem_cons_of_mem head hother))

/-! ## Commands of a style -/

namespace LayerKind

def all : List LayerKind :=
  [underline, italic, bold, background, foreground]

def IsSet (style : Style) : LayerKind → Prop
  | underline => style.underline = true
  | italic => style.italic = true
  | bold => style.bold = true
  | background => style.background ≠ none
  | foreground => style.color ≠ none

instance (style : Style) : DecidablePred (IsSet style)
  | underline => inferInstanceAs (Decidable (style.underline = true))
  | italic => inferInstanceAs (Decidable (style.italic = true))
  | bold => inferInstanceAs (Decidable (style.bold = true))
  | background => inferInstanceAs (Decidable (style.background ≠ none))
  | foreground => inferInstanceAs (Decidable (style.color ≠ none))

def colorOf (style : Style) : LayerKind → Option Color
  | underline => none
  | italic => none
  | bold => none
  | background => style.background
  | foreground => style.color

def command (style : Style) (kind : LayerKind) : List Char :=
  match kind.colorOf style with
  | none => kind.word
  | some color => kind.word ++ '{' :: (color.toRgb.toList ++ ['}'])

def ofStyle (style : Style) : List LayerKind :=
  all.filter fun kind => kind.IsSet style

theorem mem_all (kind : LayerKind) : kind ∈ all := by
  cases kind <;> decide

theorem not_mem_words : ∀ kind ∈ all, '}' ∉ kind.word ∧ '#' ∉ kind.word := by
  decide

theorem balanced_word (kind : LayerKind) : Balanced kind.word :=
  Balanced.of_not_mem kind.not_mem_word (not_mem_words kind kind.mem_all).1

theorem balanced_rgbChars (color : Color) : Balanced color.rgbChars :=
  Balanced.of_not_mem (Color.not_mem_rgbChars (by decide) (by decide) color)
    (Color.not_mem_rgbChars (by decide) (by decide) color)

theorem balanced_command (style : Style) (kind : LayerKind) : Balanced (kind.command style) := by
  unfold command
  split
  · exact kind.balanced_word
  · rename_i color _
    rw [Color.toRgb, String.toList_ofList]
    exact kind.balanced_word.command (balanced_rgbChars color)

theorem not_mem_command (style : Style) (kind : LayerKind) : '#' ∉ kind.command style := by
  have hword := (not_mem_words kind kind.mem_all).2
  unfold command
  split
  · exact hword
  · rename_i color _
    have hrgb : '#' ∉ color.rgbChars := Color.not_mem_rgbChars (by decide) (by decide) color
    rw [Color.toRgb, String.toList_ofList]
    simp [hword, hrgb]

theorem map_command_ofStyle (style : Style) :
    (ofStyle style).map (command style) = (Layer.ofStyle style).map Layer.command := by
  have hrgb : ∀ color : Color, color.toRgb.toList = color.rgbChars := by
    intro color
    rw [Color.toRgb, String.toList_ofList]
  have hcommand : command style = fun kind =>
      match kind.colorOf style with
      | none => kind.word
      | some color => kind.word ++ '{' :: (color.rgbChars ++ ['}']) := by
    funext kind
    simp only [command, hrgb]
  rw [hcommand]
  rcases style with ⟨color, background, bold, italic, underline⟩
  cases color <;> cases background <;> cases bold <;> cases italic <;> cases underline <;> rfl

end LayerKind

/-! ## Macros -/

namespace Preamble

/-- What stands in front of the braces around the argument of a macro, outermost first. -/
def groupHeads (category : Category) (style : Style) : List (List Char) :=
  definitionHead category :: (LayerKind.ofStyle style).map (LayerKind.command style) ++ [[]]

theorem length_groupHeads (category : Category) (style : Style) :
    (groupHeads category style).length = 2 + (LayerKind.ofStyle style).length := by
  rw [groupHeads, List.length_append, List.length_cons, List.length_map, List.length_singleton,
    Nat.add_comm 2]

theorem forall_mem_groupHeads {category : Category} {style : Style} {P : List Char → Prop}
    (hdefinition : P (definitionHead category)) (hcommand : ∀ kind, P (LayerKind.command style kind))
    (hnil : P []) : ∀ head ∈ groupHeads category style, P head := by
  intro head hhead
  rw [groupHeads, List.cons_append, List.mem_cons, List.mem_append, List.mem_map,
    List.mem_singleton] at hhead
  rcases hhead with heq | hhead | heq
  · rw [heq]
    exact hdefinition
  · rcases hhead with ⟨kind, _, heq⟩
    rw [← heq]
    exact hcommand kind
  · rw [heq]
    exact hnil

theorem balanced_groupHeads (category : Category) (style : Style) :
    ∀ head ∈ groupHeads category style, Balanced head := by
  have hdefinition : ∀ category ∈ Category.all, Balanced (definitionHead category) := by
    decide
  exact forall_mem_groupHeads (hdefinition category (Category.mem_all category))
    (LayerKind.balanced_command style) Balanced.nil

theorem foldr_wrap_argument (layers : List Layer) :
    layers.foldr Layer.wrap argument =
      nested (layers.map Layer.command ++ [[]]) ['#', '1'] := by
  induction layers with
  | nil =>
      rfl
  | cons layer layers ih =>
      rw [List.foldr_cons, ih, Layer.wrap, List.map_cons, List.cons_append, nested_cons]

theorem macroChars_eq_nested (category : Category) (style : Style) :
    macroChars category style = nested (groupHeads category style) ['#', '1'] := by
  rw [macroChars_eq, definitionTail, macroBody, foldr_wrap_argument,
    ← LayerKind.map_command_ofStyle, groupHeads, List.cons_append, nested_cons]

theorem not_mem_groupHeads (category : Category) (style : Style) :
    ∀ head ∈ groupHeads category style, '#' ∉ head := by
  have hdefinition : ∀ category ∈ Category.all, '#' ∉ definitionHead category := by
    decide
  exact forall_mem_groupHeads (hdefinition category (Category.mem_all category))
    (LayerKind.not_mem_command style) List.not_mem_nil

/-- The argument stands in the definition at one place. -/
theorem macroChars_eq_append_iff (category : Category) (style : Style) (front rest : List Char) :
    macroChars category style = front ++ '#' :: '1' :: rest ↔
      front = opened (groupHeads category style) ∧
        rest = List.replicate (groupHeads category style).length '}' := by
  have hchars : macroChars category style = opened (groupHeads category style) ++
      '#' :: '1' :: List.replicate (groupHeads category style).length '}' := by
    rw [macroChars_eq_nested, nested, List.append_assoc]
    rfl
  have hopened : '#' ∉ opened (groupHeads category style) := by
    rw [opened, List.mem_flatMap]
    intro hmem
    rcases hmem with ⟨head, hhead, hmem⟩
    rcases List.mem_append.mp hmem with hmem | hmem
    · exact not_mem_groupHeads category style head hhead hmem
    · exact absurd hmem (by decide)
  have hclosing : '#' ∉ '1' :: List.replicate (groupHeads category style).length '}' := by
    intro hmem
    rcases List.mem_cons.mp hmem with heq | hmem
    · exact absurd heq (by decide)
    · exact absurd (List.eq_of_mem_replicate hmem) (by decide)
  rw [hchars]
  constructor
  · intro h
    have hcount := congrArg (List.count '#') h
    rw [List.count_append, List.count_append, List.count_cons_self, List.count_cons_self,
      List.count_eq_zero.mpr hopened, List.count_eq_zero.mpr hclosing] at hcount
    have hfront : '#' ∉ front := List.count_eq_zero.mp (by omega)
    rcases append_mark_inj hopened hfront h with ⟨hsame, hrest⟩
    exact ⟨hsame.symm, (List.tail_eq_of_cons_eq hrest).symm⟩
  · intro h
    rw [h.1, h.2]

theorem balanced_macroChars (category : Category) (style : Style) :
    Balanced (macroChars category style) := by
  rw [macroChars_eq_nested]
  exact balanced_nested (balanced_groupHeads category style)
    (Balanced.of_not_mem (by decide) (by decide))

def shadeCommand : List Char :=
  "\\definecolor\x7bshadecolor\x7d\x7bRGB\x7d".toList

theorem balanced_shadeColor (color : Color) : Balanced (shadeColor color) := by
  have hopen : shadeHead = shadeCommand ++ ['{'] := by
    decide
  have hassoc : ∀ head a b c : List Char,
      (head ++ ['{']) ++ a ++ ',' :: (b ++ ',' :: (c ++ ['}'])) =
        head ++ '{' :: (a ++ ([','] ++ (b ++ ([','] ++ c))) ++ ['}']) := by
    simp
  have hchars : shadeColor color = shadeHead ++ Numeral.ofNat color.red.val ++
      ',' :: (Numeral.ofNat color.green.val ++ ',' :: (Numeral.ofNat color.blue.val ++ ['}'])) :=
    rfl
  have hcommand : Balanced shadeCommand := by
    decide
  have hcomma : Balanced [','] := Balanced.of_not_mem (by decide) (by decide)
  have hnumeral : ∀ n, Balanced (Numeral.ofNat n) := fun n =>
    Balanced.of_not_mem (Numeral.not_mem_ofNat (by decide) n) (Numeral.not_mem_ofNat (by decide) n)
  rw [hchars, hopen, hassoc]
  apply hcommand.command
  exact (hnumeral _).append (hcomma.append ((hnumeral _).append (hcomma.append (hnumeral _))))

theorem balanced_of_mem_lines {theme : Theme} {line : List Char} (h : line ∈ lines theme) :
    Balanced line := by
  have hpackages : ∀ line ∈ packages, Balanced line := by
    decide
  simp only [lines, List.mem_append, List.mem_map] at h
  rcases h with (h | ⟨color, _, rfl⟩) | ⟨entry, _, rfl⟩
  · exact hpackages line h
  · exact balanced_shadeColor color
  · exact balanced_macroChars entry.1 entry.2

end Preamble

/--
The definition of a macro is balanced and has its argument in it once, at a depth of two more than the
number of fields of the style that are set. The groups that are open there are those of the definition,
of the commands for the fields that are set, from the underline to the color of the text, and one that
holds nothing else. Colors are shown in hundredths of the full scale. Every line of a preamble is
balanced.
-/
theorem macros_nested :
    (∀ (category : Category) (style : Style),
      Balanced (macroDefinition category style).toList ∧
      ∃ before after,
        (∀ front rest, (macroDefinition category style).toList = front ++ '#' :: '1' :: rest ↔
          front = before ∧ rest = after) ∧
        before.count '{' = before.count '}' + (2 + (LayerKind.ofStyle style).length) ∧
        ∀ heads, OpenGroups before heads ↔
          heads = definitionHead category ::
            (LayerKind.ofStyle style).map (LayerKind.command style) ++ [[]]) ∧
    (∀ color : Color, color.toRgb.toList =
      hundredthsText (roundDiv (100 * color.red.val) 255) ++
        ',' :: (hundredthsText (roundDiv (100 * color.green.val) 255) ++
          ',' :: hundredthsText (roundDiv (100 * color.blue.val) 255))) ∧
    ∀ theme : Theme, ∀ line ∈ (preamble theme).toList.splitOn '\n', Balanced line := by
  refine ⟨?_, Color.toList_toRgb, ?_⟩
  · intro category style
    have hgroups := Preamble.balanced_groupHeads category style
    have hopened := openGroups_opened hgroups
    rw [macroDefinition, String.toList_ofList]
    refine ⟨Preamble.balanced_macroChars category style, opened (Preamble.groupHeads category style),
      List.replicate (Preamble.groupHeads category style).length '}',
      Preamble.macroChars_eq_append_iff category style, ?_, ?_⟩
    · rw [hopened.count_eq, Preamble.length_groupHeads]
    · intro heads
      exact openGroups_opened_iff hgroups
  · intro theme line hline
    rw [Preamble.splitOn_preamble, List.mem_append, List.mem_singleton] at hline
    rcases hline with hline | hline
    · exact Preamble.balanced_of_mem_lines hline
    · rw [hline]
      exact Balanced.nil

end Latex
end Highlighting
