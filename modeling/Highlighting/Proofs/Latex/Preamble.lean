import Highlighting.Proofs.Color.Hundredths
import Highlighting.Proofs.Css.Coverage
import Mathlib.Data.Prod.Basic

/-!
# Decoding preambles

Two themes have the same preamble exactly if they have the same color behind the code and the same
categories in the same order, with styles that are the same up to the hundredths of their colors,
apart from normal text. A macro is read back layer by layer from the outside: the word of a layer
ends at the first brace, and it shows whether a color stands between that brace and the next one.
-/

namespace Highlighting

/-! ## Rounded styles -/

/-- A style with its colors in hundredths. -/
structure RoundedStyle where
  color : Option (ℤ × ℤ × ℤ)
  background : Option (ℤ × ℤ × ℤ)
  bold : Bool
  italic : Bool
  underline : Bool
  deriving DecidableEq, Repr

def Style.rounded (style : Style) : RoundedStyle where
  color := style.color.map Color.hundredths
  background := style.background.map Color.hundredths
  bold := style.bold
  italic := style.italic
  underline := style.underline

namespace Latex

/-! ## Layers -/

inductive LayerKind where
  | underline
  | italic
  | bold
  | background
  | foreground
  deriving DecidableEq, Repr

namespace LayerKind

def word : LayerKind → List Char
  | underline => "\\underline".toList
  | italic => "\\textit".toList
  | bold => "\\textbf".toList
  | background => "\\colorbox[rgb]".toList
  | foreground => "\\textcolor[rgb]".toList

def colored : LayerKind → Bool
  | underline => false
  | italic => false
  | bold => false
  | background => true
  | foreground => true

def ofWord? (word : List Char) : Option LayerKind :=
  [underline, italic, bold, background, foreground].find? fun kind => kind.word = word

theorem ofWord?_word (kind : LayerKind) : ofWord? kind.word = some kind := by
  cases kind with
  | underline =>
      decide
  | italic =>
      decide
  | bold =>
      decide
  | background =>
      decide
  | foreground =>
      decide

theorem word_injective : Function.Injective word := by
  intro k l h
  have hread := ofWord?_word k
  rw [h, ofWord?_word] at hread
  exact (Option.some.inj hread).symm

theorem not_mem_word (kind : LayerKind) : '{' ∉ kind.word := by
  cases kind with
  | underline =>
      decide
  | italic =>
      decide
  | bold =>
      decide
  | background =>
      decide
  | foreground =>
      decide

end LayerKind

namespace Layer

def kind : Layer → LayerKind
  | underline => .underline
  | italic => .italic
  | bold => .bold
  | background _ => .background
  | foreground _ => .foreground

def color? : Layer → Option Color
  | underline => none
  | italic => none
  | bold => none
  | background color => some color
  | foreground color => some color

theorem isSome_color? (layer : Layer) : layer.color?.isSome = layer.kind.colored := by
  cases layer with
  | underline =>
      rfl
  | italic =>
      rfl
  | bold =>
      rfl
  | background color =>
      rfl
  | foreground color =>
      rfl

def behind (color? : Option Color) (body : List Char) : List Char :=
  match color? with
  | none => body ++ ['}']
  | some color => color.rgbChars ++ '}' :: '{' :: (body ++ ['}'])

theorem wrap_eq (layer : Layer) (body : List Char) :
    layer.wrap body = layer.kind.word ++ '{' :: behind layer.color? body := by
  have hcolored : ∀ (word : List Char) (color : Color),
      word ++ '{' :: (color.rgbChars ++ ['}']) ++ '{' :: (body ++ ['}']) =
        word ++ '{' :: behind (some color) body := by
    intro word color
    simp [behind]
  cases layer with
  | underline =>
      rfl
  | italic =>
      rfl
  | bold =>
      rfl
  | background color =>
      exact hcolored "\\colorbox[rgb]".toList color
  | foreground color =>
      exact hcolored "\\textcolor[rgb]".toList color

theorem head?_wrap (layer : Layer) (body : List Char) :
    (layer.wrap body).head? = some '\\' := by
  cases layer with
  | underline =>
      rfl
  | italic =>
      rfl
  | bold =>
      rfl
  | background color =>
      rfl
  | foreground color =>
      rfl

theorem behind_eq_iff {c d : Option Color} (hsome : c.isSome = d.isSome) (a b : List Char) :
    behind c a = behind d b ↔ c.map Color.hundredths = d.map Color.hundredths ∧ a = b := by
  cases c with
  | none =>
      cases d with
      | none =>
          simp [behind]
      | some d =>
          cases hsome
  | some c =>
      cases d with
      | none =>
          cases hsome
      | some d =>
          have hbrace : ∀ color : Color, '}' ∉ color.rgbChars :=
            Color.not_mem_rgbChars (by decide) (by decide)
          rw [Option.map_some, Option.map_some, Option.some.injEq, ← Color.rgbChars_eq_iff]
          constructor
          · intro h
            rcases append_mark_inj (hbrace c) (hbrace d) h with ⟨hcolor, hbody⟩
            exact ⟨hcolor, List.append_cancel_right (List.tail_eq_of_cons_eq hbody)⟩
          · intro h
            rcases h with ⟨hcolor, rfl⟩
            rw [behind, behind, hcolor]

def rounded (layer : Layer) : LayerKind × Option (ℤ × ℤ × ℤ) :=
  (layer.kind, layer.color?.map Color.hundredths)

theorem wrap_eq_iff (l m : Layer) (a b : List Char) :
    l.wrap a = m.wrap b ↔ l.rounded = m.rounded ∧ a = b := by
  have hsome : l.kind = m.kind → l.color?.isSome = m.color?.isSome := by
    intro hkind
    rw [isSome_color?, isSome_color?, hkind]
  rw [wrap_eq, wrap_eq, rounded, rounded, Prod.mk.injEq, and_assoc]
  constructor
  · intro h
    rcases append_mark_inj l.kind.not_mem_word m.kind.not_mem_word h with ⟨hword, hbehind⟩
    have hkind := LayerKind.word_injective hword
    exact ⟨hkind, (behind_eq_iff (hsome hkind) a b).mp hbehind⟩
  · intro h
    rcases h with ⟨hkind, hbehind⟩
    rw [hkind, (behind_eq_iff (hsome hkind) a b).mpr hbehind]

def ofRounded (style : RoundedStyle) : List (LayerKind × Option (ℤ × ℤ × ℤ)) :=
  (if style.underline then [(LayerKind.underline, none)] else []) ++
  (if style.italic then [(LayerKind.italic, none)] else []) ++
  (if style.bold then [(LayerKind.bold, none)] else []) ++
  (style.background.toList.map fun color => (LayerKind.background, some color)) ++
  (style.color.toList.map fun color => (LayerKind.foreground, some color))

theorem map_rounded_ofStyle (style : Style) :
    (ofStyle style).map rounded = ofRounded style.rounded := by
  obtain ⟨color, background, bold, italic, underline⟩ := style
  cases color <;> cases background <;> cases bold <;> cases italic <;> cases underline <;> rfl

def toRounded (layers : List (LayerKind × Option (ℤ × ℤ × ℤ))) : RoundedStyle where
  color := layers.findSome? fun layer => if layer.1 = .foreground then layer.2 else none
  background := layers.findSome? fun layer => if layer.1 = .background then layer.2 else none
  bold := layers.any fun layer => layer.1 = .bold
  italic := layers.any fun layer => layer.1 = .italic
  underline := layers.any fun layer => layer.1 = .underline

theorem toRounded_ofRounded (style : RoundedStyle) : toRounded (ofRounded style) = style := by
  obtain ⟨color, background, bold, italic, underline⟩ := style
  cases color <;> cases background <;> cases bold <;> cases italic <;> cases underline <;> rfl

theorem ofRounded_injective : Function.Injective ofRounded :=
  Function.LeftInverse.injective toRounded_ofRounded

end Layer

/-! ## Macros -/

namespace Preamble

theorem argument_ne_wrap (layer : Layer) (body : List Char) : argument ≠ layer.wrap body := by
  intro h
  have hhead := layer.head?_wrap body
  rw [← h] at hhead
  exact absurd hhead (by decide)

/-- Nested layers are read from the outside, down to the argument. -/
theorem foldr_wrap_eq_iff (ls ms : List Layer) :
    ls.foldr Layer.wrap argument = ms.foldr Layer.wrap argument ↔
      ls.map Layer.rounded = ms.map Layer.rounded := by
  induction ls generalizing ms with
  | nil =>
      cases ms with
      | nil =>
          simp
      | cons m ms =>
          simp [argument_ne_wrap]
  | cons l ls ih =>
      cases ms with
      | nil =>
          simp [(argument_ne_wrap _ _).symm]
      | cons m ms =>
          rw [List.foldr_cons, List.foldr_cons, Layer.wrap_eq_iff, ih, List.map_cons, List.map_cons,
            List.cons.injEq]

theorem macroBody_eq_iff (s t : Style) : macroBody s = macroBody t ↔ s.rounded = t.rounded := by
  rw [macroBody, macroBody, foldr_wrap_eq_iff, Layer.map_rounded_ofStyle,
    Layer.map_rounded_ofStyle, Layer.ofRounded_injective.eq_iff]

theorem macroChars_eq_iff (c d : Category) (s t : Style) :
    macroChars c s = macroChars d t ↔ c = d ∧ s.rounded = t.rounded := by
  rw [← macroBody_eq_iff, macroChars_eq, macroChars_eq]
  constructor
  · intro h
    have hcategory : c = d := by
      by_contra hne
      have hunlike := definitionHead_unlike c (Category.mem_all c) d (Category.mem_all d) hne
      exact Listing.not_prefix_of_unlike hunlike ⟨_, h⟩ (List.prefix_append _ _)
    subst hcategory
    have htail := List.tail_eq_of_cons_eq (List.append_cancel_left h)
    exact ⟨rfl, List.append_cancel_right htail⟩
  · intro h
    rcases h with ⟨rfl, hbody⟩
    rw [definitionTail, definitionTail, hbody]

/-! ## Lines -/

theorem shadeColor_injective : Function.Injective shadeColor := by
  have hcomma : ∀ n : Nat, ',' ∉ Numeral.ofNat n :=
    Numeral.not_mem_ofNat (by decide)
  intro c d h
  have hchannels : ∀ color : Color, shadeColor color = shadeHead ++
      (Numeral.ofNat color.red.val ++ ',' :: (Numeral.ofNat color.green.val ++
        ',' :: (Numeral.ofNat color.blue.val ++ ['}']))) :=
    fun color => List.append_assoc shadeHead _ _
  rw [hchannels, hchannels] at h
  rcases append_mark_inj (hcomma _) (hcomma _) (List.append_cancel_left h) with ⟨hred, hrest⟩
  rcases append_mark_inj (hcomma _) (hcomma _) hrest with ⟨hgreen, hrest⟩
  have hblue := List.append_cancel_right hrest
  cases c
  cases d
  cases Fin.ext (Numeral.ofNat_injective hred)
  cases Fin.ext (Numeral.ofNat_injective hgreen)
  cases Fin.ext (Numeral.ofNat_injective hblue)
  rfl

/-- The second character of a line shows whether it defines the color behind the code. -/
theorem filter_lines (theme : Theme) :
    (shadeLines theme ++ macroLines theme).filter (fun cs => cs[1]? = some 'd') =
      shadeLines theme := by
  have hshade : (shadeLines theme).filter (fun cs => cs[1]? = some 'd') = shadeLines theme := by
    rw [List.filter_eq_self]
    intro line hline
    rcases List.mem_map.mp hline with ⟨color, _, rfl⟩
    exact decide_eq_true rfl
  have hmacro : (macroLines theme).filter (fun cs => cs[1]? = some 'd') = [] := by
    rw [List.filter_eq_nil_iff]
    intro line hline hsecond
    rcases List.mem_map.mp hline with ⟨entry, _, rfl⟩
    have hnewcommand : (macroChars entry.1 entry.2)[1]? = some 'n' := rfl
    rw [decide_eq_true_iff, hnewcommand] at hsecond
    exact absurd hsecond (by decide)
  rw [List.filter_append, hshade, hmacro, List.append_nil]

theorem lines_eq_iff (a b : Theme) :
    lines a = lines b ↔ shadeLines a = shadeLines b ∧ macroLines a = macroLines b := by
  have hlines : ∀ theme, lines theme = packages ++ (shadeLines theme ++ macroLines theme) := by
    intro theme
    rw [← List.append_assoc]
    rfl
  rw [hlines, hlines]
  constructor
  · intro h
    have hbehind := List.append_cancel_left h
    have hshade : shadeLines a = shadeLines b := by
      rw [← filter_lines, hbehind, filter_lines]
    rw [hshade] at hbehind
    exact ⟨hshade, List.append_cancel_left hbehind⟩
  · intro h
    rw [h.1, h.2]

theorem shadeLines_eq_iff (a b : Theme) :
    shadeLines a = shadeLines b ↔ a.backgroundColor = b.backgroundColor := by
  have hhead : ∀ theme, (shadeLines theme).head? = theme.backgroundColor.map shadeColor := by
    intro theme
    rw [shadeLines, List.head?_map, Option.head?_toList]
  constructor
  · intro h
    have hcolor := hhead a
    rw [h, hhead] at hcolor
    exact (Option.map_injective shadeColor_injective hcolor).symm
  · intro h
    rw [shadeLines, shadeLines, h]

theorem macroLines_eq_iff (a b : Theme) :
    macroLines a = macroLines b ↔
      a.visibleStyles.map (Prod.map id Style.rounded) =
        b.visibleStyles.map (Prod.map id Style.rounded) := by
  have hentry : ∀ x y : Category × Style, macroChars x.1 x.2 = macroChars y.1 y.2 ↔
      Prod.map id Style.rounded x = Prod.map id Style.rounded y := by
    intro x y
    rw [macroChars_eq_iff, Prod.ext_iff]
    rfl
  have hmap : ∀ {β : Type} (f : Category × Style → β),
      a.visibleStyles.map f = b.visibleStyles.map f ↔
        List.Forall₂ (fun x y => f x = f y) a.visibleStyles b.visibleStyles := by
    intro β f
    rw [← List.forall₂_eq_eq_eq, List.forall₂_map_left_iff, List.forall₂_map_right_iff]
  rw [macroLines, macroLines, hmap, hmap]
  simp only [hentry]

end Preamble

/--
A preamble shows the color behind the code, and the styles of the categories in their order up to
the hundredths of their colors, none of which is a tie. The name of the theme, its color of the text
and its style of normal text do not show.
-/
theorem preamble_eq_iff (a b : Theme) :
    (preamble a = preamble b ↔
      a.backgroundColor = b.backgroundColor ∧
        a.visibleStyles.map (Prod.map id Style.rounded) =
          b.visibleStyles.map (Prod.map id Style.rounded)) ∧
    ∀ (channel : Channel) (n : ℤ), 100 * (channel.val : ℚ) / 255 ≠ n + 1 / 2 := by
  refine ⟨?_, Channel.scaled_ne_half⟩
  rw [← Preamble.shadeLines_eq_iff, ← Preamble.macroLines_eq_iff, ← Preamble.lines_eq_iff]
  constructor
  · intro h
    have hlines := Preamble.splitOn_preamble a
    rw [h, Preamble.splitOn_preamble b] at hlines
    exact (List.append_cancel_right hlines).symm
  · intro h
    rw [preamble, preamble, h]

end Latex
end Highlighting
