import Highlighting.Latex.Listing
import Mathlib.Data.List.Infix

/-!
# Containment of LaTeX listings

Token texts cannot leave the verbatim material that holds them. Two things are followed through the
blocks that a listing consists of: which commands its backslashes start, and how deep its braces are
nested in front of every character.
-/

namespace Highlighting
namespace Latex
namespace Listing

/-!
## Commands
-/

/-- What may stand behind a backslash in the lines of a listing. -/
def commands : List (List Char) :=
  [['{'], ['}'], "textbackslash\x7b\x7d".toList] ++
    (Category.all.filter fun category => category ≠ .normal).map fun category =>
      category.short.toList ++ ['{']

def commandsAre (words : List (List Char)) : List Char → Bool
  | [] => true
  | c :: cs =>
      (c != '\\' || words.any fun word => word.isPrefixOf cs) && commandsAre words cs

theorem commandsAre_append {words : List (List Char)} {a b : List Char}
    (ha : commandsAre words a = true) (hb : commandsAre words b = true) :
    commandsAre words (a ++ b) = true := by
  induction a with
  | nil =>
      exact hb
  | cons c a ih =>
      simp only [commandsAre, Bool.and_eq_true, Bool.or_eq_true, bne_iff_ne, ne_eq,
        List.any_eq_true, List.isPrefixOf_iff_prefix] at ha
      simp only [List.cons_append, commandsAre, Bool.and_eq_true, Bool.or_eq_true, bne_iff_ne,
        ne_eq, List.any_eq_true, List.isPrefixOf_iff_prefix]
      refine ⟨?_, ih ha.2⟩
      rcases ha.1 with hc | ⟨word, hword, hstart⟩
      · exact Or.inl hc
      · exact Or.inr ⟨word, hword, hstart.trans (List.prefix_append a b)⟩

theorem commandsAre_of_not_mem {words : List (List Char)} {cs : List Char} (h : '\\' ∉ cs) :
    commandsAre words cs = true := by
  induction cs with
  | nil =>
      rfl
  | cons c cs ih =>
      have hc : c ≠ '\\' := fun heq => h (by simp [heq])
      have hcs : '\\' ∉ cs := fun hmem => h (List.mem_cons_of_mem c hmem)
      simp [commandsAre, hc, ih hcs]

theorem commandsAre_mono {words others : List (List Char)} (hsub : words ⊆ others)
    {cs : List Char} (h : commandsAre words cs = true) : commandsAre others cs = true := by
  induction cs with
  | nil =>
      rfl
  | cons c cs ih =>
      simp only [commandsAre, Bool.and_eq_true, Bool.or_eq_true, List.any_eq_true] at h ⊢
      refine ⟨?_, ih h.2⟩
      rcases h.1 with hc | ⟨word, hword, hstart⟩
      · exact Or.inl hc
      · exact Or.inr ⟨word, hsub hword, hstart⟩

theorem commandsAre_flatMap {α : Type} {words : List (List Char)} {f : α → List Char}
    (h : ∀ x, commandsAre words (f x) = true) (xs : List α) :
    commandsAre words (xs.flatMap f) = true := by
  induction xs with
  | nil =>
      rfl
  | cons x xs ih =>
      exact commandsAre_append (h x) ih

theorem exists_word_of_commandsAre {words : List (List Char)} {cs before after : List Char}
    (h : commandsAre words cs = true) (hcs : cs = before ++ '\\' :: after) :
    ∃ word ∈ words, word <+: after := by
  subst hcs
  induction before with
  | nil =>
      simpa [commandsAre] using (Bool.and_eq_true_iff.mp h).1
  | cons c before ih =>
      exact ih (Bool.and_eq_true_iff.mp h).2

theorem commandsAre_escapeChar (c : Char) : commandsAre commands (escapeChar c) = true := by
  unfold escapeChar
  split
  · decide
  · decide
  · decide
  · rename_i hbackslash _ _
    exact commandsAre_of_not_mem (by simpa [eq_comm] using hbackslash)

def macroHead (category : Category) : List Char :=
  '\\' :: (category.short.toList ++ ['{'])

theorem commandsAre_macroHead :
    ∀ category ∈ Category.all, category ≠ .normal →
      commandsAre commands (macroHead category) = true := by
  decide

theorem commandsAre_token (t : Token) : commandsAre commands (token t) = true := by
  have htext : commandsAre commands (escapeChars t.text.toList) = true :=
    commandsAre_flatMap commandsAre_escapeChar _
  unfold token
  split
  · exact htext
  · rename_i hnormal
    have hhead := commandsAre_macroHead t.category (Category.mem_all t.category) hnormal
    have hclose : commandsAre commands ['}'] = true := by
      decide
    have hrest := commandsAre_append htext hclose
    simpa [macroHead] using commandsAre_append hhead hrest

theorem commandsAre_body (document : Document) : commandsAre commands (body document) = true := by
  apply commandsAre_flatMap
  intro tokens
  exact commandsAre_append (commandsAre_flatMap commandsAre_token tokens) (by decide)

theorem commands_prefix_free :
    ∀ a ∈ commands, ∀ b ∈ commands, a.isPrefixOf b = true → a = b := by
  decide

/-!
## Braces

The depth of a text counts its braces, except for those directly behind a backslash. Blocks whose
depth is never negative and zero at the end can be put one behind the other, provided that none of
them ends in a backslash, which would hide a brace at the beginning of the next one.
-/

def weight (c : Char) : Int :=
  if c = '{' then 1 else if c = '}' then -1 else 0

/-- Depth of a text; `hidden` says whether a backslash stands directly in front of it. -/
def depthFrom (hidden : Bool) : List Char → Int
  | [] => 0
  | c :: cs => (if hidden then 0 else weight c) + depthFrom (c == '\\') cs

/-- Opened braces of a text that it does not close, without those directly behind a backslash. -/
def depth (cs : List Char) : Int :=
  depthFrom false cs

theorem depthFrom_append (hidden : Bool) (a b : List Char) (h : a ≠ []) :
    depthFrom hidden (a ++ b) =
      depthFrom hidden a + depthFrom (a.getLast h == '\\') b := by
  induction a generalizing hidden with
  | nil =>
      exact absurd rfl h
  | cons c a ih =>
      cases a with
      | nil =>
          simp [depthFrom]
      | cons d a =>
          have hcons : ∀ cs, depthFrom hidden (c :: cs) =
              (if hidden then 0 else weight c) + depthFrom (c == '\\') cs := fun _ => rfl
          have hrest := ih (c == '\\') (List.cons_ne_nil d a)
          rw [List.cons_append, hcons, hcons, hrest, List.getLast_cons (List.cons_ne_nil d a),
            Int.add_assoc]

theorem depth_append {a : List Char} (h : a.getLast? ≠ some '\\') (b : List Char) :
    depth (a ++ b) = depth a + depth b := by
  cases a with
  | nil =>
      simp [depth, depthFrom]
  | cons c a =>
      have hne : c :: a ≠ [] := by
        simp
      have hlast : ((c :: a).getLast hne == '\\') = false := by
        rw [List.getLast?_eq_some_getLast hne] at h
        simpa using h
      rw [depth, depthFrom_append false _ b hne, hlast, depth, depth]

/-- Balanced text that is nowhere deeper than a height and does not end in a backslash. -/
structure Contained (height : Int) (cs : List Char) : Prop where
  bounds : ∀ front, front <+: cs → 0 ≤ depth front ∧ depth front ≤ height
  closed : depth cs = 0
  last : cs.getLast? ≠ some '\\'

/-- Computed form of containment, for blocks that are given character by character. -/
theorem Contained.ofInits {height : Int} {cs : List Char}
    (h : (∀ front ∈ cs.inits, 0 ≤ depth front ∧ depth front ≤ height) ∧ depth cs = 0 ∧
      cs.getLast? ≠ some '\\') : Contained height cs where
  bounds := fun front hfront => h.1 front ((List.mem_inits front cs).mpr hfront)
  closed := h.2.1
  last := h.2.2

theorem prefix_append_cases {front a b : List Char} (h : front <+: a ++ b) :
    front <+: a ∨ ∃ rest, rest <+: b ∧ front = a ++ rest := by
  rcases h with ⟨tail, htail⟩
  rcases List.append_eq_append_iff.mp htail with ⟨m, ha, _⟩ | ⟨m, hfront, hb⟩
  · exact Or.inl ⟨m, ha.symm⟩
  · exact Or.inr ⟨m, ⟨tail, hb.symm⟩, hfront⟩

namespace Contained

variable {height : Int} {a b : List Char}

theorem mono {other : Int} (h : Contained height a) (hle : height ≤ other) :
    Contained other a where
  bounds := fun front hfront =>
    ⟨(h.bounds front hfront).1, Int.le_trans (h.bounds front hfront).2 hle⟩
  closed := h.closed
  last := h.last

theorem append (ha : Contained height a) (hb : Contained height b) :
    Contained height (a ++ b) where
  bounds := by
    intro front hfront
    rcases prefix_append_cases hfront with hfront | ⟨rest, hrest, rfl⟩
    · exact ha.bounds front hfront
    · rw [depth_append ha.last, ha.closed, Int.zero_add]
      exact hb.bounds rest hrest
  closed := by
    rw [depth_append ha.last, ha.closed, hb.closed]
    rfl
  last := by
    rw [List.getLast?_append]
    cases hlast : b.getLast? with
    | none =>
        exact ha.last
    | some c =>
        simpa [hlast] using hb.last

theorem flatMap {α : Type} {f : α → List Char} (h0 : 0 ≤ height)
    (h : ∀ x, Contained height (f x)) (xs : List α) : Contained height (xs.flatMap f) := by
  induction xs with
  | nil =>
      refine ⟨?_, rfl, by simp⟩
      intro front hfront
      rw [List.prefix_nil.mp hfront]
      exact ⟨Int.le_refl 0, h0⟩
  | cons x xs ih =>
      exact (h x).append ih

theorem depth_closing (h : Contained height a) : depth (a ++ ['}']) = -1 := by
  rw [depth_append h.last, h.closed]
  rfl

theorem wrap {head : List Char}
    (hbounds : ∀ front, front <+: head → 0 ≤ depth front ∧ depth front ≤ 1)
    (hdepth : depth head = 1) (hlast : head.getLast? ≠ some '\\') (h0 : 0 ≤ height)
    (h : Contained height a) : Contained (height + 1) (head ++ (a ++ ['}'])) where
  bounds := by
    intro front hfront
    rcases prefix_append_cases hfront with hfront | ⟨rest, hrest, rfl⟩
    · have hhead := hbounds front hfront
      exact ⟨hhead.1, by omega⟩
    rw [depth_append hlast, hdepth]
    rcases List.prefix_concat_iff.mp hrest with rfl | hrest
    · rw [h.depth_closing]
      omega
    · have hinner := h.bounds rest hrest
      omega
  closed := by
    rw [depth_append hlast, hdepth, h.depth_closing]
    rfl
  last := by
    simp

end Contained

theorem contained_escapeChar (c : Char) : Contained 1 (escapeChar c) := by
  unfold escapeChar
  split
  · exact Contained.ofInits (by decide)
  · exact Contained.ofInits (by decide)
  · exact Contained.ofInits (by decide)
  · rename_i hbackslash hopen hclose
    have hweight : weight c = 0 := by
      rw [weight, if_neg hopen, if_neg hclose]
    have hdepth : depth [c] = 0 := by
      simp [depth, depthFrom, hweight]
    have hempty : depth [] = 0 := rfl
    exact Contained.ofInits ⟨by simp [hdepth, hempty], hdepth, by simpa using hbackslash⟩

theorem contained_escapeChars (cs : List Char) : Contained 1 (escapeChars cs) :=
  Contained.flatMap (by decide) contained_escapeChar cs

theorem macroHead_bounds :
    ∀ category ∈ Category.all, category ≠ .normal →
      (∀ front ∈ (macroHead category).inits, 0 ≤ depth front ∧ depth front ≤ 1) ∧
        depth (macroHead category) = 1 ∧ (macroHead category).getLast? ≠ some '\\' := by
  decide

theorem contained_token (t : Token) : Contained 2 (token t) := by
  have htext := contained_escapeChars t.text.toList
  unfold token
  split
  · exact htext.mono (by decide)
  · rename_i hnormal
    rcases macroHead_bounds t.category (Category.mem_all t.category) hnormal with
      ⟨hbounds, hdepth, hlast⟩
    have hfronts : ∀ front, front <+: macroHead t.category → 0 ≤ depth front ∧ depth front ≤ 1 :=
      fun front hfront => hbounds front ((List.mem_inits front _).mpr hfront)
    simpa [macroHead] using Contained.wrap hfronts hdepth hlast (by decide) htext

theorem contained_line (tokens : List Token) : Contained 2 (line tokens) :=
  (Contained.flatMap (by decide) contained_token tokens).append (Contained.ofInits (by decide))

theorem contained_lines (document : Document) : Contained 2 (document.flatMap line) :=
  Contained.flatMap (by decide) contained_line document

/-!
## Listings
-/

theorem header_inline {config : Config} (h : config.inline = true) :
    header config = "\\Verb[commandchars=\\\\\\\x7b\\\x7d]\x7b".toList := by
  rw [header, if_pos h]
  rfl

/-- Behind the brace that an inline listing opens, only its last character gets out of it again. -/
theorem depth_lt_one_iff_inline {config : Config} (h : config.inline = true) (document : Document)
    {front : List Char} (hheader : header config <+: front)
    (hfront : front <+: header config ++ (body document ++ ['}'])) :
    depth front < 1 ↔ front = header config ++ (body document ++ ['}']) := by
  rcases hheader with ⟨rest, rfl⟩
  rw [List.prefix_append_right_inj] at hfront
  have hbody : Contained 2 (body document) := contained_lines document
  have hdepth : depth (header config) = 1 := by
    rw [header_inline h]
    decide
  have hlast : (header config).getLast? ≠ some '\\' := by
    rw [header_inline h]
    decide
  rw [depth_append hlast, hdepth, List.append_cancel_left_eq]
  rcases List.prefix_concat_iff.mp hfront with rfl | hrest
  · rw [hbody.depth_closing]
    simp
  · have hbounds := hbody.bounds rest hrest
    constructor
    · intro hlt
      omega
    · intro h
      rcases h with rfl
      have hlength := hrest.length_le
      rw [List.length_append, List.length_singleton] at hlength
      omega

def headerWords : List (List Char) :=
  ["begin".toList, ['\\'], ['{'], ['}']]

theorem commandsAre_header {config : Config} (h : config.inline = false) :
    commandsAre headerWords (header config) = true := by
  have hnumeral : '\\' ∉ Numeral.ofInt config.numberFrom := by
    intro hmem
    rcases Numeral.mem_ofInt hmem with hc | hc
    · exact absurd hc (by decide)
    · exact absurd hc (by decide)
  have hstart : commandsAre headerWords
      (if config.numberFrom ≠ 1 then
        "firstnumber=".toList ++ Numeral.ofInt config.numberFrom ++ [','] else []) = true := by
    split
    · apply commandsAre_of_not_mem
      simp [hnumeral]
    · rfl
  have hnumbers : commandsAre headerWords
      (if config.numberLines then
        "numbers=left,".toList ++ if config.numberFrom ≠ 1 then
          "firstnumber=".toList ++ Numeral.ofInt config.numberFrom ++ [','] else []
      else []) = true := by
    split
    · exact commandsAre_append (by decide) hstart
    · rfl
  have hoptions : commandsAre headerWords (environmentOptions config) = true :=
    commandsAre_append hnumbers (by decide)
  rw [header, if_neg (by simp [h])]
  exact commandsAre_append (commandsAre_append (by decide) hoptions) (by decide)

def ending : List Char :=
  "end\x7bVerbatim\x7d".toList

theorem not_prefix_of_unlike {a b cs : List Char}
    (h : a.isPrefixOf b = false ∧ b.isPrefixOf a = false) (ha : a <+: cs) : ¬ b <+: cs := by
  intro hb
  rcases List.prefix_or_prefix_of_prefix ha hb with hab | hba
  · rw [← List.isPrefixOf_iff_prefix, h.1] at hab
    cases hab
  · rw [← List.isPrefixOf_iff_prefix, h.2] at hba
    cases hba

theorem ending_unlike_words :
    ∀ word ∈ headerWords ++ commands,
      word.isPrefixOf ending = false ∧ ending.isPrefixOf word = false := by
  decide

theorem not_ending_of_word {word rest : List Char} (hword : word ∈ headerWords ++ commands)
    (hstart : word <+: rest) : ¬ ending <+: rest :=
  not_prefix_of_unlike (ending_unlike_words word hword) hstart

/-- The command that ends a block stands behind its lines and nowhere else. -/
theorem ending_unique {config : Config} (h : config.inline = false) (document : Document)
    (before after : List Char) :
    header config ++ body document ++ '\\' :: ending = before ++ '\\' :: (ending ++ after) ↔
      before = header config ++ body document ∧ after = [] := by
  have hwords : commandsAre (headerWords ++ commands) (header config ++ body document) = true :=
    commandsAre_append
      (commandsAre_mono (List.subset_append_left _ _) (commandsAre_header h))
      (commandsAre_mono (List.subset_append_right _ _) (commandsAre_body document))
  constructor
  · intro heq
    -- Either the two commands stand at one place, or the second one stands inside of the lines.
    rcases List.append_eq_append_iff.mp heq with ⟨m, hbefore, hm⟩ | ⟨m, hlines, hm⟩
    · have hlength := congrArg List.length hm
      simp only [List.length_cons, List.length_append] at hlength
      have hnil : m = [] := List.eq_nil_of_length_eq_zero (by omega)
      have hafter : after = [] := List.eq_nil_of_length_eq_zero (by omega)
      exact ⟨by rw [hbefore, hnil, List.append_nil], hafter⟩
    · cases m with
      | nil =>
          rw [List.append_nil] at hlines
          simpa [hlines] using hm
      | cons c m =>
          obtain ⟨rfl, hrest⟩ := List.cons.inj hm
          rcases exists_word_of_commandsAre hwords hlines with ⟨word, hword, hstart⟩
          have hlonger : word <+: m ++ '\\' :: ending :=
            hstart.trans (List.prefix_append m _)
          exact absurd ⟨after, hrest⟩ (not_ending_of_word hword hlonger)
  · intro h
    rcases h with ⟨rfl, rfl⟩
    rw [List.append_nil]

theorem existsUnique_command {document : Document} {before after : List Char}
    (h : body document = before ++ '\\' :: after) :
    ∃! command, command ∈ commands ∧ command <+: after := by
  rcases exists_word_of_commandsAre (commandsAre_body document) h with ⟨command, hmem, hstart⟩
  refine ⟨command, ⟨hmem, hstart⟩, ?_⟩
  intro other h
  rcases h with ⟨hother, hotherStart⟩
  rcases List.prefix_or_prefix_of_prefix hotherStart hstart with h | h
  · exact commands_prefix_free other hother command hmem (List.isPrefixOf_iff_prefix.mpr h)
  · exact (commands_prefix_free command hmem other hother (List.isPrefixOf_iff_prefix.mpr h)).symm

theorem depth_boundary {document above below : Document} {left right : List Token}
    (h : document = above ++ (left ++ right) :: below) :
    above.flatMap line ++ left.flatMap token <+: body document ∧
      depth (above.flatMap line ++ left.flatMap token) = 0 := by
  subst h
  constructor
  · refine ⟨right.flatMap token ++ '\n' :: below.flatMap line, ?_⟩
    simp [body, line]
  · have htokens : Contained 2 (left.flatMap token) :=
      Contained.flatMap (by decide) contained_token left
    exact ((contained_lines above).append htokens).closed

/--
The lines of a listing hold no backslash but those of known commands, and no brace in them reaches
out of the token that it belongs to. So an inline listing is closed by its last character only, and
the end of a block stands at its end only.
-/
theorem listing_contained (config : Config) (document : Document) :
    (listing config document).toList = header config ++ body document ++ footer config ∧
      (∀ before after, body document = before ++ '\\' :: after →
        ∃! command, command ∈ commands ∧ command <+: after) ∧
      (∀ front, front <+: body document → 0 ≤ depth front ∧ depth front ≤ 2) ∧
      (∀ above left right below, document = above ++ (left ++ right) :: below →
        above.flatMap line ++ left.flatMap token <+: body document ∧
          depth (above.flatMap line ++ left.flatMap token) = 0) ∧
      (∀ above below, document = above ++ below →
        above.flatMap line <+: body document ∧ depth (above.flatMap line) = 0) ∧
      (config.inline = true →
        header config = "\\Verb[commandchars=\\\\\\\x7b\\\x7d]\x7b".toList ∧
        ∀ front, header config <+: front → front <+: (listing config document).toList →
          (depth front < 1 ↔ front = (listing config document).toList)) ∧
      (config.inline = false → ∀ before after,
        (listing config document).toList =
            before ++ "\\end\x7bVerbatim\x7d".toList ++ after ↔
          before = header config ++ body document ∧ after = []) := by
  have hlisting : (listing config document).toList =
      header config ++ body document ++ footer config := by
    rw [listing, String.toList_ofList]
  refine ⟨hlisting, fun before after => existsUnique_command, (contained_lines document).bounds,
    fun above left right below => depth_boundary, ?_, ?_, ?_⟩
  · intro above below h
    rcases h with rfl
    refine ⟨⟨below.flatMap line, ?_⟩, (contained_lines above).closed⟩
    rw [body, List.flatMap_append]
  · intro hinline
    refine ⟨header_inline hinline, ?_⟩
    intro front hheader hfront
    have hfooter : footer config = ['}'] := by
      rw [footer, if_pos hinline]
    rw [hlisting, hfooter, List.append_assoc] at hfront ⊢
    exact depth_lt_one_iff_inline hinline document hheader hfront
  · intro hinline before after
    have hfooter : footer config = '\\' :: ending := by
      rw [footer, if_neg (by simp [hinline])]
      rfl
    have hending : "\\end\x7bVerbatim\x7d".toList = '\\' :: ending := rfl
    rw [hlisting, hfooter, hending, List.append_assoc before, List.cons_append]
    exact ending_unique hinline document before after

end Listing
end Latex
end Highlighting
