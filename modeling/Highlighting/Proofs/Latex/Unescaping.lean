import Highlighting.Listing
import Highlighting.Proofs.Latex.Containment
import Highlighting.Proofs.Latex.Escape

/-!
# Unescaping LaTeX listings

Escaped text is read back whatever stands behind it. Any other text is read as well, and stray
backslashes and braces stay in it; the escaped texts are those that are the same when they are read
and escaped again. The lines of a listing are read back, too: a macro is neither an escape nor the
beginning of one, so that reading takes the escapes off the texts and leaves the macros around them
as they are.
-/

namespace Highlighting
namespace Latex

/-! ## Texts in front of any rest -/

/-- Reading turns a text into another one whatever stands behind it. -/
def ReadAs (written plain : List Char) : Prop :=
  ∀ rest, unescapeChars (written ++ rest) = plain ++ unescapeChars rest

namespace ReadAs

variable {a b c d : List Char}

theorem nil : ReadAs [] [] :=
  fun _ => rfl

theorem append (ha : ReadAs a b) (hc : ReadAs c d) : ReadAs (a ++ c) (b ++ d) := by
  intro rest
  rw [List.append_assoc, ha, hc, List.append_assoc]

theorem flatMap {α : Type} {f g : α → List Char} (h : ∀ x, ReadAs (f x) (g x)) (xs : List α) :
    ReadAs (xs.flatMap f) (xs.flatMap g) := by
  induction xs with
  | nil =>
      exact nil
  | cons x xs ih =>
      exact (h x).append ih

theorem singleton {c : Char} (h : c ≠ '\\') : ReadAs [c] [c] :=
  unescapeChars_cons h

theorem escapeChars (cs : List Char) : ReadAs (escapeChars cs) cs := by
  have hchars := flatMap (g := fun c => [c]) unescapeChars_escapeChar_append cs
  rwa [List.flatMap_singleton'] at hchars

theorem unescapeChars_eq (h : ReadAs a b) : unescapeChars a = b := by
  have hnil := h []
  rwa [List.append_nil, unescapeChars, List.append_nil] at hnil

end ReadAs

theorem unescape_escape_append (a s : String) : unescape (escape a ++ s) = a ++ unescape s := by
  rw [unescape, escape, String.toList_append, String.toList_ofList, ReadAs.escapeChars,
    String.ofList_append, String.ofList_toList, ← unescape]

theorem unescape_escape (a : String) : unescape (escape a) = a := by
  have hempty : unescape "" = "" := by
    simp [unescape, unescapeChars]
  have happend := unescape_escape_append a ""
  rwa [String.append_empty, hempty, String.append_empty] at happend

/-! ## Escaped texts -/

/-- What an escaped text consists of: the three escapes, and characters that need none. -/
inductive IsBlock : List Char → Prop
  | backslash : IsBlock backslash
  | opening : IsBlock ['\\', '{']
  | closing : IsBlock ['\\', '}']
  | plain (c : Char) (hbackslash : c ≠ '\\') (hopening : c ≠ '{') (hclosing : c ≠ '}') : IsBlock [c]

theorem isBlock_escapeChar (c : Char) : IsBlock (escapeChar c) := by
  unfold escapeChar
  split
  · exact .backslash
  · exact .opening
  · exact .closing
  · rename_i hbackslash hopening hclosing
    exact .plain c hbackslash hopening hclosing

theorem IsBlock.exists_escapeChar {block : List Char} (h : IsBlock block) :
    ∃ c, block = escapeChar c := by
  cases h with
  | backslash =>
      exact ⟨'\\', rfl⟩
  | opening =>
      exact ⟨'{', rfl⟩
  | closing =>
      exact ⟨'}', rfl⟩
  | plain c hbackslash hopening hclosing =>
      refine ⟨c, ?_⟩
      unfold escapeChar
      split
      · exact absurd rfl hbackslash
      · exact absurd rfl hopening
      · exact absurd rfl hclosing
      · rfl

theorem exists_blocks_iff (written : List Char) :
    (∃ blocks : List (List Char), (∀ block ∈ blocks, IsBlock block) ∧ written = blocks.flatten) ↔
      ∃ cs, written = escapeChars cs := by
  constructor
  · intro h
    rcases h with ⟨blocks, hblocks, rfl⟩
    induction blocks with
    | nil =>
        exact ⟨[], rfl⟩
    | cons block blocks ih =>
        rcases (hblocks block List.mem_cons_self).exists_escapeChar with ⟨c, rfl⟩
        rcases ih fun other hother => hblocks other (List.mem_cons_of_mem _ hother) with ⟨cs, hcs⟩
        refine ⟨c :: cs, ?_⟩
        rw [List.flatten_cons, hcs]
        rfl
  · intro h
    rcases h with ⟨cs, rfl⟩
    refine ⟨cs.map escapeChar, ?_, ?_⟩
    · intro block hblock
      rcases List.mem_map.mp hblock with ⟨c, _, rfl⟩
      exact isBlock_escapeChar c
    · rw [escapeChars, List.flatMap_def]

theorem escape_unescape_eq_self_iff (s : String) :
    escape (unescape s) = s ↔ ∃ t, s = escape t := by
  constructor
  · intro h
    exact ⟨unescape s, h.symm⟩
  · intro h
    rcases h with ⟨t, rfl⟩
    rw [unescape_escape]

-- A stray backslash is read as it is, and escaped when the text is written again.
example : escapeChars (unescapeChars ['\\', 'x']) = "\\textbackslash\x7b\x7dx".toList := by
  decide

/--
The texts that unescaping and escaping again leaves as they are are the concatenations of blocks,
whatever stray backslashes and braces other texts hold. These are the escaped texts, and each of them
is written for a single text.
-/
theorem escape_unescape_eq_self_iff_blocks (s : String) :
    (escape (unescape s) = s ↔
      ∃ blocks : List (List Char),
        (∀ block ∈ blocks, IsBlock block) ∧ s.toList = blocks.flatten) ∧
    (escape (unescape s) = s ↔ ∃ t, s = escape t) ∧
    ((∃ t, s = escape t) → ∃! t, s = escape t) := by
  refine ⟨?_, escape_unescape_eq_self_iff s, ?_⟩
  · have hchars : ∀ t : String, s = escape t ↔ s.toList = escapeChars t.toList := by
      intro t
      rw [← String.toList_inj, escape, String.toList_ofList]
    rw [escape_unescape_eq_self_iff, exists_blocks_iff]
    constructor
    · intro h
      rcases h with ⟨t, ht⟩
      exact ⟨t.toList, (hchars t).mp ht⟩
    · intro h
      rcases h with ⟨cs, hcs⟩
      refine ⟨String.ofList cs, (hchars _).mpr ?_⟩
      rw [String.toList_ofList, hcs]
  · intro h
    rcases h with ⟨t, rfl⟩
    refine ⟨t, rfl, ?_⟩
    intro other hother
    have hread := congrArg unescape hother
    rw [unescape_escape, unescape_escape] at hread
    exact hread.symm

namespace Listing

/-! ## Lines without escapes -/

def plainToken (t : Token) : List Char :=
  if t.category = .normal then t.text.toList
  else '\\' :: (t.category.short.toList ++ '{' :: (t.text.toList ++ ['}']))

def plainBody (document : Document) : List Char :=
  document.flatMap fun tokens => tokens.flatMap plainToken ++ ['\n']

/-- No macro begins like an escape, so that reading leaves it as it is. -/
theorem readAs_macroHead {category : Category} (h : category ≠ .normal) :
    ReadAs (macroHead category) (macroHead category) := by
  intro rest
  cases category with
  | normal =>
      exact absurd rfl h
  | _ =>
      rfl

theorem readAs_token (t : Token) : ReadAs (token t) (plainToken t) := by
  unfold token plainToken
  split
  · exact ReadAs.escapeChars t.text.toList
  · rename_i hnormal
    have hclose : ReadAs ['}'] ['}'] := ReadAs.singleton (by decide)
    have hargument := (ReadAs.escapeChars t.text.toList).append hclose
    have hmacro := (readAs_macroHead hnormal).append hargument
    simpa [macroHead] using hmacro

theorem readAs_body (document : Document) : ReadAs (body document) (plainBody document) := by
  apply ReadAs.flatMap
  intro tokens
  have hend : ReadAs ['\n'] ['\n'] := ReadAs.singleton (by decide)
  exact (ReadAs.flatMap readAs_token tokens).append hend

end Listing

/--
Unescaping undoes escaping in front of any text. Between the header and the footer of a listing it
gives the lines of the document back, with the tokens that are not normal text in their macros.
-/
theorem unescape_undoes_escape :
    (∀ a s : String, unescape (escape a ++ s) = a ++ unescape s) ∧
      (∀ a : String, unescape (escape a) = a) ∧
      ∀ (config : Config) (language : String) (document : Document),
        (OutputFormat.latex.listing config language document).toList =
            Listing.header config ++ Listing.body document ++ Listing.footer config ∧
          unescapeChars (Listing.body document) = Listing.plainBody document := by
  refine ⟨unescape_escape_append, ?_, ?_⟩
  · intro a
    rw [unescape, escape, String.toList_ofList, (ReadAs.escapeChars a.toList).unescapeChars_eq,
      String.ofList_toList]
  · intro config language document
    refine ⟨?_, (Listing.readAs_body document).unescapeChars_eq⟩
    show (listing config document).toList = _
    rw [listing, String.toList_ofList]

end Latex
end Highlighting
