import Highlighting.Proofs.Data.Lines
import Highlighting.Token.Basic

/-!
# Segmentation of normal text

Where normal text is cut into tokens makes no difference to a listing. Two documents differ only in
this if they have the same merged form, in which neighbouring pieces of normal text are one token
and empty ones are gone; equally, if they have the same symbols, which are the single characters of
normal text and the other tokens as they are.
-/

namespace Highlighting

/-- A character of normal text, or a token that is not normal text. -/
inductive Symbol where
  | letter (c : Char)
  | marked (category : Category) (text : String) (h : category ≠ .normal)
  deriving DecidableEq

/-! ## Merging normal text -/

namespace Token

def IsVoid (token : Token) : Prop :=
  token.category = .normal ∧ token.text = ""

instance (token : Token) : Decidable token.IsVoid :=
  inferInstanceAs (Decidable (_ ∧ _))

/-- A token in front of a line, where it becomes one token with normal text if it is such itself. -/
def before (token : Token) : List Token → List Token
  | [] => [token]
  | next :: line =>
      if token.category = .normal ∧ next.category = .normal then
        ⟨.normal, token.text ++ next.text⟩ :: line
      else token :: next :: line

def symbols (token : Token) : List Symbol :=
  if h : token.category = .normal then token.text.toList.map Symbol.letter
  else [.marked token.category token.text h]

theorem before_of_marked {token : Token} (h : token.category ≠ .normal) (line : List Token) :
    token.before line = token :: line := by
  cases line with
  | nil =>
      rfl
  | cons next line =>
      exact if_neg fun hboth => h hboth.1

theorem before_before (a b : String) (line : List Token) :
    before ⟨.normal, a⟩ (before ⟨.normal, b⟩ line) = before ⟨.normal, a ++ b⟩ line := by
  cases line with
  | nil =>
      rfl
  | cons next line =>
      by_cases h : next.category = .normal
      · simp [before, h, String.append_assoc]
      · simp [before, h]

end Token

/-- Line without empty normal text, where normal text beside normal text is one token. -/
def mergeLine (line : List Token) : List Token :=
  (line.filter fun token => ¬ token.IsVoid).foldr Token.before []

def Document.merged (document : Document) : Document :=
  document.map mergeLine

/-! ## Symbols -/

def lineSymbols (line : List Token) : List Symbol :=
  line.flatMap Token.symbols

def Document.symbols (document : Document) : List Symbol :=
  [Symbol.letter '\n'].intercalate (document.map lineSymbols)

def Document.endedSymbols (document : Document) : List Symbol :=
  document.flatMap fun line => lineSymbols line ++ [Symbol.letter '\n']

namespace Symbol

def before : Symbol → List Token → List Token
  | .letter c, line => Token.before ⟨.normal, String.singleton c⟩ line
  | .marked category text _, line => ⟨category, text⟩ :: line

theorem foldr_before_letters (c : Char) (cs : List Char) (line : List Token) :
    ((c :: cs).map letter).foldr before line =
      Token.before ⟨.normal, String.ofList (c :: cs)⟩ line := by
  induction cs generalizing c with
  | nil =>
      rfl
  | cons d cs ih =>
      have hrest := ih d
      rw [List.map_cons, List.foldr_cons, hrest, before, Token.before_before]
      congr 2
      rw [String.singleton_eq_ofList, ← String.ofList_append]
      rfl

end Symbol

theorem foldr_before_symbols (token : Token) (line : List Token) :
    token.symbols.foldr Symbol.before line = if token.IsVoid then line else token.before line := by
  rcases token with ⟨category, text⟩
  by_cases hcategory : category = .normal
  · subst hcategory
    have hsymbols : Token.symbols ⟨.normal, text⟩ = text.toList.map Symbol.letter := dif_pos rfl
    rw [hsymbols]
    -- The characters of the text join one another before they join the line.
    cases htext : text.toList with
    | nil =>
        have hempty : text = "" := String.toList_eq_nil_iff.mp htext
        rw [if_pos ⟨rfl, hempty⟩]
        rfl
    | cons c cs =>
        have hne : ¬ Token.IsVoid ⟨.normal, text⟩ := by
          intro h
          rcases h with ⟨_, hempty⟩
          simp [show text = "" from hempty] at htext
        rw [if_neg hne, Symbol.foldr_before_letters, ← htext, String.ofList_toList]
  · have hsymbols : Token.symbols ⟨category, text⟩ = [.marked category text hcategory] :=
      dif_neg hcategory
    have hne : ¬ Token.IsVoid ⟨category, text⟩ := fun hvoid => hcategory hvoid.1
    rw [hsymbols, if_neg hne, Token.before_of_marked hcategory]
    rfl

theorem mergeLine_eq_foldr (line : List Token) :
    mergeLine line = (lineSymbols line).foldr Symbol.before [] := by
  induction line with
  | nil =>
      rfl
  | cons token line ih =>
      rw [lineSymbols, List.flatMap_cons, List.foldr_append, foldr_before_symbols, ← lineSymbols,
        ← ih]
      by_cases h : token.IsVoid
      · simp [mergeLine, h]
      · simp [mergeLine, h]

/-! ## Symbols of merged lines -/

theorem lineSymbols_before (token : Token) (line : List Token) :
    lineSymbols (token.before line) = token.symbols ++ lineSymbols line := by
  cases line with
  | nil =>
      rfl
  | cons next line =>
      rw [Token.before]
      split
      · rename_i h
        simp [lineSymbols, Token.symbols, h.1, h.2]
      · rfl

theorem symbols_of_isVoid {token : Token} (h : token.IsVoid) : token.symbols = [] := by
  simp [Token.symbols, h.1, h.2]

theorem lineSymbols_mergeLine (line : List Token) :
    lineSymbols (mergeLine line) = lineSymbols line := by
  induction line with
  | nil =>
      rfl
  | cons token line ih =>
      by_cases h : token.IsVoid
      · have hmerge : mergeLine (token :: line) = mergeLine line := by
          simp [mergeLine, h]
        rw [hmerge, ih, lineSymbols, lineSymbols, List.flatMap_cons, symbols_of_isVoid h,
          List.nil_append]
      · have hmerge : mergeLine (token :: line) = token.before (mergeLine line) := by
          simp [mergeLine, h]
        rw [hmerge, lineSymbols_before, ih]
        rfl

theorem map_lineSymbols_eq_iff {first second : Document} :
    first.map lineSymbols = second.map lineSymbols ↔ first.merged = second.merged := by
  have hsymbols : ∀ document : Document,
      document.map lineSymbols = document.merged.map lineSymbols := by
    intro document
    simp [Document.merged, lineSymbols_mergeLine]
  have hmerged : ∀ document : Document, document.merged =
      (document.map lineSymbols).map fun symbols => symbols.foldr Symbol.before [] := by
    intro document
    simp [Document.merged, mergeLine_eq_foldr]
  constructor
  · intro h
    rw [hmerged, hmerged, h]
  · intro h
    rw [hsymbols first, hsymbols second, h]

/-! ## Lines -/

/-- No token of a document holds a line end. -/
def Document.LinesApart (document : Document) : Prop :=
  ∀ line ∈ document, ∀ token ∈ line, '\n' ∉ token.text.toList

instance (document : Document) : Decidable document.LinesApart :=
  inferInstanceAs (Decidable (∀ line ∈ document, ∀ token ∈ line, '\n' ∉ token.text.toList))

theorem not_mem_lineSymbols {line : List Token}
    (h : ∀ token ∈ line, '\n' ∉ token.text.toList) : Symbol.letter '\n' ∉ lineSymbols line := by
  intro hmem
  rcases List.mem_flatMap.mp hmem with ⟨token, htoken, hsymbol⟩
  unfold Token.symbols at hsymbol
  split at hsymbol
  · rcases List.mem_map.mp hsymbol with ⟨c, hc, heq⟩
    cases heq
    exact h token htoken hc
  · cases List.mem_singleton.mp hsymbol

theorem symbols_eq_iff {first second : Document} (hfirst : first ≠ []) (hsecond : second ≠ [])
    (hfirst' : first.LinesApart) (hsecond' : second.LinesApart) :
    first.symbols = second.symbols ↔ first.merged = second.merged := by
  have hsplit : ∀ document : Document, document ≠ [] → document.LinesApart →
      document.symbols.splitOn (.letter '\n') = document.map lineSymbols := by
    intro document hne hlines
    apply List.splitOn_intercalate
    · intro symbols hsymbols
      rcases List.mem_map.mp hsymbols with ⟨line, hline, rfl⟩
      exact not_mem_lineSymbols (hlines line hline)
    · simpa using hne
  rw [← map_lineSymbols_eq_iff]
  constructor
  · intro h
    rw [← hsplit first hfirst hfirst', ← hsplit second hsecond hsecond', h]
  · intro h
    rw [Document.symbols, Document.symbols, h]

theorem endedSymbols_eq_flatMap (document : Document) :
    document.endedSymbols =
      (document.map lineSymbols).flatMap fun symbols => symbols ++ [Symbol.letter '\n'] := by
  rw [Document.endedSymbols, List.flatMap_map]

theorem endedSymbols_eq_iff {first second : Document} (hfirst : first.LinesApart)
    (hsecond : second.LinesApart) :
    first.endedSymbols = second.endedSymbols ↔ first.merged = second.merged := by
  have hsplit : ∀ document : Document, document.LinesApart →
      document.endedSymbols.splitOn (.letter '\n') = document.map lineSymbols ++ [[]] := by
    intro document hlines
    rw [endedSymbols_eq_flatMap]
    apply splitOn_flatMap_ended
    intro symbols hsymbols
    rcases List.mem_map.mp hsymbols with ⟨line, hline, rfl⟩
    exact not_mem_lineSymbols (hlines line hline)
  rw [← map_lineSymbols_eq_iff]
  constructor
  · intro h
    have hlines := hsplit first hfirst
    rw [h, hsplit second hsecond] at hlines
    exact (List.append_cancel_right hlines).symm
  · intro h
    rw [endedSymbols_eq_flatMap, endedSymbols_eq_flatMap, h]

end Highlighting
