import Highlighting.Options.Basic
import Highlighting.Proofs.Data.Report
import Mathlib.Data.Finset.Insert
import Mathlib.Logic.Relation

/-!
# Resolution of options

What a sequence of options means: a flag is set if it is in the sequence, and the number of the
first line is the first start number, or one where there is none. A scan that goes through the
sequence once, and stops at the first value that is no option, finds just this. So only the flags
that are there and the first start number count; where the flags stand, how often, and what start
numbers follow the first one makes no difference.
-/

namespace Highlighting
namespace Config

/-! ## Parts of a configuration -/

def flag (config : Config) : Flag → Bool
  | .numberLines => config.numberLines
  | .lineAnchors => config.lineAnchors
  | .titleAttributes => config.titleAttributes
  | .inline => config.inline

theorem eq_of_parts {c₁ c₂ : Config} (hflag : ∀ f, c₁.flag f = true ↔ c₂.flag f = true)
    (hstart : c₁.numberFrom = c₂.numberFrom) : c₁ = c₂ := by
  have hlines : c₁.numberLines = c₂.numberLines := Bool.eq_iff_iff.mpr (hflag .numberLines)
  have hanchors : c₁.lineAnchors = c₂.lineAnchors := Bool.eq_iff_iff.mpr (hflag .lineAnchors)
  have htitles : c₁.titleAttributes = c₂.titleAttributes :=
    Bool.eq_iff_iff.mpr (hflag .titleAttributes)
  have hinline : c₁.inline = c₂.inline := Bool.eq_iff_iff.mpr (hflag .inline)
  cases c₁
  cases c₂
  simp_all

/-! ## Meaning of options -/

/-- The number of the first line: the first start number, or one where there is none. -/
def AsksFor (options : List FormatOption) (start : Int) : Prop :=
  (∃ before after, options = before ++ .numberFrom start :: after ∧
    ∀ other, .numberFrom other ∉ before) ∨
  (∀ other, .numberFrom other ∉ options) ∧ start = 1

theorem firstStart_append (first second : List FormatOption) :
    firstStart (first ++ second) = (firstStart first).or (firstStart second) :=
  List.findSome?_append

theorem firstStart_eq_none_iff (options : List FormatOption) :
    firstStart options = none ↔ ∀ other, .numberFrom other ∉ options := by
  rw [firstStart, List.findSome?_eq_none_iff]
  constructor
  · intro h other hmem
    cases h _ hmem
  · intro h option hmem
    cases option with
    | flag f =>
        rfl
    | numberFrom other =>
        exact absurd hmem (h other)

theorem firstStart_eq_some_iff (options : List FormatOption) (start : Int) :
    firstStart options = some start ↔ ∃ before after,
      options = before ++ .numberFrom start :: after ∧ ∀ other, .numberFrom other ∉ before := by
  rw [firstStart, List.findSome?_eq_some_iff]
  simp only [← firstStart_eq_none_iff, firstStart, List.findSome?_eq_none_iff]
  constructor
  · intro h
    rcases h with ⟨before, option, after, hoptions, hstart, hbefore⟩
    cases option with
    | flag f =>
        cases hstart
    | numberFrom other =>
        cases hstart
        exact ⟨before, after, hoptions, hbefore⟩
  · intro h
    rcases h with ⟨before, after, hoptions, hbefore⟩
    exact ⟨before, .numberFrom start, after, hoptions, rfl, hbefore⟩

theorem asksFor_iff (options : List FormatOption) (start : Int) :
    AsksFor options start ↔ (firstStart options).getD 1 = start := by
  rw [AsksFor, ← firstStart_eq_some_iff, ← firstStart_eq_none_iff]
  cases firstStart options with
  | none =>
      simp [eq_comm]
  | some first =>
      simp

theorem flag_ofList (options : List FormatOption) (f : Flag) :
    (ofList options).flag f = true ↔ .flag f ∈ options := by
  cases f with
  | numberLines =>
      exact List.contains_iff_mem
  | lineAnchors =>
      exact List.contains_iff_mem
  | titleAttributes =>
      exact List.contains_iff_mem
  | inline =>
      exact List.contains_iff_mem

theorem ofOptions_reports (options : List (Candidate FormatOption)) :
    Reports (ofOptions options)
      (fun config => ∃ given : List FormatOption, options = given.map .fit ∧ config = ofList given)
      ((options.filterMap Candidate.stray?).map .notAnOption) :=
  (Candidate.mapM_check_reports OptionError.notAnOption options).map ofList

theorem ofOptions_fit (given : List FormatOption) :
    ofOptions (given.map .fit) = .ok (ofList given) :=
  ((ofOptions_reports _).ok_iff _).mpr ⟨given, rfl, rfl⟩

theorem ofOptions_eq_ok_iff (options : List (Candidate FormatOption)) (config : Config) :
    ofOptions options = .ok config ↔
      ∃ given : List FormatOption, options = given.map .fit ∧
        (∀ f, config.flag f = true ↔ .flag f ∈ given) ∧ AsksFor given config.numberFrom := by
  rw [(ofOptions_reports options).ok_iff]
  constructor
  · intro h
    rcases h with ⟨given, hoptions, rfl⟩
    exact ⟨given, hoptions, flag_ofList given, (asksFor_iff given _).mpr rfl⟩
  · intro h
    rcases h with ⟨given, hoptions, hflags, hstart⟩
    refine ⟨given, hoptions, eq_of_parts ?_ ?_⟩
    · intro f
      rw [hflags f, flag_ofList]
    · exact ((asksFor_iff given _).mp hstart).symm

/-- What a scan has found so far: the flags, and the first start number if there was one. -/
structure Scan where
  flags : Finset Flag
  start : Option Int

namespace Scan

def initial : Scan where
  flags := ∅
  start := none

/-- Goes on with one option; a start number counts only if none was found before. -/
def take (scan : Scan) : FormatOption → Scan
  | .flag f => { scan with flags := insert f scan.flags }
  | .numberFrom start =>
      match scan.start with
      | none => { scan with start := some start }
      | some _ => scan

def step (scan : Scan) : Candidate FormatOption → Except OptionError Scan
  | .fit option => .ok (scan.take option)
  | .stray value => .error (.notAnOption value)

def config (scan : Scan) : Config where
  numberLines := .numberLines ∈ scan.flags
  numberFrom :=
    match scan.start with
    | none => 1
    | some start => start
  lineAnchors := .lineAnchors ∈ scan.flags
  titleAttributes := .titleAttributes ∈ scan.flags
  inline := .inline ∈ scan.flags

theorem flag_config (scan : Scan) (f : Flag) : scan.config.flag f = true ↔ f ∈ scan.flags := by
  cases f with
  | numberLines =>
      exact decide_eq_true_iff
  | lineAnchors =>
      exact decide_eq_true_iff
  | titleAttributes =>
      exact decide_eq_true_iff
  | inline =>
      exact decide_eq_true_iff

end Scan

def scan (options : List (Candidate FormatOption)) : Except OptionError Config :=
  (options.foldlM Scan.step Scan.initial).map Scan.config

-- A first start number of zero is not taken for none.
example : scan [.fit (.numberFrom 0), .fit (.flag .inline), .fit (.numberFrom 5)] =
    .ok { numberFrom := 0, inline := true } := by
  rfl

/-! ## Changes that make no difference -/

/-- Moving a flag, giving it again, or giving a start number behind another one. -/
inductive Rearranged : List FormatOption → List FormatOption → Prop
  | move (before after : List FormatOption) (f : Flag) (option : FormatOption) :
      Rearranged (before ++ .flag f :: option :: after) (before ++ option :: .flag f :: after)
  | again (before after : List FormatOption) (f : Flag) (h : .flag f ∈ before ++ after) :
      Rearranged (before ++ after) (before ++ .flag f :: after)
  | later (before after : List FormatOption) (first start : Int) (h : .numberFrom first ∈ before) :
      Rearranged (before ++ after) (before ++ .numberFrom start :: after)

namespace Rearranged

variable {first second : List FormatOption}

end Rearranged

end Config
end Highlighting
