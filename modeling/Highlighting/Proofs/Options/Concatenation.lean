import Highlighting.Proofs.Options.Canonical

/-!
# Options behind one another

Two sequences of options, one behind the other, set the flags of both, and the number of the first
line comes from the first of them that has a start number. In front of other options a sequence may
therefore give way to its canonical options, with one exception: these leave a start number of one
out, so that a different start number behind them comes to count.
-/

namespace Highlighting
namespace Config

/-! ## The first start number -/

def FirstStart (options : List (Candidate FormatOption)) (start : Int) : Prop :=
  ∃ before after, options = before ++ .fit (.numberFrom start) :: after ∧
    ∀ other, .fit (.numberFrom other) ∉ before

theorem fit_mem_map_iff (option : FormatOption) (given : List FormatOption) :
    Candidate.fit option ∈ given.map .fit ↔ option ∈ given :=
  List.mem_map_of_injective fun _ _ h => Candidate.fit.inj h

theorem firstStart_map_fit_iff (given : List FormatOption) (start : Int) :
    FirstStart (given.map .fit) start ↔ firstStart given = some start := by
  rw [firstStart_eq_some_iff]
  constructor
  · intro h
    rcases h with ⟨before, after, hgiven, hbefore⟩
    rcases List.map_eq_append_iff.mp hgiven with ⟨front, back, rfl, rfl, hback⟩
    rcases List.map_eq_cons_iff.mp hback with ⟨option, rest, rfl, hoption, _⟩
    cases hoption
    refine ⟨front, rest, rfl, ?_⟩
    intro other hmem
    exact hbefore other ((fit_mem_map_iff _ front).mpr hmem)
  · intro h
    rcases h with ⟨before, after, rfl, hbefore⟩
    refine ⟨before.map .fit, after.map .fit, List.map_append, ?_⟩
    intro other hmem
    exact hbefore other ((fit_mem_map_iff _ before).mp hmem)

theorem numberFrom_ofList (options : List FormatOption) :
    (ofList options).numberFrom = (firstStart options).getD 1 :=
  rfl

/-- The canonical options have a start number only where it is not one. -/
theorem firstStart_toOptions (config : Config) :
    firstStart config.toOptions =
      if config.numberFrom = 1 then none else some config.numberFrom := by
  have hstart := (asksFor_iff _ _).mp (asksFor_toOptions config)
  cases hfirst : firstStart config.toOptions with
  | none =>
      rw [hfirst] at hstart
      exact (if_pos hstart.symm).symm
  | some start =>
      rw [hfirst] at hstart
      rcases (firstStart_eq_some_iff _ _).mp hfirst with ⟨before, after, hoptions, _⟩
      have hmem : .numberFrom start ∈ config.toOptions := by
        rw [hoptions]
        exact List.mem_append_right before List.mem_cons_self
      have hne := ((numberFrom_mem_toOptions_iff config start).mp hmem).2
      rw [← hstart]
      exact (if_neg hne).symm

/-! ## Concatenation -/

section Append

variable (first second : List FormatOption)

theorem flag_ofList_append (f : Flag) :
    (ofList (first ++ second)).flag f = true ↔
      (ofList first).flag f = true ∨ (ofList second).flag f = true := by
  rw [flag_ofList, flag_ofList, flag_ofList, List.mem_append]

theorem numberFrom_ofList_append :
    (ofList (first ++ second)).numberFrom =
      ((firstStart first).or (firstStart second)).getD 1 := by
  rw [numberFrom_ofList, firstStart_append]

theorem numberFrom_append_of_mem {start : Int} (h : .numberFrom start ∈ first) :
    (ofList (first ++ second)).numberFrom = (ofList first).numberFrom := by
  rw [numberFrom_ofList_append, numberFrom_ofList]
  cases hfirst : firstStart first with
  | none =>
      exact absurd h ((firstStart_eq_none_iff first).mp hfirst start)
  | some found =>
      rfl

theorem numberFrom_append_of_not_mem (h : ∀ start, .numberFrom start ∉ first) :
    (ofList (first ++ second)).numberFrom = (ofList second).numberFrom := by
  rw [numberFrom_ofList_append, (firstStart_eq_none_iff first).mpr h]
  rfl

theorem ofList_toOptions_append_eq_iff_numberFrom :
    ofList ((ofList first).toOptions ++ second) = ofList (first ++ second) ↔
      (ofList ((ofList first).toOptions ++ second)).numberFrom =
        (ofList (first ++ second)).numberFrom := by
  constructor
  · intro h
    rw [h]
  · intro hstart
    apply eq_of_parts
    · intro f
      rw [flag_ofList, flag_ofList, List.mem_append, List.mem_append, flag_mem_toOptions_iff,
        flag_ofList]
    · exact hstart

/-- Only a start number of one makes a difference, and only in front of a different one. -/
theorem ofList_toOptions_append_eq_iff :
    ofList ((ofList first).toOptions ++ second) = ofList (first ++ second) ↔
      ¬ (firstStart first = some 1 ∧ ∃ start, firstStart second = some start ∧ start ≠ 1) := by
  rw [ofList_toOptions_append_eq_iff_numberFrom, numberFrom_ofList_append,
    numberFrom_ofList_append, firstStart_toOptions, numberFrom_ofList]
  cases firstStart first with
  | none =>
      simp
  | some start =>
      -- A start number other than one is among the canonical options, and comes first there too.
      by_cases hone : start = 1
      · subst hone
        cases firstStart second with
        | none =>
            simp
        | some other =>
            simp
      · simp [hone]

end Append

/--
Accepted sequences behind one another are accepted. They set the flags of both, and the number of
the first line comes from the first sequence if that has a start number, and otherwise from the
second.
The first sequence may give way to its canonical options unless its first start number is one and
the second sequence has a first start number other than one.
-/
theorem ofOptions_concatenated {first second : List (Candidate FormatOption)} {c₁ c₂ : Config}
    (hfirst : ofOptions first = .ok c₁) (hsecond : ofOptions second = .ok c₂) :
    (∃ config, ofOptions (first ++ second) = .ok config ∧
      (∀ f, config.flag f = true ↔ c₁.flag f = true ∨ c₂.flag f = true) ∧
      ((∃ start, .fit (.numberFrom start) ∈ first) → config.numberFrom = c₁.numberFrom) ∧
      ((∀ start, .fit (.numberFrom start) ∉ first) → config.numberFrom = c₂.numberFrom)) ∧
    (ofOptions (c₁.toOptions.map .fit ++ second) = ofOptions (first ++ second) ↔
      ¬ (FirstStart first 1 ∧ ∃ start, FirstStart second start ∧ start ≠ 1)) := by
  rcases ((ofOptions_reports first).ok_iff c₁).mp hfirst with ⟨given₁, rfl, rfl⟩
  rcases ((ofOptions_reports second).ok_iff c₂).mp hsecond with ⟨given₂, rfl, rfl⟩
  have happend : ∀ given : List FormatOption,
      ofOptions (given.map .fit ++ given₂.map .fit) = .ok (ofList (given ++ given₂)) := by
    intro given
    rw [← List.map_append, ofOptions_fit]
  constructor
  · refine ⟨ofList (given₁ ++ given₂), happend given₁, flag_ofList_append given₁ given₂, ?_, ?_⟩
    · intro h
      rcases h with ⟨start, hmem⟩
      exact numberFrom_append_of_mem given₁ given₂ ((fit_mem_map_iff _ given₁).mp hmem)
    · intro h
      apply numberFrom_append_of_not_mem
      intro start hmem
      exact h start ((fit_mem_map_iff _ given₁).mpr hmem)
  · simp only [happend, Except.ok.injEq, firstStart_map_fit_iff]
    exact ofList_toOptions_append_eq_iff given₁ given₂

/-- Canonical options lose a start number of one, and a five behind them comes to count. -/
theorem ofOptions_concatenated_one_five :
    let first : List (Candidate FormatOption) := [.fit (.flag .inline), .fit (.numberFrom 1)]
    let second : List (Candidate FormatOption) := [.fit (.numberFrom 5)]
    ofOptions first = .ok { inline := true } ∧ ofOptions second = .ok { numberFrom := 5 } ∧
      (∃ config, ofOptions (first ++ second) = .ok config ∧ config.numberFrom = 1) ∧
      ofOptions ((toOptions { inline := true }).map .fit ++ second) ≠
        ofOptions (first ++ second) := by
  intro first second
  have hfirst : ofOptions first = .ok { inline := true } := rfl
  have hsecond : ofOptions second = .ok { numberFrom := 5 } := rfl
  rcases ofOptions_concatenated hfirst hsecond with ⟨⟨config, hconfig, _, hstart, _⟩, hiff⟩
  have hone : FirstStart first 1 := ⟨[.fit (.flag .inline)], [], rfl, by simp⟩
  have hfive : FirstStart second 5 := ⟨[], [], rfl, by simp⟩
  refine ⟨hfirst, hsecond, ⟨config, hconfig, hstart ⟨1, by simp [first]⟩⟩, ?_⟩
  intro heq
  exact hiff.mp heq ⟨hone, 5, hfive, by decide⟩

end Config
end Highlighting
