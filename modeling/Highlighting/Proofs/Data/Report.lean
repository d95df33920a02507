import Highlighting.Data.Candidate
import Mathlib.Data.List.Forall2

/-!
# Checks that report the first fault

A check goes through its input in a fixed order, gives a result when nothing is wrong, and otherwise
reports the first fault that it meets. It is described by the results that it accepts and by all the
faults there are, in the order in which they would be met; a check made of others in sequence then
has the faults of the one before those of the other. Candidates that are checked one after the other
are all accepted, or the first stray one is reported.
-/

namespace Highlighting

/-- A check that gives the accepted results, and reports the first of the faults otherwise. -/
structure Reports {ε α : Type} (check : Except ε α) (accepts : α → Prop) (faults : List ε) : Prop where
  ok_iff : ∀ a, check = .ok a ↔ accepts a
  error_iff : ∀ e, check = .error e ↔ faults.head? = some e

def faultUnless {ε : Type} (p : Prop) [Decidable p] (e : ε) : List ε :=
  if p then [] else [e]

theorem faultUnless_eq_nil_iff {ε : Type} {p : Prop} [Decidable p] {e : ε} :
    faultUnless p e = [] ↔ p := by
  unfold faultUnless
  split
  · rename_i hp
    exact iff_of_true rfl hp
  · rename_i hp
    exact iff_of_false (List.cons_ne_nil e []) hp

namespace Reports

variable {ε α β : Type} {check : Except ε α} {accepts accepts' : α → Prop} {faults faults' : List ε}

theorem of_ok {a : α} (haccepts : ∀ b, accepts b ↔ b = a) (hfaults : faults = []) :
    Reports (.ok a) accepts faults where
  ok_iff b := by
    rw [haccepts b, Except.ok.injEq, eq_comm]
  error_iff e := by
    rw [hfaults]
    constructor
    · intro h
      cases h
    · intro h
      cases h

theorem of_error {e : ε} {others : List ε} (haccepts : ∀ a, ¬ accepts a)
    (hfaults : faults = e :: others) : Reports (.error e) accepts faults where
  ok_iff a := by
    constructor
    · intro h
      cases h
    · intro ha
      exact absurd ha (haccepts a)
  error_iff e' := by
    rw [hfaults, List.head?_cons, Option.some.injEq, Except.error.injEq]

theorem result (a : α) : Reports (.ok a : Except ε α) (fun b => b = a) [] :=
  of_ok (fun _ => Iff.rfl) rfl

theorem congr (h : Reports check accepts faults) (haccepts : ∀ a, accepts a ↔ accepts' a)
    (hfaults : faults = faults') : Reports check accepts' faults' where
  ok_iff a := (h.ok_iff a).trans (haccepts a)
  error_iff e := by
    rw [← hfaults]
    exact h.error_iff e

theorem faults_of_ok (h : Reports check accepts faults) {a : α} (hok : check = .ok a) :
    faults = [] := by
  cases faults with
  | nil =>
      rfl
  | cons e faults =>
      have herror := (h.error_iff e).mpr rfl
      rw [hok] at herror
      cases herror

theorem faults_of_error (h : Reports check accepts faults) {e : ε} (herror : check = .error e) :
    ∃ others, faults = e :: others := by
  have hhead := (h.error_iff e).mp herror
  cases faults with
  | nil =>
      cases hhead
  | cons e' others =>
      rw [Option.some.inj hhead]
      exact ⟨others, rfl⟩

theorem not_accepts_of_error (h : Reports check accepts faults) {e : ε}
    (herror : check = .error e) (a : α) : ¬ accepts a := by
  intro ha
  have hok := (h.ok_iff a).mpr ha
  rw [herror] at hok
  cases hok

theorem exists_ok_iff (h : Reports check accepts faults) : (∃ a, check = .ok a) ↔ faults = [] := by
  cases hcheck : check with
  | ok a =>
      exact iff_of_true ⟨a, rfl⟩ (h.faults_of_ok hcheck)
  | error e =>
      obtain ⟨others, rfl⟩ := h.faults_of_error hcheck
      apply iff_of_false
      · intro h
        rcases h with ⟨a, ha⟩
        cases ha
      · exact List.cons_ne_nil e others

/-- Checks in sequence: the second is made only when the first has found nothing. -/
theorem bind (h : Reports check accepts faults) {next : α → Except ε β} {nextAccepts : α → β → Prop}
    {nextFaults : List ε} (hnext : ∀ a, Reports (next a) (nextAccepts a) nextFaults) :
    Reports (check >>= next) (fun b => ∃ a, accepts a ∧ nextAccepts a b) (faults ++ nextFaults) := by
  cases hcheck : check with
  | ok a =>
      have ha := (h.ok_iff a).mp hcheck
      have honly : ∀ a', accepts a' → a' = a := by
        intro a' ha'
        have hok := (h.ok_iff a').mpr ha'
        rw [hcheck] at hok
        exact (Except.ok.inj hok).symm
      rw [h.faults_of_ok hcheck]
      apply (hnext a).congr
      · intro b
        constructor
        · intro hb
          exact ⟨a, ha, hb⟩
        · intro h
          rcases h with ⟨a', ha', hb⟩
          rwa [← honly a' ha']
      · rfl
  | error e =>
      obtain ⟨others, rfl⟩ := h.faults_of_error hcheck
      apply of_error
      · intro b h
        rcases h with ⟨a, ha, -⟩
        exact h.not_accepts_of_error hcheck a ha
      · rfl

theorem map (h : Reports check accepts faults) (f : α → β) :
    Reports (check.map f) (fun b => ∃ a, accepts a ∧ b = f a) faults := by
  have hbind := h.bind fun a => result (f a)
  rw [List.append_nil] at hbind
  cases check with
  | ok a =>
      exact hbind
  | error e =>
      exact hbind

theorem mapM {check : α → Except ε β} {accepts : α → β → Prop} {faults : α → List ε}
    (h : ∀ x, Reports (check x) (accepts x) (faults x)) (xs : List α) :
    Reports (xs.mapM check) (List.Forall₂ accepts xs) (xs.flatMap faults) := by
  induction xs with
  | nil =>
      exact of_ok (fun ys => List.forall₂_nil_left_iff) rfl
  | cons x xs ih =>
      have hparts := (h x).bind fun y => ih.bind fun ys => result (y :: ys)
      rw [List.append_nil] at hparts
      rw [List.mapM_cons, List.flatMap_cons]
      apply hparts.congr
      · intro ys
        rw [List.forall₂_cons_left_iff]
        constructor
        · intro h
          rcases h with ⟨y, hy, others, hothers, rfl⟩
          exact ⟨y, others, hy, hothers, rfl⟩
        · intro h
          rcases h with ⟨y, others, hy, hothers, rfl⟩
          exact ⟨y, hy, others, hothers, rfl⟩
      · rfl

end Reports

/-- A loop that checks every element when its turn comes checks all of them first. -/
theorem foldlM_map {ε α β σ : Type} (check : α → Except ε β) (put : σ → β → σ) (state : σ)
    (xs : List α) :
    xs.foldlM (fun state x => (check x).map (put state)) state =
      (xs.mapM check).map fun ys => ys.foldl put state := by
  induction xs generalizing state with
  | nil =>
      rfl
  | cons x xs ih =>
      rw [List.foldlM_cons, List.mapM_cons]
      cases check x with
      | error e =>
          rfl
      | ok y =>
          have hrest := ih (put state y)
          cases hys : xs.mapM check with
          | error e =>
              rw [hys] at hrest
              exact hrest
          | ok ys =>
              rw [hys] at hrest
              exact hrest

/-! ## Candidates -/

namespace Candidate

variable {α ε : Type}

def stray? : Candidate α → Option Argument
  | .fit _ => none
  | .stray value => some value

theorem check_reports (complain : Argument → ε) (candidate : Candidate α) :
    Reports (candidate.check complain) (fun a => candidate = .fit a)
      (candidate.stray?.toList.map complain) := by
  cases candidate with
  | fit a =>
      apply Reports.of_ok
      · intro b
        rw [Candidate.fit.injEq, eq_comm]
      · rfl
  | stray value =>
      apply Reports.of_error
      · intro a h
        cases h
      · rfl

theorem mapM_check_reports (complain : Argument → ε) (candidates : List (Candidate α)) :
    Reports (candidates.mapM (check complain)) (fun given => candidates = given.map .fit)
      ((candidates.filterMap stray?).map complain) := by
  apply (Reports.mapM (check_reports complain) candidates).congr
  · intro given
    rw [← List.forall₂_eq_eq_eq, List.forall₂_map_right_iff]
  · rw [List.filterMap_eq_flatMap_toList, List.map_flatMap]

end Candidate
end Highlighting
