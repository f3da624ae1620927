import Mathlib.Data.List.Basic

/-!
# Runs of a list

A list is cut into runs: an element joins the run of the element before it when it belongs with the
first element of that run, and opens a run of its own otherwise.
-/

namespace Runs

variable {α : Type} {same : α → α → Bool} {a : α} {joined l : List α}

/-- The runs from where `a` has opened a run, which the elements of `joined` have joined. -/
def runsFrom (same : α → α → Bool) (a : α) (joined : List α) : List α → List (List α)
  | [] => [a :: joined]
  | x :: l =>
    if same x a then runsFrom same a (joined ++ [x]) l
    else (a :: joined) :: runsFrom same x [] l

/-- The runs of a list. -/
def runs (same : α → α → Bool) : List α → List (List α)
  | [] => []
  | a :: l => runsFrom same a [] l

theorem flatten_runsFrom (same : α → α → Bool) (a : α) (joined l : List α) :
    (runsFrom same a joined l).flatten = a :: joined ++ l := by
  induction l generalizing a joined with
  | nil => simp [runsFrom]
  | cons x l ih =>
    rw [runsFrom]
    split_ifs with hx
    · simp [ih]
    · simp [ih]

/-- Every element is in one run, and the order stays. -/
@[simp] theorem flatten_runs (same : α → α → Bool) (l : List α) : (runs same l).flatten = l := by
  cases l with
  | nil => rfl
  | cons a l => simp [runs, flatten_runsFrom]

/-- A run: its first element and those that belong with it. -/
def IsRun (same : α → α → Bool) (r : List α) : Prop :=
  ∃ a joined, r = a :: joined ∧ ∀ x ∈ joined, same x a = true

theorem isRun_of_mem_runsFrom (hjoined : ∀ x ∈ joined, same x a = true) {r : List α}
    (hr : r ∈ runsFrom same a joined l) : IsRun same r := by
  induction l generalizing a joined with
  | nil =>
    simp only [runsFrom, List.mem_singleton] at hr
    exact ⟨a, joined, hr, hjoined⟩
  | cons x l ih =>
    rw [runsFrom] at hr
    split_ifs at hr with hx
    · apply ih _ hr
      intro y hy
      rw [List.mem_append, List.mem_singleton] at hy
      rcases hy with hy | rfl
      · exact hjoined y hy
      · exact hx
    · rcases List.mem_cons.mp hr with rfl | hr
      · exact ⟨a, joined, rfl, hjoined⟩
      · exact ih (by simp) hr

theorem isRun_of_mem_runs {r : List α} (hr : r ∈ runs same l) : IsRun same r := by
  cases l with
  | nil => cases hr
  | cons a l => exact isRun_of_mem_runsFrom (by simp) hr

end Runs
