import Mathlib.Data.Finset.Insert
import Mathlib.Data.Finset.Erase
import Mathlib.Data.Set.Basic
import Mathlib.Logic.Function.Basic
import Mathlib.Tactic.Common

/-!
# Tables of handles

A table has an entry for each name, and some entries are in use. It tracks the names that are live
when exactly these are in use. It goes on to do so when a name is opened and its entry gets into use,
when a name is closed, and when an entry in use is replaced.
-/

namespace Handles

variable {ι β : Type} [DecidableEq ι]
variable {used : β → Prop} {names : Set ι} {t : ι → β} {live : Finset ι} {i : ι} {b : β}

/-- Of the entries for `names` those of the live names are in use. -/
def Tracks (used : β → Prop) (names : Set ι) (t : ι → β) (live : Finset ι) : Prop :=
  ∀ i ∈ names, used (t i) ↔ i ∈ live

/-- A name is live. -/
theorem Tracks.opened (h : Tracks used names t live) (i : ι) (hb : used b) :
    Tracks used names (Function.update t i b) (insert i live) := by
  intro j hj
  by_cases heq : j = i
  · subst heq
    simp [hb]
  · rw [Function.update_of_ne heq, Finset.mem_insert, h j hj]
    simp [heq]

/-- A name is no longer live. -/
theorem Tracks.closed (h : Tracks used names t live) (i : ι) (hb : ¬ used b) :
    Tracks used names (Function.update t i b) (live.erase i) := by
  intro j hj
  by_cases heq : j = i
  · subst heq
    simp [hb]
  · rw [Function.update_of_ne heq, Finset.mem_erase, h j hj]
    simp [heq]

/-- A name whose entry is not in use is closed already. -/
theorem Tracks.erase (h : Tracks used names t live) (hi : ¬ used (t i)) :
    Tracks used names t (live.erase i) := by
  have hclosed := h.closed i hi
  rwa [Function.update_eq_self] at hclosed

/-- An entry in use is replaced. -/
theorem Tracks.replaced (h : Tracks used names t live) (hi : used (t i)) (hb : used b) :
    Tracks used names (Function.update t i b) live := by
  intro j hj
  by_cases heq : j = i
  · subst heq
    rw [Function.update_self, ← h j hj]
    exact iff_of_true hb hi
  · rw [Function.update_of_ne heq, h j hj]

end Handles
