import Mathlib.Algebra.BigOperators.Group.Finset.Basic
import Mathlib.Algebra.Order.BigOperators.Group.Finset
import Mathlib.Data.Finset.Card
import Mathlib.Data.Nat.Cast.Basic
import Mathlib.Tactic.Ring
import Mathlib.Tactic.Linarith

/-!
# Tallies of an array of labels

`tally n f k` counts the positions below `n` that carry the label `k`. Storing
one label changes at most two tallies, each by one; a tally is full exactly when
every position carries the label. The same bookkeeping is stated for finite sums
that change at one index.
-/

namespace Tally

open Finset

variable {κ ι : Type} [DecidableEq κ]

/-- The number of positions below `n` labelled `k`. -/
def tally (n : Nat) (f : Nat → κ) (k : κ) : Nat := ((range n).filter fun i => f i = k).card

theorem tally_congr {n : Nat} {f g : Nat → κ} {k : κ} (h : ∀ i < n, f i = g i) :
    tally n f k = tally n g k := by
  unfold tally
  congr 1
  apply filter_congr
  intro i hi
  rw [h i (mem_range.mp hi)]

theorem tally_le (n : Nat) (f : Nat → κ) (k : κ) : tally n f k ≤ n := by
  simpa [tally] using card_filter_le (range n) fun i => f i = k

/-- A position with another label keeps the tally below the length. -/
theorem tally_lt {n i : Nat} {f : Nat → κ} {k : κ} (hi : i < n) (hf : f i ≠ k) :
    tally n f k < n := by
  have h : (range n).filter (fun j => f j = k) ⊂ range n := by
    refine ⟨filter_subset _ _, fun hsub => ?_⟩
    exact hf (mem_filter.mp (hsub (mem_range.mpr hi))).2
  simpa [tally] using card_lt_card h

theorem tally_pos {n i : Nat} {f : Nat → κ} {k : κ} (hi : i < n) (hf : f i = k) :
    0 < tally n f k :=
  card_pos.mpr ⟨i, mem_filter.mpr ⟨mem_range.mpr hi, hf⟩⟩

theorem tally_eq_zero {n : Nat} {f : Nat → κ} {k : κ} (h : ∀ i < n, f i ≠ k) :
    tally n f k = 0 := by
  unfold tally
  rw [card_eq_zero, filter_eq_empty_iff]
  exact fun i hi => h i (mem_range.mp hi)

theorem tally_succ (n : Nat) (f : Nat → κ) (k : κ) :
    tally (n + 1) f k = tally n f k + if f n = k then 1 else 0 := by
  unfold tally
  rw [range_add_one, filter_insert]
  split
  · rw [card_insert_of_notMem (by simp)]
  · rfl

/-- Storing a label at one position moves one unit between two tallies. -/
theorem tally_update {n i : Nat} (f : Nat → κ) (v k : κ) (hi : i < n) :
    tally n (Function.update f i v) k + (if f i = k then 1 else 0) =
      tally n f k + if v = k then 1 else 0 := by
  induction n with
  | zero => omega
  | succ n ih =>
    rw [tally_succ, tally_succ]
    by_cases hin : i = n
    · subst hin
      have hc : tally i (Function.update f i v) k = tally i f k :=
        tally_congr fun j hj => Function.update_of_ne (by omega) v f
      rw [hc, Function.update_self]
      omega
    · rw [Function.update_of_ne (Ne.symm hin)]
      have := ih (by omega)
      omega

/-- The tallies of three labels that exhaust the type fill the array. -/
theorem tally_add_add {a b c : κ} (hab : a ≠ b) (hac : a ≠ c) (hbc : b ≠ c)
    (hall : ∀ k : κ, k = a ∨ k = b ∨ k = c) (n : Nat) (f : Nat → κ) :
    tally n f a + tally n f b + tally n f c = n := by
  induction n with
  | zero => simp [tally]
  | succ n ih =>
    rw [tally_succ, tally_succ, tally_succ]
    rcases hall (f n) with h | h | h <;> simp only [h] <;>
      simp [hab, hac, hbc, Ne.symm hab, Ne.symm hac, Ne.symm hbc] <;> omega

/-! ## Sums that change at one index -/

/-- A sum whose terms change at one index changes by that difference. -/
theorem sum_change {s : Finset ι} {f g : ι → Nat} {a : ι} [DecidableEq ι] (ha : a ∈ s)
    (h : ∀ b ∈ s, b ≠ a → g b = f b) : ∑ b ∈ s, g b + f a = ∑ b ∈ s, f b + g a := by
  rw [← add_sum_erase s g ha, ← add_sum_erase s f ha,
    sum_congr rfl fun b hb => h b (mem_of_mem_erase hb) (ne_of_mem_erase hb)]
  ring

/-- A sum of terms bounded by `c`. -/
theorem sum_le_card_mul {s : Finset ι} {f : ι → Nat} {c : Nat} (hle : ∀ a ∈ s, f a ≤ c) :
    ∑ a ∈ s, f a ≤ s.card * c := by
  have h := sum_le_card_nsmul s f c hle
  rwa [nsmul_eq_mul, Nat.cast_id] at h

/-- A sum of terms bounded by `c` that reaches the bound has every term equal to `c`. -/
theorem eq_of_sum_eq {s : Finset ι} {f : ι → Nat} {c : Nat} (hle : ∀ a ∈ s, f a ≤ c)
    (hsum : ∑ a ∈ s, f a = s.card * c) {a : ι} (ha : a ∈ s) : f a = c := by
  by_contra hne
  have hlt : ∑ b ∈ s, f b < ∑ _b ∈ s, c :=
    sum_lt_sum hle ⟨a, ha, lt_of_le_of_ne (hle a ha) hne⟩
  rw [sum_const, nsmul_eq_mul, Nat.cast_id] at hlt
  omega

end Tally
