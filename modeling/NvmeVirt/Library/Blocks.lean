import Mathlib.Algebra.BigOperators.Group.Finset.Basic
import Mathlib.Algebra.BigOperators.Intervals

/-!
# A range cut into blocks

A range that is filled from its start on, cut into blocks of one size: how much of it lies in each
block, and the chunks in which a loop walks along it, none of which crosses the end of a block.
-/

namespace NvmeVirt.Blocks

variable {W O N m p e P : Nat}

/-- The part of block `k` that the first `W` units fill. -/
def part (W O k : Nat) : Nat := min W ((k + 1) * O) - k * O

/-- The blocks from `m` on hold what the blocks before do not. -/
theorem sum_part_from (hm : m ≤ N) :
    ∑ k ∈ Finset.range N with m ≤ k, part W O k + min W (m * O) = min W (N * O) := by
  induction N, hm using Nat.le_induction with
  | base =>
    have hnone : ∀ k ∈ Finset.range m, ¬ m ≤ k := fun k hk =>
      Nat.not_le.mpr (Finset.mem_range.mp hk)
    rw [Finset.filter_false_of_mem hnone, Finset.sum_empty, Nat.zero_add]
  | succ N hm ih =>
    rw [Finset.range_add_one, Finset.filter_insert, if_pos hm, Finset.sum_insert (by simp),
      Nat.add_assoc, ih, part, Nat.add_one_mul]
    omega

/-- The end of the chunk that begins at `p`. -/
def chunkEnd (P e p : Nat) : Nat := p + min (e - p) (P - p % P)

/-- A chunk ends with its block, or with the range. -/
theorem chunkEnd_eq (hp : p < e) (hP : 0 < P) : chunkEnd P e p = min e ((p / P + 1) * P) := by
  have hdiv := Nat.div_add_mod' p P
  have hmod := Nat.mod_lt p hP
  rw [chunkEnd, Nat.add_one_mul]
  omega

end NvmeVirt.Blocks
