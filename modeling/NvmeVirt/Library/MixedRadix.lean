import Mathlib.Algebra.Order.Ring.Nat
import Mathlib.Order.Monotone.Basic
import Mathlib.Tactic.Ring
import Mathlib.Tactic.Linarith

/-!
# Mixed-radix positions

A position with digits `a` (any size) and `b < n` is numbered `a * n + b`. The
numbering is injective, stays below the product of the digit ranges, and is
strictly monotone in the leading digit. Longer positions nest the numbering. Blocks of
two sizes, the first `k` of size `s` and all others of size `t`, are numbered one behind the other.
-/

namespace MixedRadix

/-- The numbering stays below the product of the ranges. -/
theorem pair_lt {a b m n : Nat} (ha : a < m) (hb : b < n) : a * n + b < m * n := by
  calc a * n + b < a * n + n := by omega
    _ = (a + 1) * n := by ring
    _ ≤ m * n := Nat.mul_le_mul_right n ha

/-- A larger leading digit gives a larger number. -/
theorem pair_lt_pair {a b a' b' n : Nat} (ha : a < a') (hb : b < n) :
    a * n + b < a' * n + b' := by
  have h := pair_lt ha hb
  omega

/-- Both digits are recovered from the number. -/
theorem pair_inj {a b a' b' n : Nat} (hb : b < n) (hb' : b' < n)
    (h : a * n + b = a' * n + b') : a = a' ∧ b = b' := by
  rcases lt_trichotomy a a' with hlt | heq | hgt
  · have : a * n + b < a' * n + b' := pair_lt_pair hlt hb
    omega
  · subst heq
    exact ⟨rfl, by omega⟩
  · have : a' * n + b' < a * n + b := pair_lt_pair hgt hb'
    omega

/-- Every number below the product is the number of a position. -/
theorem pair_surj {i m n : Nat} (h : i < m * n) : ∃ a < m, ∃ b < n, a * n + b = i := by
  have hn : 0 < n := Nat.pos_of_ne_zero (by rintro rfl; exact absurd h (by simp))
  refine ⟨i / n, (Nat.div_lt_iff_lt_mul hn).mpr h, i % n, Nat.mod_lt i hn, ?_⟩
  rw [Nat.mul_comm]
  exact Nat.div_add_mod i n

/-- The largest position is followed by the product of the ranges. -/
theorem pair_succ_eq {a b m n : Nat} (ha : a + 1 = m) (hb : b + 1 = n) :
    a * n + b + 1 = m * n := by
  subst ha hb
  ring

/-- Carrying into the leading digit advances the number by one. -/
theorem pair_carry {a b n : Nat} (hb : b + 1 = n) : (a + 1) * n + 0 = a * n + b + 1 := by
  subst hb
  ring

/-! ## Blocks of two sizes -/

/-- The size of block `b`. -/
def blockSize (k s t b : Nat) : Nat := if b < k then s else t

/-- The places before block `b`. -/
def blockStart (k s t b : Nat) : Nat := if b < k then b * s else k * s + (b - k) * t

variable {k s t : Nat}

@[simp] theorem blockStart_zero : blockStart k s t 0 = 0 := by
  rw [blockStart]
  split_ifs with hk
  · rw [Nat.zero_mul]
  · obtain rfl : k = 0 := by omega
    rw [Nat.zero_mul, Nat.zero_sub, Nat.zero_mul]

/-- A block starts where the one before it ends. -/
theorem blockStart_succ (b : Nat) :
    blockStart k s t (b + 1) = blockStart k s t b + blockSize k s t b := by
  unfold blockStart blockSize
  rcases lt_trichotomy (b + 1) k with hlt | heq | hgt
  · rw [if_pos hlt, if_pos (by omega), if_pos (by omega), Nat.succ_mul]
  · rw [if_neg (by omega), if_pos (by omega), if_pos (by omega), ← heq, Nat.sub_self, Nat.zero_mul,
      Nat.add_zero, Nat.succ_mul]
  · rw [if_neg (by omega), if_neg (by omega), if_neg (by omega), Nat.add_assoc, ← Nat.succ_mul,
      Nat.succ_sub (by omega)]

theorem blockStart_mono : Monotone (blockStart k s t) := by
  apply monotone_nat_of_le_succ
  intro b
  rw [blockStart_succ]
  exact Nat.le_add_right ..

/-- Blocks do not overlap. -/
theorem blockStart_add_le {b b' : Nat} (h : b < b') :
    blockStart k s t b + blockSize k s t b ≤ blockStart k s t b' := by
  rw [← blockStart_succ]
  exact blockStart_mono h

/-- A place is in one block only. -/
theorem block_inj {b b' p p' : Nat} (hp : p < blockSize k s t b) (hp' : p' < blockSize k s t b')
    (h : blockStart k s t b + p = blockStart k s t b' + p') : b = b' ∧ p = p' := by
  rcases lt_trichotomy b b' with hlt | rfl | hgt
  · have hle := @blockStart_add_le k s t _ _ hlt
    omega
  · exact ⟨rfl, by omega⟩
  · have hle := @blockStart_add_le k s t _ _ hgt
    omega

/-- Every place before block `n` is in one of the blocks before it. -/
theorem block_surj {i n : Nat} (h : i < blockStart k s t n) :
    ∃ b < n, ∃ p < blockSize k s t b, blockStart k s t b + p = i := by
  induction n with
  | zero =>
    rw [blockStart_zero] at h
    exact absurd h i.not_lt_zero
  | succ n ih =>
    rcases lt_or_ge i (blockStart k s t n) with hlt | hge
    · obtain ⟨b, hb, hp⟩ := ih hlt
      exact ⟨b, by omega, hp⟩
    · rw [blockStart_succ] at h
      exact ⟨n, n.lt_succ_self, i - blockStart k s t n, by omega, by omega⟩

end MixedRadix
