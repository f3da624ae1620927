import Mathlib.Tactic.Common

/-!
# Registers in memory

A register is a number of bytes in memory, lowest byte first. A write under a mask replaces the bits
of the mask and keeps the others, in whatever width the register is accessed.
-/

namespace Registers

variable {w : Nat} {mem mem' : Nat → BitVec 8} {a n b i j : Nat}

/-- The `n` bytes at `a`. -/
def load (w : Nat) (mem : Nat → BitVec 8) (a : Nat) : Nat → BitVec w
  | 0 => 0
  | n + 1 => load w mem a n ||| (mem (a + n)).setWidth w <<< (8 * n)

/-- Bit `i` of a register is bit `i % 8` of its byte `i / 8`. -/
theorem getLsbD_load (hn : 8 * n ≤ w) : (load w mem a n).getLsbD i =
    (decide (i < 8 * n) && (mem (a + i / 8)).getLsbD (i % 8)) := by
  induction n with
  | zero => simp [load]
  | succ n ih =>
    rw [load, BitVec.getLsbD_or, ih (by omega), BitVec.getLsbD_shiftLeft, BitVec.getLsbD_setWidth]
    by_cases hlow : i < 8 * n
    · have hin : i < 8 * (n + 1) := by omega
      simp [hlow, hin]
    by_cases hin : i < 8 * (n + 1)
    · have hbyte : i / 8 = n := by omega
      have hbit : i % 8 = i - 8 * n := by omega
      have hw : i < w := by omega
      have hw' : i - 8 * n < w := by omega
      simp [hlow, hin, hbyte, hbit, hw, hw']
    · have hhigh : (mem (a + n)).getLsbD (i - 8 * n) = false :=
        BitVec.getLsbD_of_ge _ _ (by omega)
      simp [hlow, hin, hhigh]

/-- The `n` bytes at `a` get the value `v`. -/
def store (mem : Nat → BitVec 8) (a n : Nat) (v : BitVec w) : Nat → BitVec 8 :=
  fun b => if a ≤ b ∧ b < a + n then v.extractLsb' (8 * (b - a)) 8 else mem b

theorem store_of_outside (v : BitVec w) (h : ¬ (a ≤ b ∧ b < a + n)) : store mem a n v b = mem b :=
  if_neg h

/-- What is stored hides what was there. -/
theorem store_congr (v : BitVec w) (h : a ≤ b ∧ b < a + n) :
    store mem a n v b = store mem' a n v b := by
  unfold store
  rw [if_pos h, if_pos h]

/-- `old` with the bits under the mask from `new`. -/
def masked (old new mask : BitVec w) : BitVec w := old &&& ~~~mask ||| new &&& mask

theorem getLsbD_masked (old new mask : BitVec w) (i : Nat) :
    (masked old new mask).getLsbD i = if mask.getLsbD i then new.getLsbD i else old.getLsbD i := by
  rw [masked, BitVec.getLsbD_or, BitVec.getLsbD_and, BitVec.getLsbD_and, BitVec.getLsbD_not]
  by_cases hi : i < w
  · cases mask.getLsbD i <;> simp [hi]
  · have hge : w ≤ i := by omega
    simp [BitVec.getLsbD_of_ge _ _ hge]

/-- A masked write to the `n` bytes at `a` changes the bits of the mask, and no others. -/
theorem getLsbD_store_masked (hn : 8 * n ≤ w) (new mask : BitVec w) (hj : j < 8) :
    (store mem a n (masked (load w mem a n) new mask) b).getLsbD j =
      if (a ≤ b ∧ b < a + n) ∧ mask.getLsbD (8 * (b - a) + j) then new.getLsbD (8 * (b - a) + j)
      else (mem b).getLsbD j := by
  unfold store
  by_cases hin : a ≤ b ∧ b < a + n
  · have hlow : 8 * (b - a) + j < 8 * n := by omega
    have hbyte : a + (8 * (b - a) + j) / 8 = b := by omega
    have hbit : (8 * (b - a) + j) % 8 = j := by omega
    rw [if_pos hin, BitVec.getLsbD_extractLsb', getLsbD_masked, getLsbD_load hn, hbyte, hbit]
    simp [hin, hj, hlow]
  · rw [if_neg hin, if_neg fun h => hin h.1]

end Registers
