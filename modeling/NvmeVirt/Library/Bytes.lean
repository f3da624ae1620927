import Mathlib.Data.UInt
import Mathlib.Tactic.Common

/-!
# Numbers in memory

A memory is a byte for each address. A number of `n` bytes is kept with its lowest byte first; what
is read depends on these bytes only, and the bytes of a number that fits read back as the number.
-/

namespace Bytes

variable {mem mem' : Nat → UInt8} {off off' n v : Nat}

/-- The number of `n` bytes at `off`, lowest byte first. -/
def readLe (mem : Nat → UInt8) (off : Nat) : Nat → Nat
  | 0 => 0
  | n + 1 => (mem off).toNat + 256 * readLe mem (off + 1) n

theorem readLe_lt (mem : Nat → UInt8) (off n : Nat) : readLe mem off n < 256 ^ n := by
  induction n generalizing off with
  | zero => exact Nat.one_pos
  | succ n ih =>
    have hfirst := (mem off).toNat_lt
    have hrest := ih (off + 1)
    rw [readLe, Nat.pow_succ']
    omega

/-- Byte `i` of a number. -/
def leByte (v i : Nat) : UInt8 := UInt8.ofNat (v / 256 ^ i)

theorem leByte_succ (v i : Nat) : leByte v (i + 1) = leByte (v / 256) i := by
  rw [leByte, leByte, Nat.div_div_eq_div_mul, Nat.pow_succ']

/-- Only the bytes of the number matter. -/
theorem readLe_congr (h : ∀ i < n, mem (off + i) = mem' (off' + i)) :
    readLe mem off n = readLe mem' off' n := by
  induction n generalizing off off' with
  | zero => rfl
  | succ n ih =>
    have hfirst := h 0 (Nat.succ_pos n)
    have hrest : readLe mem (off + 1) n = readLe mem' (off' + 1) n := by
      apply ih
      intro i hi
      rw [Nat.add_assoc, Nat.add_assoc, Nat.add_comm 1 i]
      exact h (i + 1) (Nat.succ_lt_succ hi)
    rw [readLe, readLe, hrest]
    rw [Nat.add_zero, Nat.add_zero] at hfirst
    rw [hfirst]

/-- The bytes of a number read back, as far as they go. -/
theorem readLe_of_leByte (h : ∀ i < n, mem (off + i) = leByte v i) :
    readLe mem off n = v % 256 ^ n := by
  induction n generalizing off v with
  | zero => simp [readLe, Nat.mod_one]
  | succ n ih =>
    have hfirst : mem off = leByte v 0 := h 0 (Nat.succ_pos n)
    have hrest : readLe mem (off + 1) n = v / 256 % 256 ^ n := by
      apply ih
      intro i hi
      rw [← leByte_succ, Nat.add_assoc, Nat.add_comm 1 i]
      exact h (i + 1) (Nat.succ_lt_succ hi)
    have hlow : (leByte v 0).toNat = v % 256 := by simp [leByte]
    rw [readLe, hrest, hfirst, hlow, Nat.pow_succ', Nat.mod_mul]

/-- Bytes that are all set read as the greatest number. -/
theorem readLe_of_ff (h : ∀ i < n, mem (off + i) = 0xff) : readLe mem off n = 256 ^ n - 1 := by
  induction n generalizing off with
  | zero => rfl
  | succ n ih =>
    have hrest : readLe mem (off + 1) n = 256 ^ n - 1 := by
      apply ih
      intro i hi
      rw [Nat.add_assoc, Nat.add_comm 1 i]
      exact h (i + 1) (Nat.succ_lt_succ hi)
    have hfirst : mem off = 0xff := h 0 (Nat.succ_pos n)
    have hpos : 0 < 256 ^ n := Nat.pow_pos (by simp)
    rw [readLe, hrest, hfirst, Nat.pow_succ']
    change 255 + 256 * (256 ^ n - 1) = _
    omega

end Bytes
