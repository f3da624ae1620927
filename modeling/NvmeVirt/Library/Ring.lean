import Mathlib.Data.Nat.ModEq
import Mathlib.Data.List.Range
import Mathlib.Tactic.Common

/-!
# Ring buffers

Entries are counted without end, and entry `k` of a ring of `size` slots is kept in slot
`k % size`. Two positions of a ring determine how many entries lie between them, and a
phase bit that flips at every wrap tells the entries of one round from those of the next.
-/

namespace RingBuffer

/-! ## Slots -/

/-- The slots of `n` entries from entry `start` on, in a ring of `size` slots. -/
def ringSlots (size start n : Nat) : List Nat :=
  (List.range' start n).map (· % size)

@[simp] theorem ringSlots_zero (size start : Nat) : ringSlots size start 0 = [] := rfl

@[simp] theorem length_ringSlots (size start n : Nat) : (ringSlots size start n).length = n := by
  simp [ringSlots]

theorem ringSlots_succ (size start n : Nat) :
    ringSlots size start (n + 1) = start % size :: ringSlots size (start + 1) n := by
  simp [ringSlots, List.range'_succ]

theorem mem_ringSlots {size start n k : Nat} (h : k < n) :
    (start + k) % size ∈ ringSlots size start n :=
  List.mem_map.mpr ⟨start + k, List.mem_range'_1.mpr ⟨Nat.le_add_right .., Nat.add_lt_add_left h _⟩, rfl⟩

/-- Entries in a row, counted on. -/
theorem ringSlots_append (size start m n : Nat) :
    ringSlots size start m ++ ringSlots size (start + m) n = ringSlots size start (m + n) := by
  rw [ringSlots, ringSlots, ringSlots, ← List.map_append, List.range'_append_1]

/-- The slot behind slot `i % size`. -/
theorem next_slot {size i : Nat} (h : 0 < size) :
    (if i % size + 1 = size then 0 else i % size + 1) = (i + 1) % size := by
  have hlt := Nat.mod_lt i h
  rw [← Nat.mod_add_mod i size 1]
  split
  · next hwrap => rw [hwrap, Nat.mod_self]
  · next hwrap => rw [Nat.mod_eq_of_lt (Nat.lt_of_le_of_ne hlt hwrap)]

/-! ## Windows -/

/-- The slot `d` places behind the head of a ring. -/
def ringSlot (size head d : Nat) : Nat := (head + d) % size

theorem ringSlot_lt {size : Nat} (h : 0 < size) (head d : Nat) : ringSlot size head d < size :=
  Nat.mod_lt _ h

/-- Counted without a remainder. -/
theorem ringSlot_eq {size head d : Nat} (hh : head < size) (hd : d ≤ size) :
    ringSlot size head d = if head + d < size then head + d else head + d - size := by
  unfold ringSlot
  split
  · next h => exact Nat.mod_eq_of_lt h
  · next h => rw [Nat.mod_eq_sub_mod (Nat.le_of_not_lt h), Nat.mod_eq_of_lt (by omega)]

theorem ringSlot_inj {size head d e : Nat} (hh : head < size) (hd : d < size) (he : e < size)
    (h : ringSlot size head d = ringSlot size head e) : d = e := by
  rw [ringSlot_eq hh hd.le, ringSlot_eq hh he.le] at h
  split_ifs at h <;> omega

/-- The next slot. -/
theorem ringSlot_succ (size head d : Nat) :
    (ringSlot size head d + 1) % size = ringSlot size head (d + 1) := by
  rw [ringSlot, ringSlot, Nat.mod_add_mod, Nat.add_assoc]

/-- The head may move on. -/
theorem ringSlot_add (size head e d : Nat) :
    ringSlot size (ringSlot size head e) d = ringSlot size head (e + d) := by
  rw [ringSlot, ringSlot, ringSlot, Nat.mod_add_mod, Nat.add_assoc]

/-- One round back is the same slot. -/
theorem ringSlot_sub {size d : Nat} (head : Nat) (hd : size ≤ d) :
    ringSlot size head (d - size) = ringSlot size head d := by
  rw [ringSlot, ringSlot, ← Nat.add_mod_right, Nat.add_assoc, Nat.sub_add_cancel hd]

/-- The search comes back to the head after a whole round, not before. -/
theorem ringSlot_eq_head_iff {size head d : Nat} (hh : head < size) (hd : 0 < d) (hle : d ≤ size) :
    ringSlot size head d = head ↔ d = size := by
  rw [ringSlot_eq hh hle]
  split_ifs <;> omega

/-- Every slot is some places behind the head. -/
theorem exists_ringSlot {size head i : Nat} (hh : head < size) (hi : i < size) :
    ∃ d < size, ringSlot size head d = i := by
  by_cases h : head ≤ i
  · refine ⟨i - head, by omega, ?_⟩
    rw [ringSlot_eq hh (by omega)]
    split_ifs <;> omega
  · refine ⟨i + size - head, by omega, ?_⟩
    rw [ringSlot_eq hh (by omega)]
    split_ifs <;> omega

/-! ## Positions -/

/-- The number of entries between two positions, from the signed difference of their slots. -/
theorem distance_eq {size p t : Nat} (hpt : p ≤ t) (ht : t < p + size) :
    (let d : Int := ((t % size : Nat) : Int) - (p % size : Nat)
    if d < 0 then d + size else d).toNat = t - p := by
  obtain ⟨d, rfl⟩ := Nat.exists_eq_add_of_le hpt
  have hp := Nat.mod_lt p (by omega : 0 < size)
  have hmod : (p + d) % size = if p % size + d < size then p % size + d else p % size + d - size := by
    rw [← Nat.mod_add_mod p size d]
    split
    · next h => exact Nat.mod_eq_of_lt h
    · next h => rw [Nat.mod_eq_sub_mod (Nat.le_of_not_lt h), Nat.mod_eq_of_lt (by omega)]
  simp only [hmod]
  split_ifs <;> omega

/-- The first position from `p` on whose slot is `db`. -/
def submittedUpTo (size p db : Nat) : Nat := p + (db + size - p % size) % size

theorem submittedUpTo_spec {size p db : Nat} (hdb : db < size) :
    p ≤ submittedUpTo size p db ∧ submittedUpTo size p db < p + size ∧
      submittedUpTo size p db % size = db := by
  have hpos : 0 < size := by omega
  have hp := Nat.mod_lt p hpos
  refine ⟨Nat.le_add_right .., Nat.add_lt_add_left (Nat.mod_lt _ hpos) p, ?_⟩
  rw [submittedUpTo, Nat.add_mod_mod, ← Nat.mod_add_mod p, ← Nat.add_sub_assoc (by omega),
    Nat.add_sub_cancel_left, Nat.add_mod_right, Nat.mod_eq_of_lt hdb]

/-! ## Phases -/

/-- The phase of entry `k` of a ring of `n` slots: it flips at every wrap. -/
def ringPhase (n k : Nat) : Bool := k / n % 2 = 0

/-- One entry further the phase flips exactly when the slot wraps. -/
theorem ringPhase_succ {n k : Nat} (hn : 0 < n) :
    ringPhase n (k + 1) = if k % n + 1 = n then !ringPhase n k else ringPhase n k := by
  have hlt := Nat.mod_lt k hn
  have hk : k + 1 = n * (k / n) + (k % n + 1) := by
    rw [← Nat.add_assoc, Nat.div_add_mod]
  split
  · next hwrap =>
    have hdiv : (k + 1) / n = k / n + 1 := by
      rw [hk, hwrap, ← Nat.mul_succ, Nat.mul_div_cancel_left _ hn]
    rw [ringPhase, ringPhase, hdiv]
    by_cases h : k / n % 2 = 0 <;> simp [h] <;> omega
  · next hwrap =>
    have hr : k % n + 1 < n := Nat.lt_of_le_of_ne hlt hwrap
    have hdiv : (k + 1) / n = k / n := by
      rw [hk, Nat.mul_add_div hn, Nat.div_eq_of_lt hr, Nat.add_zero]
    rw [ringPhase, ringPhase, hdiv]

/-- A slot is used again `n` entries later, with the other phase. -/
theorem ringPhase_add (n k : Nat) (hn : 0 < n) : ringPhase n (k + n) = !ringPhase n k := by
  rw [ringPhase, ringPhase, Nat.add_div_right k hn]
  by_cases h : k / n % 2 = 0 <;> simp [h] <;> omega

/-- Two entries less than `n` apart are in different slots. -/
theorem slot_ne {n k p : Nat} (hkp : k < p) (hp : p < k + n) : k % n ≠ p % n := by
  intro h
  have hzero := Nat.sub_mod_eq_zero_of_mod_eq h.symm
  rw [Nat.mod_eq_of_lt (by omega)] at hzero
  omega

end RingBuffer
