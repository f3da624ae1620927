import NvmeVirt.Library.Tally
import Mathlib.Algebra.BigOperators.Intervals

/-!
# Amounts taken from a row of slots

An amount is taken from a row of `n` slots, from slot `d` on: each slot gives what it has before the
next one is asked. Where this ends is a monotone function of the amount, and it moves on by at least
one slot for every `m` more when no slot has more than `m`.
-/

namespace Filling

open Finset

variable {a b : Nat → Nat} {n d c c' last last' e m k : Nat}

/-- What the slots from `d` up to `e` have. -/
def supply (a : Nat → Nat) (d e : Nat) : Nat := ∑ x ∈ Ico d (e + 1), a x

theorem supply_self (a : Nat → Nat) (d : Nat) : supply a d d = a d := by
  simp [supply]

theorem supply_cons (h : d < e) : supply a d e = a d + supply a (d + 1) e := by
  rw [supply, supply, sum_eq_sum_Ico_succ_bot (by omega)]

theorem supply_mono (h : e ≤ k) : supply a d e ≤ supply a d k :=
  sum_le_sum_of_subset (Ico_subset_Ico_right (by omega))

/-- The supply is the sum of two stretches. -/
theorem supply_add (hd : d ≤ e) (h : e ≤ k) :
    supply a d k = supply a d e + ∑ x ∈ Ico (e + 1) (k + 1), a x :=
  (sum_Ico_consecutive _ (by omega) (by omega)).symm

/-- No slot has more than `m`. -/
theorem sum_le_mul (h : ∀ x < n, a x ≤ m) (hk : k ≤ n) : ∑ x ∈ Ico d k, a x ≤ (k - d) * m := by
  rw [← Nat.card_Ico d k]
  apply Tally.sum_le_card_mul
  intro x hx
  exact h x ((mem_Ico.mp hx).2.trans_le hk)

theorem supply_congr (h : ∀ x, d ≤ x → x ≤ e → a x = b x) : supply a d e = supply b d e := by
  apply sum_congr rfl
  intro x hx
  have hx := mem_Ico.mp hx
  exact h x hx.1 (by omega)

/-- Taking `c` from slot `d` on comes to its end at slot `last`: all slots before have too little, and
this one is enough unless the row ends here. -/
structure Ends (a : Nat → Nat) (n d c last : Nat) : Prop where
  from_le : d ≤ last
  lt : last < n
  short : ∀ e, d ≤ e → e < last → supply a d e < c
  enough : last + 1 < n → c ≤ supply a d last

namespace Ends

/-- It ends where it starts. -/
theorem stop (hd : d < n) (h : c ≤ a d ∨ d + 1 = n) : Ends a n d c d := by
  refine ⟨le_rfl, hd, fun e h₁ h₂ => by omega, fun hlt => ?_⟩
  rw [supply_self]
  omega

/-- The first slot gives all it has, and the rest is taken from the next slot on. -/
theorem cons (h : Ends b n (d + 1) (c - a d) last) (hmore : a d < c)
    (hb : ∀ x, d < x → x < n → b x = a x) : Ends a n d c last := by
  have hd := h.from_le
  have hlt := h.lt
  have hrest : ∀ e < n, supply b (d + 1) e = supply a (d + 1) e := fun e he =>
    supply_congr fun x h₁ h₂ => hb x (by omega) (by omega)
  refine ⟨by omega, hlt, fun e hde he => ?_, fun hend => ?_⟩
  · rcases Nat.eq_or_lt_of_le hde with rfl | hde
    · rwa [supply_self]
    · have := h.short e hde he
      rw [hrest e (by omega)] at this
      rw [supply_cons hde]
      omega
  · have := h.enough hend
    rw [hrest last hlt] at this
    rw [supply_cons (by omega)]
    omega

/-- It does not go on behind a slot that is enough. -/
theorem le_of_enough (h : Ends a n d c last) (hde : d ≤ e) (he : c ≤ supply a d e) : last ≤ e := by
  by_contra hlt
  have := h.short e hde (by omega)
  omega

/-- It goes on behind a slot that is not enough. -/
theorem lt_of_short (h : Ends a n d c last) (hen : e + 1 < n) (he : supply a d e < c) :
    e < last := by
  by_contra hle
  have henough := h.enough (by omega)
  have hmono := @supply_mono a d last e (by omega)
  omega

/-- A larger amount ends later. -/
theorem mono (h : Ends a n d c last) (h' : Ends a n d c' last') (hc : c ≤ c') : last ≤ last' := by
  by_contra hlt
  have hshort := h.short last' h'.from_le (by omega)
  have hlast := h.lt
  have henough := h'.enough (by omega)
  omega

/-- Slots with at most `m` each: an amount that is found in full, and is larger by `k * m`, ends at
least `k` slots later. -/
theorem add_le (h : Ends a n d c last) (h' : Ends a n d c' last') (ha : ∀ x < n, a x ≤ m)
    (hpos : 0 < c) (hc : c + k * m ≤ c') (hfound : c' ≤ supply a d last') : last + k ≤ last' := by
  have hmono := h.mono h' (by omega)
  have hd := h.from_le
  have hlt := h'.lt
  by_contra hless
  have hk : (last' + 1 - last) * m ≤ k * m := Nat.mul_le_mul_right m (by omega)
  rcases Nat.eq_or_lt_of_le hd with rfl | hd
  · have := @sum_le_mul a n d m (last' + 1) ha (by omega)
    rw [supply] at hfound
    omega
  · have hshort := h.short (last - 1) (by omega) (by omega)
    have := @sum_le_mul a n last m (last' + 1) ha (by omega)
    rw [@supply_add a d (last - 1) last' (by omega) (by omega), Nat.sub_add_cancel (by omega)]
      at hfound
    omega

/-- Nothing is found where it is asked for. -/
theorem eq_of_zero (h : Ends a n d 0 last) : last = d :=
  Nat.le_antisymm (h.le_of_enough le_rfl (Nat.zero_le _)) h.from_le

/-- How far it goes beyond the `c / m` slots that full slots of `m` would be short of: a larger
amount goes on for at least as long, unless the remainder of the division is smaller, and then it
lacks at most one slot. -/
theorem beyond_le (h : Ends a n d c last) (h' : Ends a n d c' last') (ha : ∀ x < n, a x ≤ m)
    (hc : c ≤ c') (hfound : c' ≤ supply a d last') :
    last - d - c / m ≤ last' - d - c' / m + 1 ∧
      (c % m ≤ c' % m → last - d - c / m ≤ last' - d - c' / m) := by
  have hdiv : c / m ≤ c' / m := Nat.div_le_div_right hc
  have hmod := Nat.div_add_mod c m
  have hmod' := Nat.div_add_mod c' m
  have hfrom := h.from_le
  have hfrom' := h'.from_le
  rcases Nat.eq_zero_or_pos c with rfl | hpos
  · rw [h.eq_of_zero]
    simp
  have hmul : m * (c' / m) = m * (c / m) + (c' / m - c / m) * m := by
    rw [← Nat.mul_comm m, ← Nat.mul_add, Nat.add_sub_cancel' hdiv]
  constructor
  · rcases Nat.eq_or_lt_of_le hdiv with heq | hlt
    · have := h.mono h' hc
      omega
    · have hless : m * (c' / m) = m * (c / m) + (c' / m - c / m - 1) * m + m := by
        rw [hmul, Nat.add_assoc, ← Nat.succ_mul, Nat.succ_eq_add_one, Nat.sub_add_cancel (by omega)]
      have hrem : c % m < m := by
        apply Nat.mod_lt
        rcases Nat.eq_zero_or_pos m with rfl | hm
        · simp at hlt
        · exact hm
      have := h.add_le h' ha hpos (k := c' / m - c / m - 1) (by omega) hfound
      omega
  · intro hrem
    have := h.add_le h' ha hpos (k := c' / m - c / m) (by omega) hfound
    omega

/-- Where it ends is determined. -/
theorem unique (h : Ends a n d c last) (h' : Ends a n d c last') : last = last' :=
  Nat.le_antisymm (h.mono h' le_rfl) (h'.mono h le_rfl)

/-- The last slot of the row is the end whatever it has. -/
theorem congr (h : Ends a n d c last) (hab : ∀ x, d ≤ x → x + 1 < n → a x = b x) :
    Ends b n d c last := by
  have hlt := h.lt
  refine ⟨h.from_le, hlt, fun e hde he => ?_, fun hend => ?_⟩
  · rw [← supply_congr fun x h₁ h₂ => hab x h₁ (by omega)]
    exact h.short e hde he
  · rw [← supply_congr fun x h₁ h₂ => hab x h₁ (by omega)]
    exact h.enough hend

/-- Slots that lack one unit altogether are passed over as full slots are. -/
theorem passed_le (h : Ends a n d c last) (hlack : ∑ x ∈ Ico d last, (m - a x) ≤ 1) :
    (last - d) * m ≤ c := by
  rcases Nat.eq_or_lt_of_le h.from_le with rfl | hlt
  · simp
  · have hshort := h.short (last - 1) (by omega) (by omega)
    rw [supply, Nat.sub_add_cancel (by omega)] at hshort
    have hall : (last - d) * m ≤ ∑ x ∈ Ico d last, (m - a x) + ∑ x ∈ Ico d last, a x := by
      have := card_nsmul_le_sum (Ico d last) (fun x => m - a x + a x) m (by intro x _; omega)
      rwa [nsmul_eq_mul, Nat.cast_id, Nat.card_Ico, sum_add_distrib] at this
    omega

end Ends

/-- Slots that lack nothing are full. -/
theorem eq_of_sum_lack_eq_zero (ha : ∀ x < n, a x ≤ m) (h : ∑ x ∈ range n, (m - a x) = 0)
    {x : Nat} (hx : x < n) : a x = m := by
  have := ha x hx
  have := Finset.sum_eq_zero_iff.mp h x (mem_range.mpr hx)
  omega

/-- What slots have and what they lack. -/
theorem sum_lack_add (ha : ∀ x < n, a x ≤ m) :
    ∑ x ∈ range n, (m - a x) + ∑ x ∈ range n, a x = n * m := by
  have hall : ∀ x ∈ range n, m - a x + a x = m := by
    intro x hx
    exact Nat.sub_add_cancel (ha x (mem_range.mp hx))
  rw [← sum_add_distrib, sum_eq_card_nsmul hall, nsmul_eq_mul, Nat.cast_id, card_range]

end Filling
