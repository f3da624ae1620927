import Mathlib.Algebra.GroupWithZero.Nat
import Mathlib.Data.List.Range
import Mathlib.Logic.Function.Basic
import Mathlib.Tactic.Common

/-!
# Bytes laid over segments

A stretch of bytes is laid over segments of memory, one behind the other. The pairs of a byte and its
address are those of one function, and two such functions agree when their pairs do.
-/

namespace Segments

variable {β γ : Type} {l : List (Nat × Nat)} {n : Nat}

/-- The length of the segments; a segment is an address and a length. -/
def total (l : List (Nat × Nat)) : Nat := (l.map Prod.snd).sum

@[simp] theorem total_nil : total [] = 0 := rfl

@[simp] theorem total_cons (a n : Nat) (l : List (Nat × Nat)) :
    total ((a, n) :: l) = n + total l := by
  simp [total]

/-- The address of byte `i`. -/
def place : List (Nat × Nat) → Nat → Nat
  | [], i => i
  | (a, n) :: l, i => if i < n then a + i else place l (i - n)

/-- The bytes from `o` on and their addresses, segment by segment. -/
def lay : Nat → List (Nat × Nat) → List (Nat × Nat)
  | _, [] => []
  | o, (a, n) :: l => (List.range n).map (fun i => (o + i, a + i)) ++ lay (o + n) l

/-- Byte by byte. -/
theorem lay_eq (o : Nat) (l : List (Nat × Nat)) :
    lay o l = (List.range (total l)).map fun i => (o + i, place l i) := by
  induction l generalizing o with
  | nil => rfl
  | cons x l ih =>
    obtain ⟨a, n⟩ := x
    rw [lay, ih, total_cons, List.range_add, List.map_append, List.map_map]
    congr 1
    · apply List.map_congr_left
      intro i hi
      rw [place, if_pos (List.mem_range.mp hi)]
    · apply List.map_congr_left
      intro i _
      simp [place, Nat.add_assoc]

theorem length_lay (o : Nat) (l : List (Nat × Nat)) : (lay o l).length = total l := by
  simp [lay_eq]

/-- Two functions of distinct arguments have the same pairs exactly when they are equal. -/
theorem pairs_iff {f : Nat → β} {g h : Nat → γ}
    (hinj : ∀ i < n, ∀ j < n, f i = f j → i = j) :
    (∀ x, x ∈ (List.range n).map (fun i => (f i, g i)) ↔
      x ∈ (List.range n).map (fun i => (f i, h i))) ↔ ∀ i < n, g i = h i := by
  constructor
  · intro hsame i hi
    have hmem : (f i, g i) ∈ (List.range n).map fun i => (f i, g i) :=
      List.mem_map.mpr ⟨i, List.mem_range.mpr hi, rfl⟩
    obtain ⟨j, hj, heq⟩ := List.mem_map.mp ((hsame _).mp hmem)
    obtain ⟨hf, hg⟩ := Prod.mk.inj heq
    rw [hinj j (List.mem_range.mp hj) i hi hf] at hg
    exact hg.symm
  · intro heq
    have hmap : (List.range n).map (fun i => (f i, g i)) =
        (List.range n).map fun i => (f i, h i) := by
      apply List.map_congr_left
      intro i hi
      rw [heq i (List.mem_range.mp hi)]
    simp [hmap]

/-! ## Copies -/

/-- A copy byte by byte, from the second to the first address of each pair. -/
def copy (src dst : Nat → β) (l : List (Nat × Nat)) : Nat → β :=
  l.foldl (fun dst b => Function.update dst b.1 (src b.2)) dst

theorem copy_append (src dst : Nat → β) (l m : List (Nat × Nat)) :
    copy src dst (l ++ m) = copy src (copy src dst l) m :=
  List.foldl_append

variable {src dst : Nat → β} {p q : Nat → Nat}

/-- A byte that is no target is kept. -/
theorem copy_of_ne {a : Nat} (h : ∀ i < n, p i ≠ a) :
    copy src dst ((List.range n).map fun i => (p i, q i)) a = dst a := by
  induction n with
  | zero => rfl
  | succ n ih =>
    have hlast := h n (Nat.lt_succ_self n)
    rw [List.range_succ, List.map_append, copy_append]
    change Function.update _ (p n) _ a = _
    rw [Function.update_of_ne hlast.symm]
    exact ih fun i hi => h i (Nat.lt_succ_of_lt hi)

/-- A target gets its byte when no target occurs twice. -/
theorem copy_at (h : ∀ i < n, ∀ j < n, p i = p j → i = j) {i : Nat} (hi : i < n) :
    copy src dst ((List.range n).map fun i => (p i, q i)) (p i) = src (q i) := by
  induction n with
  | zero => exact absurd hi (Nat.not_lt_zero i)
  | succ n ih =>
    rw [List.range_succ, List.map_append, copy_append]
    change Function.update (copy src dst _) (p n) (src (q n)) (p i) = _
    rcases Nat.lt_succ_iff_lt_or_eq.mp hi with hlt | rfl
    · have hne : p i ≠ p n := fun heq =>
        hlt.ne (h i hi n (Nat.lt_succ_self n) heq)
      rw [Function.update_of_ne hne]
      exact ih (fun x hx y hy => h x (Nat.lt_succ_of_lt hx) y (Nat.lt_succ_of_lt hy)) hlt
    · rw [Function.update_self]

end Segments
