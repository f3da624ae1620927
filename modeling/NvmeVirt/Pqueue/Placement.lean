import NvmeVirt.Pqueue.Basic
import Mathlib.Tactic.Common

/-!
# Positions recorded in the nodes

Both sifts move a hole through the array and drop the moving node into it. The
hole invariant says that every other node records its own index and differs from
the moving node. It survives each move, so every operation ends with `pos` equal
to the heap index, with the expected set of nodes, and with everything that
`setpos` leaves alone unchanged.
-/

namespace NvmeVirt.Pqueue

variable {σ α β : Type} {cb : PqueueCallbacks σ α}

/-- The node `x` occurs in the used part of the array. -/
def Mem (q : Pqueue α) (x : α) : Prop := ∃ i, 1 ≤ i ∧ i < q.size ∧ q.d i = x

/-- Every used slot holds a node that records this slot. -/
def Placed (cb : PqueueCallbacks σ α) (q : Pqueue α) (s : σ) : Prop :=
  ∀ i, 1 ≤ i → i < q.size → cb.getpos s (q.d i) = i

/-- Two used slots hold different nodes. -/
theorem Placed.inj {q : Pqueue α} {s : σ} (h : Placed cb q s) {i j : Nat}
    (hi : 1 ≤ i) (hi' : i < q.size) (hj : 1 ≤ j) (hj' : j < q.size) (he : q.d i = q.d j) :
    i = j := by
  rw [← h i hi hi', ← h j hj hj', he]

/-- A node of the queue records a used slot that holds it. -/
theorem Placed.pos_of_mem {q : Pqueue α} {s : σ} (h : Placed cb q s) {x : α} (hx : q.Mem x) :
    1 ≤ cb.getpos s x ∧ cb.getpos s x < q.size ∧ q.d (cb.getpos s x) = x := by
  obtain ⟨i, hi, hi', rfl⟩ := hx
  rw [h i hi hi']
  exact ⟨hi, hi', rfl⟩

@[simp] theorem put_size (q : Pqueue α) (i : Nat) (x : α) : (q.put i x).size = q.size := rfl

@[simp] theorem put_d_self (q : Pqueue α) (i : Nat) (x : α) : (q.put i x).d i = x := by
  simp [put]

theorem put_d_of_ne (q : Pqueue α) {i j : Nat} (x : α) (h : j ≠ i) : (q.put i x).d j = q.d j := by
  simp [put, h]

/-! ## The moving hole -/

/-- Slot `i` is vacant, the node `m` is in hand, and all other used slots are placed. -/
structure Hole (cb : PqueueCallbacks σ α) (q : Pqueue α) (s : σ) (i : Nat) (m : α) : Prop where
  pos : 1 ≤ i
  lt : i < q.size
  placed : ∀ j, 1 ≤ j → j < q.size → j ≠ i → cb.getpos s (q.d j) = j
  fresh : ∀ j, 1 ≤ j → j < q.size → j ≠ i → q.d j ≠ m

/-- The nodes of the queue once the hole is filled. -/
def HoleMem (q : Pqueue α) (i : Nat) (m x : α) : Prop :=
  x = m ∨ ∃ j, 1 ≤ j ∧ j < q.size ∧ j ≠ i ∧ q.d j = x

/-- Moving the node of slot `p` into the hole moves the hole to `p`. -/
theorem Hole.move [DecidableEq α] {q : Pqueue α} {s : σ} {i p : Nat} {m : α} (hcb : cb.Lawful)
    (h : Hole cb q s i m) (hp : 1 ≤ p) (hp' : p < q.size) (hne : p ≠ i) :
    Hole cb (q.put i (q.d p)) (cb.setpos s (q.d p) i) p m := by
  refine ⟨hp, hp', ?_, ?_⟩
  · intro j hj hj' hjp
    rw [hcb.getpos_setpos]
    by_cases hji : j = i
    · subst hji
      simp
    · rw [put_d_of_ne _ _ hji]
      have hd : q.d j ≠ q.d p := by
        intro he
        have h1 := h.placed j hj hj' hji
        have h2 := h.placed p hp hp' hne
        rw [he, h2] at h1
        exact hjp h1.symm
      rw [if_neg hd]
      exact h.placed j hj hj' hji
  · intro j hj hj' hjp
    by_cases hji : j = i
    · subst hji
      rw [put_d_self]
      exact h.fresh p hp hp' hne
    · rw [put_d_of_ne _ _ hji]
      exact h.fresh j hj hj' hji

/-- A move keeps the set of nodes. -/
theorem Hole.move_mem {q : Pqueue α} {i p : Nat} {m x : α} (hi : 1 ≤ i) (hi' : i < q.size)
    (hp : 1 ≤ p) (hp' : p < q.size) (hne : p ≠ i) :
    HoleMem (q.put i (q.d p)) p m x ↔ HoleMem q i m x := by
  unfold HoleMem
  apply or_congr_right
  constructor
  · rintro ⟨j, hj, hj', hjp, rfl⟩
    by_cases hji : j = i
    · subst hji
      exact ⟨p, hp, hp', hne, by simp⟩
    · exact ⟨j, hj, hj', hji, by rw [put_d_of_ne _ _ hji]⟩
  · rintro ⟨j, hj, hj', hji, rfl⟩
    by_cases hjp : j = p
    · subst hjp
      exact ⟨i, hi, hi', Ne.symm hne, by simp⟩
    · exact ⟨j, hj, hj', hjp, by rw [put_d_of_ne _ _ hji]⟩

/-- Dropping the moving node into the hole places every node. -/
theorem Hole.fill [DecidableEq α] {q : Pqueue α} {s : σ} {i : Nat} {m : α} (hcb : cb.Lawful)
    (h : Hole cb q s i m) : Placed cb (q.put i m) (cb.setpos s m i) := by
  intro j hj hj'
  rw [hcb.getpos_setpos]
  by_cases hji : j = i
  · subst hji
    simp
  · rw [put_d_of_ne _ _ hji, if_neg (h.fresh j hj hj' hji)]
    exact h.placed j hj hj' hji

theorem Hole.fill_mem {q : Pqueue α} {s : σ} {i : Nat} {m x : α} (h : Hole cb q s i m) :
    (q.put i m).Mem x ↔ HoleMem q i m x := by
  constructor
  · rintro ⟨j, hj, hj', rfl⟩
    by_cases hji : j = i
    · subst hji
      exact Or.inl (by simp)
    · exact Or.inr ⟨j, hj, hj', hji, by rw [put_d_of_ne _ _ hji]⟩
  · rintro (rfl | ⟨j, hj, hj', hji, rfl⟩)
    · exact ⟨i, h.pos, h.lt, by simp⟩
    · exact ⟨j, hj, hj', by rw [put_d_of_ne _ _ hji]⟩

/-- What moving the hole from `i` to `i'` preserves. -/
structure Moved (cb : PqueueCallbacks σ α) (m : α) (q : Pqueue α) (s : σ) (i : Nat)
    (q' : Pqueue α) (s' : σ) (i' : Nat) : Prop where
  hole : Hole cb q' s' i' m
  size : q'.size = q.size
  mem : ∀ x, HoleMem q' i' m x ↔ HoleMem q i m x
  /-- Nodes outside the queue keep the position they record. -/
  outside : ∀ x, ¬ HoleMem q i m x → cb.getpos s' x = cb.getpos s x
  /-- Whatever `setpos` leaves alone is unchanged. -/
  frame : ∀ {β : Type} (f : σ → β), (∀ s a j, f (cb.setpos s a j) = f s) → f s' = f s

theorem Moved.refl {q : Pqueue α} {s : σ} {i : Nat} {m : α} (h : Hole cb q s i m) :
    Moved cb m q s i q s i :=
  ⟨h, rfl, fun _ => Iff.rfl, fun _ _ => rfl, fun _ _ => rfl⟩

/-- A child that `maxchild` picks is a used slot below its parent. -/
theorem maxchild_bounds {q : Pqueue α} {s : σ} {i : Nat} (hi : 1 ≤ i)
    (h : maxchild cb q s i ≠ 0) : i < maxchild cb q s i ∧ maxchild cb q s i < q.size := by
  simp only [maxchild] at h ⊢
  split at h
  · exact absurd rfl h
  · split <;> rename_i hn hc
    · omega
    · split <;> omega

/-- A sift that starts at a placed node only reorders the queue. -/
theorem hole_of_placed {q : Pqueue α} {s : σ} {i : Nat} (hp : Placed cb q s) (hi : 1 ≤ i)
    (hi' : i < q.size) :
    Hole cb q s i (q.d i) ∧ ∀ y, HoleMem q i (q.d i) y ↔ q.Mem y := by
  refine ⟨⟨hi, hi', fun j hj hj' _ => hp j hj hj',
    fun j hj hj' hne he => hne (hp.inj hj hj' hi hi' he)⟩, fun y => ?_⟩
  constructor
  · rintro (rfl | ⟨j, hj, hj', -, rfl⟩)
    · exact ⟨i, hi, hi', rfl⟩
    · exact ⟨j, hj, hj', rfl⟩
  · rintro ⟨j, hj, hj', rfl⟩
    by_cases hji : j = i
    · subst hji
      exact Or.inl rfl
    · exact Or.inr ⟨j, hj, hj', hji, rfl⟩

section

variable [DecidableEq α] (hcb : cb.Lawful)
include hcb

/-- One move followed by a sequence of moves. -/
theorem Moved.step {q q' : Pqueue α} {s s' : σ} {i p i' : Nat} {m : α} (h : Hole cb q s i m)
    (hp : 1 ≤ p) (hp' : p < q.size) (hne : p ≠ i)
    (hm : Moved cb m (q.put i (q.d p)) (cb.setpos s (q.d p) i) p q' s' i') :
    Moved cb m q s i q' s' i' := by
  have hmem : ∀ x, HoleMem (q.put i (q.d p)) p m x ↔ HoleMem q i m x :=
    fun x => Hole.move_mem h.pos h.lt hp hp' hne
  refine ⟨hm.hole, hm.size, fun x => (hm.mem x).trans (hmem x), ?_, ?_⟩
  · intro x hx
    rw [hm.outside x (mt (hmem x).mp hx), hcb.getpos_setpos, if_neg]
    rintro rfl
    exact hx (Or.inr ⟨p, hp, hp', hne, rfl⟩)
  · intro β f hf
    rw [hm.frame f hf, hf]

theorem bubbleLoop_moved {m : α} {pri fuel : Nat} {q : Pqueue α} {s : σ} {i : Nat}
    (h : Hole cb q s i m) :
    Moved cb m q s i (bubbleLoop cb pri fuel q s i).1 (bubbleLoop cb pri fuel q s i).2.1
      (bubbleLoop cb pri fuel q s i).2.2 := by
  induction fuel generalizing q s i with
  | zero => exact Moved.refl h
  | succ fuel ih =>
    rw [bubbleLoop]
    split
    · rename_i hc
      have hlt := h.lt
      exact Moved.step hcb h (by omega) (by omega) (by omega)
        (ih (h.move hcb (by omega) (by omega) (by omega)))
    · exact Moved.refl h

theorem percolateLoop_moved {m : α} {pri fuel : Nat} {q : Pqueue α} {s : σ} {i : Nat}
    (h : Hole cb q s i m) :
    Moved cb m q s i (percolateLoop cb pri fuel q s i).1 (percolateLoop cb pri fuel q s i).2.1
      (percolateLoop cb pri fuel q s i).2.2 := by
  induction fuel generalizing q s i with
  | zero => exact Moved.refl h
  | succ fuel ih =>
    rw [percolateLoop]
    split
    · rename_i hc
      obtain ⟨hgt, hlt⟩ := maxchild_bounds h.pos hc.1
      have hpos := h.pos
      exact Moved.step hcb h (by omega) hlt (by omega)
        (ih (h.move hcb (by omega) hlt (by omega)))
    · exact Moved.refl h

end

/-! ## The two sifts -/

/-- What one sift leaves behind, relative to the hole it started from. -/
structure Sifted (cb : PqueueCallbacks σ α) (m : α) (q : Pqueue α) (s : σ) (i : Nat)
    (q' : Pqueue α) (s' : σ) : Prop where
  placed : Placed cb q' s'
  size : q'.size = q.size
  mem : ∀ x, q'.Mem x ↔ HoleMem q i m x
  outside : ∀ x, ¬ HoleMem q i m x → cb.getpos s' x = cb.getpos s x
  frame : ∀ {β : Type} (f : σ → β), (∀ s a j, f (cb.setpos s a j) = f s) → f s' = f s

/-- What taking the node `x` out of the queue leaves behind. -/
structure Removed (cb : PqueueCallbacks σ α) (x : α) (q : Pqueue α) (s : σ) (q' : Pqueue α)
    (s' : σ) : Prop where
  placed : Placed cb q' s'
  size : q'.size + 1 = q.size
  mem : ∀ y, q'.Mem y ↔ q.Mem y ∧ y ≠ x
  outside : ∀ y, ¬ q.Mem y → cb.getpos s' y = cb.getpos s y
  frame : ∀ {β : Type} (f : σ → β), (∀ s a j, f (cb.setpos s a j) = f s) → f s' = f s

/-- Sifting the last node into the slot of `x`, when these are two slots. -/
theorem removed_of_sifted {q q' : Pqueue α} {s s' : σ} {p n : Nat} (hp : Placed cb q s)
    (hn : n + 1 = q.size) (h1 : 1 ≤ p) (h2 : p < n)
    (h : Hole cb ({ q with size := n }.put p (q.d n)) s p (q.d n) →
      Sifted cb (q.d n) ({ q with size := n }.put p (q.d n)) s p q' s') :
    Removed cb (q.d p) q s q' s' := by
  have hd : ∀ j, j ≠ p → ({ q with size := n }.put p (q.d n)).d j = q.d j :=
    fun j hj => put_d_of_ne _ (q.d n) hj
  have hmem : ∀ y, HoleMem ({ q with size := n }.put p (q.d n)) p (q.d n) y ↔
      q.Mem y ∧ y ≠ q.d p := by
    intro y
    constructor
    · rintro (rfl | ⟨j, hj, hj', hne, rfl⟩)
      · exact ⟨⟨n, by omega, by omega, rfl⟩, fun he => by
          have := hp.inj (by omega) (by omega) h1 (by omega) he
          omega⟩
      · have hj'' : j < n := hj'
        rw [hd j hne]
        exact ⟨⟨j, hj, by omega, rfl⟩, fun he => hne (hp.inj hj (by omega) h1 (by omega) he)⟩
    · rintro ⟨⟨j, hj, hj', rfl⟩, hne⟩
      by_cases hjn : j = n
      · subst hjn
        exact Or.inl rfl
      · have hjp : j ≠ p := fun he => hne (by rw [he])
        exact Or.inr ⟨j, hj, by simp only [put_size]; omega, hjp, hd j hjp⟩
  have hole : Hole cb ({ q with size := n }.put p (q.d n)) s p (q.d n) := by
    refine ⟨h1, h2, ?_, ?_⟩
    · intro j hj hj' hne
      have hj'' : j < n := hj'
      rw [hd j hne]
      exact hp j hj (by omega)
    · intro j hj hj' hne he
      have hj'' : j < n := hj'
      rw [hd j hne] at he
      have := hp.inj hj (by omega) (by omega) (by omega) he
      omega
  have hs := h hole
  refine ⟨hs.placed, by rw [hs.size]; exact hn, fun y => (hs.mem y).trans (hmem y), ?_, hs.frame⟩
  intro y hy
  exact hs.outside y fun hh => hy ((hmem y).mp hh).1

section

variable [DecidableEq α] (hcb : cb.Lawful)
include hcb

/-- Filling the hole a sift ends at completes the sift. -/
theorem Moved.sifted {q q' : Pqueue α} {s s' : σ} {i i' : Nat} {m : α}
    (h : Moved cb m q s i q' s' i') :
    Sifted cb m q s i (q'.put i' m) (cb.setpos s' m i') := by
  refine ⟨h.hole.fill hcb, h.size, fun x => h.hole.fill_mem.trans (h.mem x), ?_, ?_⟩
  · intro x hx
    rw [hcb.getpos_setpos, if_neg, h.outside x hx]
    rintro rfl
    exact hx (Or.inl rfl)
  · intro β f hf
    rw [hf, h.frame f hf]

theorem bubbleUp_sifted {q : Pqueue α} {s : σ} {i : Nat} (h : Hole cb q s i (q.d i)) :
    Sifted cb (q.d i) q s i (bubbleUp cb q s i).1 (bubbleUp cb q s i).2 :=
  (bubbleLoop_moved hcb h).sifted hcb

theorem percolateDown_sifted {q : Pqueue α} {s : σ} {i : Nat} (h : Hole cb q s i (q.d i)) :
    Sifted cb (q.d i) q s i (percolateDown cb q s i).1 (percolateDown cb q s i).2 :=
  (percolateLoop_moved hcb h).sifted hcb

/-! ## The operations -/

/-- `pqueue_insert` adds exactly the given node. -/
theorem insert_spec {q : Pqueue α} {s : σ} {x : α} (hp : Placed cb q s) (hx : ¬ q.Mem x)
    (hs : 1 ≤ q.size) :
    Placed cb (insert cb q s x).1 (insert cb q s x).2 ∧
      (insert cb q s x).1.size = q.size + 1 ∧
      (∀ y, (insert cb q s x).1.Mem y ↔ y = x ∨ q.Mem y) ∧
      (∀ y, y ≠ x → ¬ q.Mem y → cb.getpos (insert cb q s x).2 y = cb.getpos s y) ∧
      ∀ {β : Type} (f : σ → β), (∀ s a j, f (cb.setpos s a j) = f s) →
        f (insert cb q s x).2 = f s := by
  let q₁ : Pqueue α := { q with size := q.size + 1 }.put q.size x
  have hd : ∀ j, j ≠ q.size → q₁.d j = q.d j := fun j hj => put_d_of_ne _ x hj
  have hself : q₁.d q.size = x := put_d_self _ _ _
  have hole : Hole cb q₁ s q.size (q₁.d q.size) := by
    refine ⟨hs, Nat.lt_succ_self _, ?_, ?_⟩
    · intro j hj hj' hne
      have hj'' : j < q.size + 1 := hj'
      rw [hd j hne]
      exact hp j hj (by omega)
    · intro j hj hj' hne he
      have hj'' : j < q.size + 1 := hj'
      rw [hd j hne, hself] at he
      exact hx ⟨j, hj, by omega, he⟩
  have hmem : ∀ y, HoleMem q₁ q.size (q₁.d q.size) y ↔ y = x ∨ q.Mem y := by
    intro y
    unfold HoleMem
    rw [hself]
    apply or_congr_right
    constructor
    · rintro ⟨j, hj, hj', hne, rfl⟩
      have hj'' : j < q.size + 1 := hj'
      exact ⟨j, hj, by omega, (hd j hne).symm⟩
    · rintro ⟨j, hj, hj', rfl⟩
      exact ⟨j, hj, Nat.lt_succ_of_lt hj', by omega, hd j (by omega)⟩
  have h := bubbleUp_sifted hcb hole
  refine ⟨h.placed, h.size, fun y => (h.mem y).trans (hmem y), ?_, h.frame⟩
  intro y hne hy
  exact h.outside y (by rw [hmem]; tauto)

/-- `pqueue_change_priority` of a queued node keeps the nodes and their placement. -/
theorem changePriority_spec {q : Pqueue α} {s : σ} {x : α} (pri : Nat) (hp : Placed cb q s)
    (hx : q.Mem x) :
    Placed cb (changePriority cb q s pri x).1 (changePriority cb q s pri x).2 ∧
      (changePriority cb q s pri x).1.size = q.size ∧
      (∀ y, (changePriority cb q s pri x).1.Mem y ↔ q.Mem y) ∧
      (∀ y, ¬ q.Mem y → cb.getpos (changePriority cb q s pri x).2 y = cb.getpos s y) ∧
      ∀ {β : Type} (f : σ → β), (∀ s a j, f (cb.setpos s a j) = f s) →
        f (changePriority cb q s pri x).2 = f (cb.setpri s x pri) := by
  have hp' : Placed cb q (cb.setpri s x pri) := fun i hi hi' => by
    rw [hcb.getpos_setpri]
    exact hp i hi hi'
  obtain ⟨h1, h2, -⟩ := hp'.pos_of_mem hx
  obtain ⟨hole, hmem⟩ := hole_of_placed hp' h1 h2
  have hout : ∀ y, ¬ q.Mem y → ¬ HoleMem q (cb.getpos (cb.setpri s x pri) x)
      (q.d (cb.getpos (cb.setpri s x pri) x)) y := fun y hy => mt (hmem y).mp hy
  simp only [changePriority]
  split
  · have h := bubbleUp_sifted hcb hole
    refine ⟨h.placed, h.size, fun y => (h.mem y).trans (hmem y), fun y hy => ?_, h.frame⟩
    rw [h.outside y (hout y hy), hcb.getpos_setpri]
  · have h := percolateDown_sifted hcb hole
    refine ⟨h.placed, h.size, fun y => (h.mem y).trans (hmem y), fun y hy => ?_, h.frame⟩
    rw [h.outside y (hout y hy), hcb.getpos_setpri]

/-- Taking out the last node shifts nothing. -/
theorem removed_of_last {q : Pqueue α} {s : σ} {n : Nat} (hp : Placed cb q s)
    (hn : n + 1 = q.size) (h1 : 1 ≤ n) :
    Removed cb (q.d n) q s
      (percolateDown cb ({ q with size := n }.put n (q.d n)) s n).1
      (percolateDown cb ({ q with size := n }.put n (q.d n)) s n).2 := by
  let q₂ : Pqueue α := { q with size := n }.put n (q.d n)
  have hself : q₂.d n = q.d n := put_d_self _ _ _
  have hchild : maxchild cb q₂ s n = 0 := by
    have hc : 2 * n ≥ q₂.size := by show 2 * n ≥ n; omega
    rw [maxchild, if_pos hc]
  have hloop : ∀ pri fuel, percolateLoop cb pri fuel q₂ s n = (q₂, s, n) := by
    intro pri fuel
    cases fuel with
    | zero => rfl
    | succ fuel => simp [percolateLoop, hchild]
  have heq : percolateDown cb q₂ s n = (q₂.put n (q.d n), cb.setpos s (q.d n) n) := by
    simp only [percolateDown, hself, hloop]
  have hne : ∀ j, 1 ≤ j → j < n → q.d j ≠ q.d n := fun j hj hj' he => by
    have := hp.inj hj (by omega) h1 (by omega) he
    omega
  have hd : ∀ j, j ≠ n → (q₂.put n (q.d n)).d j = q.d j := fun j hj => by
    rw [put_d_of_ne _ _ hj]
    exact put_d_of_ne _ _ hj
  show Removed cb (q.d n) q s (percolateDown cb q₂ s n).1 (percolateDown cb q₂ s n).2
  rw [heq]
  refine ⟨?_, hn, ?_, ?_, fun f hf => hf ..⟩
  · intro j hj hj'
    have hj'' : j < n := hj'
    rw [hd j (by omega), hcb.getpos_setpos, if_neg (hne j hj hj'')]
    exact hp j hj (by omega)
  · intro y
    constructor
    · rintro ⟨j, hj, hj', rfl⟩
      have hj'' : j < n := hj'
      rw [hd j (by omega)]
      exact ⟨⟨j, hj, by omega, rfl⟩, hne j hj hj''⟩
    · rintro ⟨⟨j, hj, hj', rfl⟩, hyn⟩
      have hjn : j ≠ n := fun he => hyn (by rw [he])
      exact ⟨j, hj, by show j < n; omega, hd j hjn⟩
  · intro y hy
    rw [hcb.getpos_setpos, if_neg]
    rintro rfl
    exact hy ⟨n, h1, by omega, rfl⟩

/-- `pqueue_remove` takes out exactly the given node. -/
theorem remove_spec (hirr : ∀ p, cb.cmppri p p = false) {q : Pqueue α} {s : σ} {x : α}
    (hp : Placed cb q s) (hx : q.Mem x) :
    Removed cb x q s (remove cb q s x).1 (remove cb q s x).2 := by
  obtain ⟨h1, h2, hd⟩ := hp.pos_of_mem hx
  obtain ⟨n, hn⟩ : ∃ n, n + 1 = q.size := ⟨q.size - 1, by omega⟩
  have hsize : q.size - 1 = n := by omega
  simp only [remove, hsize]
  generalize cb.getpos s x = p at h1 h2 hd ⊢
  subst hd
  by_cases hpn : p = n
  · subst hpn
    rw [put_d_self, if_neg (by rw [hirr]; decide)]
    exact removed_of_last hcb hp hn h1
  · split
    · apply removed_of_sifted hp hn h1 (by omega)
      intro hole
      have h := bubbleUp_sifted hcb (i := p) (by rw [put_d_self]; exact hole)
      rwa [put_d_self] at h
    · apply removed_of_sifted hp hn h1 (by omega)
      intro hole
      have h := percolateDown_sifted hcb (i := p) (by rw [put_d_self]; exact hole)
      rwa [put_d_self] at h

/-- `pqueue_pop` takes out the node at the root. -/
theorem pop_spec {q : Pqueue α} {s : σ} (hp : Placed cb q s) (hs : 2 ≤ q.size) :
    (pop cb q s).1 = some (q.d 1) ∧
      Removed cb (q.d 1) q s (pop cb q s).2.1 (pop cb q s).2.2 := by
  obtain ⟨n, hn⟩ : ∃ n, n + 1 = q.size := ⟨q.size - 1, by omega⟩
  have hsize : q.size - 1 = n := by omega
  have hne : q.size ≠ 1 := by omega
  simp only [pop, if_neg hne, hsize, true_and]
  by_cases h1n : 1 = n
  · subst h1n
    exact removed_of_last hcb hp hn (Nat.le_refl _)
  · apply removed_of_sifted hp hn (Nat.le_refl _) (by omega)
    intro hole
    have h := percolateDown_sifted hcb (i := 1) (by rw [put_d_self]; exact hole)
    rwa [put_d_self] at h

end

/-! ## What an insertion never touches -/

theorem bubbleLoop_frame (f : σ → β) (hf : ∀ s a j, f (cb.setpos s a j) = f s) (pri fuel : Nat)
    (q : Pqueue α) (s : σ) (i : Nat) : f (bubbleLoop cb pri fuel q s i).2.1 = f s := by
  induction fuel generalizing q s i with
  | zero => rfl
  | succ fuel ih =>
    rw [bubbleLoop]
    split
    · rw [ih, hf]
    · rfl

/-- An insertion leaves alone what `setpos` leaves alone, whatever the queue holds. -/
theorem insert_frame (f : σ → β) (hf : ∀ s a j, f (cb.setpos s a j) = f s) (q : Pqueue α) (s : σ)
    (x : α) : f (insert cb q s x).2 = f s :=
  (hf ..).trans (bubbleLoop_frame f hf ..)

end NvmeVirt.Pqueue
