import NvmeVirt.Pqueue.Order

/-!
# Every operation keeps the heap

The positions of the nodes and the order of the heap together are what each operation of the queue
relies on and restores. In such a heap the root may stand above every queued node, and
`pqueue_is_valid` accepts exactly the arrays that are in order.
-/

namespace NvmeVirt.Pqueue

variable {σ α : Type} {cb : PqueueCallbacks σ α} {pri : α → Nat} {q : Pqueue α} {s : σ} {i p : Nat}

/-! ## The two sifts on the array they are called with -/

/-- `bubble_up` closes a hole whose node fits its children. -/
theorem bubbleUp_ordered (hcb : cb.Ordered)
    (hset : ∀ s a j b, cb.getpri (cb.setpos s a j) b = cb.getpri s b)
    (h : AroundHole cb (cb.getpri s) q i) (hlt : i < q.size)
    (hover : OverChildren cb (cb.getpri s) q i (cb.getpri s (q.d i))) :
    HeapOrdered cb (cb.getpri s) (bubbleUp cb q s i).1 := by
  have hloop := bubbleLoop_ordered hcb hset (fun _ => rfl) h hlt hover (Nat.le_refl i)
  simpa only [bubbleUp] using hloop

/-- `percolate_down` closes a hole whose node fits its parent. -/
theorem percolateDown_ordered (hcb : cb.Ordered)
    (hset : ∀ s a j b, cb.getpri (cb.setpos s a j) b = cb.getpri s b)
    (h : AroundHole cb (cb.getpri s) q i)
    (hunder : UnderParent cb (cb.getpri s) q i (cb.getpri s (q.d i))) :
    HeapOrdered cb (cb.getpri s) (percolateDown cb q s i).1 := by
  have hloop := percolateLoop_ordered hcb hset (fun _ => rfl) h hunder
    (Nat.le_add_left q.size i)
  simpa only [percolateDown] using hloop

/-! ## The operations -/

/-- `pqueue_insert` lets the new node rise from the last slot. -/
theorem insert_ordered (hcb : cb.Ordered)
    (hset : ∀ s a j b, cb.getpri (cb.setpos s a j) b = cb.getpri s b) {x : α}
    (h : HeapOrdered cb (cb.getpri s) q) (hs : 1 ≤ q.size) :
    HeapOrdered cb (cb.getpri s) (insert cb q s x).1 := by
  have hother : ∀ j, j ≠ q.size → ({ q with size := q.size + 1 }.put q.size x).d j = q.d j :=
    fun j hj => put_d_of_ne _ x hj
  have hsize : ({ q with size := q.size + 1 }.put q.size x).size = q.size + 1 := rfl
  apply bubbleUp_ordered hcb hset
  · refine ⟨hs, fun j hj hj' hji _ => ?_, fun _ j hj' hji => ?_⟩
    · rw [hother j hji, hother _ (by omega)]
      exact h j hj (by omega)
    · omega
  · omega
  · intro j hj' hji
    omega

/-- `pqueue_change_priority` moves the node to where its new priority belongs. -/
theorem changePriority_ordered [DecidableEq α] (hlaw : cb.Lawful) (hcb : cb.Ordered) {x : α}
    (h : HeapOrdered cb (cb.getpri s) q) (hp : Placed cb q s) (hx : q.Mem x) :
    HeapOrdered cb (cb.getpri (cb.setpri s x p)) (changePriority cb q s p x).1 := by
  obtain ⟨h1, h2, hd⟩ := hp.pos_of_mem hx
  have hself : cb.getpri (cb.setpri s x p) x = p := by rw [hlaw.getpri_setpri, if_pos rfl]
  have hother : ∀ j, 1 ≤ j → j < q.size → j ≠ cb.getpos s x →
      cb.getpri (cb.setpri s x p) (q.d j) = cb.getpri s (q.d j) := by
    intro j hj hj' hji
    rw [hlaw.getpri_setpri, if_neg]
    rintro rfl
    exact hji (hp j hj hj').symm
  simp only [changePriority, hlaw.getpos_setpri]
  generalize cb.getpos s x = i at h1 h2 hd hother ⊢
  subst hd
  have hhole : AroundHole cb (cb.getpri (cb.setpri s (q.d i) p)) q i := by
    refine ⟨h1, fun j hj hj' hji hpi => ?_, fun hi j hj' hji => ?_⟩
    · rw [hother j (by omega) hj' hji, hother _ (by omega) (by omega) hpi]
      exact h j hj hj'
    · rw [hother j (by omega) hj' (by omega), hother _ (by omega) (by omega) (by omega)]
      exact (h.aroundHole hcb h1).across hi j hj' hji
  split_ifs with hc
  · apply bubbleUp_ordered hcb hlaw.getpri_setpos hhole h2
    intro j hj' hji
    rw [hself, hother j (by omega) hj' (by omega)]
    have hdown := h j (by omega) hj'
    rw [hji] at hdown
    exact hcb.trans _ _ _ (hcb.of_cmppri _ _ hc) hdown
  · apply percolateDown_ordered hcb hlaw.getpri_setpos hhole
    intro hi
    rw [hself, hother _ (by omega) (by omega) (by omega)]
    rw [Bool.not_eq_true] at hc
    exact hcb.trans _ _ _ (h i hi h2) hc

/-- `pqueue_pop` lets the last node sink from the root. -/
theorem pop_ordered (hcb : cb.Ordered)
    (hset : ∀ s a j b, cb.getpri (cb.setpos s a j) b = cb.getpri s b)
    (h : HeapOrdered cb (cb.getpri s) q) :
    HeapOrdered cb (cb.getpri s) (pop cb q s).2.1 := by
  unfold pop
  split_ifs
  · exact h
  · apply percolateDown_ordered hcb hset
    · exact (h.aroundHole hcb (Nat.le_refl 1)).shorten (Nat.sub_le q.size 1) _
    · intro hi
      omega

/-! ## The invariant of a queue -/

/-- What every operation of the queue relies on. -/
structure Heap (cb : PqueueCallbacks σ α) (q : Pqueue α) (s : σ) : Prop where
  /-- Element 0 is never used. -/
  started : 1 ≤ q.size
  placed : Placed cb q s
  ordered : HeapOrdered cb (cb.getpri s) q

/-- A new queue is a heap, whatever the array holds. -/
theorem init_heap (n : Nat) (d : Nat → α) (s : σ) : Heap cb (init n d) s := by
  have hsize : (init n d).size = 1 := rfl
  exact ⟨by omega, fun i hi hi' => by omega, fun j hj hj' => by omega⟩

section

variable [DecidableEq α] (hlaw : cb.Lawful) (hcb : cb.Ordered)
include hlaw

/-- No operation but `setpri` writes a priority. -/
theorem insert_getpri (q : Pqueue α) (s : σ) (x : α) :
    cb.getpri (insert cb q s x).2 = cb.getpri s :=
  insert_frame cb.getpri (fun s a j => funext fun b => hlaw.getpri_setpos s a j b) q s x

/-- A queued node keeps its priority when another one leaves. -/
theorem Removed.getpri {q' : Pqueue α} {s' : σ} {x : α} (h : Removed cb x q s q' s') :
    cb.getpri s' = cb.getpri s :=
  h.frame cb.getpri fun s a j => funext fun b => hlaw.getpri_setpos s a j b

include hcb

/-- `pqueue_insert` keeps the heap. -/
theorem Heap.insert {x : α} (h : Heap cb q s) (hx : ¬ q.Mem x) :
    Heap cb (insert cb q s x).1 (insert cb q s x).2 := by
  obtain ⟨hp, hsize, -, -, -⟩ := insert_spec hlaw h.placed hx h.started
  refine ⟨by omega, hp, ?_⟩
  rw [insert_getpri hlaw]
  exact insert_ordered hcb hlaw.getpri_setpos h.ordered h.started

/-- `pqueue_change_priority` keeps the heap. -/
theorem Heap.changePriority {x : α} (h : Heap cb q s) (hx : q.Mem x) (p : Nat) :
    Heap cb (changePriority cb q s p x).1 (changePriority cb q s p x).2 := by
  obtain ⟨hp, hsize, -, -, hframe⟩ := changePriority_spec hlaw p h.placed hx
  have hstart := h.started
  refine ⟨by omega, hp, ?_⟩
  rw [hframe cb.getpri fun s a j => funext fun b => hlaw.getpri_setpos s a j b]
  exact changePriority_ordered hlaw hcb h.ordered h.placed hx

/-- `pqueue_remove` keeps the heap. -/
theorem Heap.remove {x : α} (h : Heap cb q s) (hx : q.Mem x) :
    Heap cb (remove cb q s x).1 (remove cb q s x).2 := by
  have hout := remove_spec hlaw hcb.refl h.placed hx
  have hsize := hout.size
  have hpos := h.placed.pos_of_mem hx
  refine ⟨by omega, hout.placed, ?_⟩
  rw [hout.getpri hlaw]
  exact remove_ordered hcb hlaw.getpri_setpos h.ordered h.placed hx

/-- `pqueue_pop` keeps the heap. -/
theorem Heap.pop (h : Heap cb q s) (hs : 2 ≤ q.size) :
    Heap cb (pop cb q s).2.1 (pop cb q s).2.2 := by
  have hout := (pop_spec hlaw h.placed hs).2
  have hsize := hout.size
  refine ⟨by omega, hout.placed, ?_⟩
  rw [hout.getpri hlaw]
  exact pop_ordered hcb hlaw.getpri_setpos h.ordered

end

/-- Writing the priority of a node that is not queued. -/
theorem Heap.setpri [DecidableEq α] (hlaw : cb.Lawful) {x : α} (h : Heap cb q s) (hx : ¬ q.Mem x)
    (p : Nat) : Heap cb q (cb.setpri s x p) := by
  have hother : ∀ j, 1 ≤ j → j < q.size →
      cb.getpri (cb.setpri s x p) (q.d j) = cb.getpri s (q.d j) := by
    intro j hj hj'
    rw [hlaw.getpri_setpri, if_neg]
    rintro rfl
    exact hx ⟨j, hj, hj', rfl⟩
  refine ⟨h.started, fun j hj hj' => ?_, fun j hj hj' => ?_⟩
  · rw [hlaw.getpos_setpri]
    exact h.placed j hj hj'
  · rw [hother j (by omega) hj', hother (j / 2) (by omega) (by omega)]
    exact h.ordered j hj hj'

/-- The root may stand above every queued node. -/
theorem HeapOrdered.root (hcb : cb.Ordered) (h : HeapOrdered cb pri q) {y : α} (hy : q.Mem y) :
    cb.Above (pri (q.d 1)) (pri y) := by
  obtain ⟨j, hj, hj', rfl⟩ := hy
  induction j using Nat.strongRecOn with
  | ind j ih =>
    by_cases hroot : j = 1
    · rw [hroot]
      exact hcb.refl _
    · exact hcb.trans _ _ _ (ih (j / 2) (by omega) (by omega) (by omega)) (h j (by omega) hj')

/-! ## `pqueue_is_valid` -/

/-- `subtree_is_valid`: no node of the subtree must stand above its parent. -/
def subtreeIsValid (cb : PqueueCallbacks σ α) (q : Pqueue α) (s : σ) : Nat → Nat → Bool
  | 0, _ => true
  | fuel + 1, pos =>
    let left := 2 * pos
    let right := 2 * pos + 1
    if left < q.size ∧ cb.cmppri (cb.getpri s (q.d pos)) (cb.getpri s (q.d left)) = true then false
    else if left < q.size ∧ subtreeIsValid cb q s fuel left = false then false
    else if right < q.size ∧
        cb.cmppri (cb.getpri s (q.d pos)) (cb.getpri s (q.d right)) = true then false
    else if right < q.size ∧ subtreeIsValid cb q s fuel right = false then false
    else true

/-- `pqueue_is_valid`. -/
def isValid (cb : PqueueCallbacks σ α) (q : Pqueue α) (s : σ) : Bool :=
  subtreeIsValid cb q s q.size 1

/-- Slot `j` lies strictly below slot `i`. -/
inductive Below (i : Nat) : Nat → Prop
  | child {j : Nat} : j / 2 = i → Below i j
  | step {j : Nat} : Below i (j / 2) → Below i j

/-- What lies below a slot is one of its children or lies below one. -/
theorem Below.split {i j : Nat} (h : Below i j) :
    (j = 2 * i ∨ Below (2 * i) j) ∨ (j = 2 * i + 1 ∨ Below (2 * i + 1) j) := by
  induction h with
  | child hj => omega
  | step _ ih =>
    obtain (hj | hj) | (hj | hj) := ih
    · exact .inl (.inr (.child hj))
    · exact .inl (.inr (.step hj))
    · exact .inr (.inr (.child hj))
    · exact .inr (.inr (.step hj))

/-- Every slot but the first lies below the first. -/
theorem below_root {j : Nat} (hj : 2 ≤ j) : Below 1 j := by
  induction j using Nat.strongRecOn with
  | ind j ih =>
    by_cases hhalf : j / 2 = 1
    · exact .child hhalf
    · exact .step (ih (j / 2) (by omega) (by omega))

/-- A slot below another one has the larger index. -/
theorem Below.lt {i j : Nat} (h : Below i j) (hi : 1 ≤ i) : i < j := by
  induction h with
  | child hj => omega
  | step _ ih => omega

/-- `subtree_is_valid` looks at every pair below its slot. -/
theorem subtreeIsValid_iff {fuel pos : Nat} (hpos : 1 ≤ pos) (hfuel : q.size ≤ pos + fuel) :
    subtreeIsValid cb q s fuel pos = true ↔
      ∀ j, Below pos j → j < q.size →
        cb.Above (cb.getpri s (q.d (j / 2))) (cb.getpri s (q.d j)) := by
  induction fuel generalizing pos with
  | zero =>
    have hnone : ∀ j, Below pos j → ¬ j < q.size := fun j hj hj' => by
      have hlt := hj.lt hpos
      omega
    exact ⟨fun _ j hj hj' => absurd hj' (hnone j hj), fun _ => rfl⟩
  | succ fuel ih =>
    have hleft := @ih (2 * pos) (by omega) (by omega)
    have hright := @ih (2 * pos + 1) (by omega) (by omega)
    have hhalf : (2 * pos) / 2 = pos ∧ (2 * pos + 1) / 2 = pos := by omega
    constructor
    · intro h
      unfold subtreeIsValid at h
      dsimp only at h
      split_ifs at h with h1 h2 h3 h4
      rw [not_and, Bool.not_eq_false] at h2 h4
      rw [not_and, Bool.not_eq_true] at h1 h3
      intro j hj hj'
      obtain (rfl | hlow) | (rfl | hlow) := hj.split
      · rw [hhalf.1]
        exact h1 hj'
      · have hlt := hlow.lt (by omega)
        exact hleft.mp (h2 (by omega)) j hlow hj'
      · rw [hhalf.2]
        exact h3 hj'
      · have hlt := hlow.lt (by omega)
        exact hright.mp (h4 (by omega)) j hlow hj'
    · intro h
      have hsub : ∀ c, c / 2 = pos → ∀ j, Below c j → Below pos j := by
        intro c hc j hj
        induction hj with
        | child hj => exact .step (.child (by rw [hj, hc]))
        | step _ ih => exact .step ih
      unfold subtreeIsValid
      dsimp only
      rw [if_neg, if_neg, if_neg, if_neg]
      · rintro ⟨-, hbad⟩
        rw [hright.mpr fun j hj => h j (hsub _ hhalf.2 j hj)] at hbad
        cases hbad
      · rintro ⟨hin, hbad⟩
        have hup := h (2 * pos + 1) (.child hhalf.2) hin
        rw [hhalf.2, PqueueCallbacks.Above, hbad] at hup
        cases hup
      · rintro ⟨-, hbad⟩
        rw [hleft.mpr fun j hj => h j (hsub _ hhalf.1 j hj)] at hbad
        cases hbad
      · rintro ⟨hin, hbad⟩
        have hup := h (2 * pos) (.child hhalf.1) hin
        rw [hhalf.1, PqueueCallbacks.Above, hbad] at hup
        cases hup

/-- `pqueue_is_valid` accepts exactly the arrays in heap order. -/
theorem isValid_eq_true : isValid cb q s = true ↔ HeapOrdered cb (cb.getpri s) q := by
  rw [isValid, subtreeIsValid_iff (Nat.le_refl 1) (by omega)]
  exact ⟨fun h j hj hj' => h j (below_root hj) hj',
    fun h j hj hj' => h j (hj.lt (Nat.le_refl 1)) hj'⟩

end NvmeVirt.Pqueue
