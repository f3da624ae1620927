import NvmeVirt.Pqueue.Placement

/-!
# The heap order

No node stands below one of its children. Both sifts keep this for all pairs that do not touch the
hole, and know enough about the neighbours of the hole to close it where they stop. So a node can be
removed from any slot.
-/

namespace NvmeVirt

/-- A node of priority `a` may stand above one of priority `b`. -/
def PqueueCallbacks.Above {σ α : Type} (cb : PqueueCallbacks σ α) (a b : Nat) : Prop :=
  cb.cmppri a b = false

/-- The comparison orders the priorities. -/
structure PqueueCallbacks.Ordered {σ α : Type} (cb : PqueueCallbacks σ α) : Prop where
  refl : ∀ a, cb.Above a a
  trans : ∀ a b c, cb.Above a b → cb.Above b c → cb.Above a c
  of_cmppri : ∀ a b, cb.cmppri a b = true → cb.Above b a

namespace Pqueue

variable {σ α : Type} {cb : PqueueCallbacks σ α} {pri : α → Nat} {q : Pqueue α} {s : σ} {i p : Nat}

/-- Every node may stand above its children. -/
def HeapOrdered (cb : PqueueCallbacks σ α) (pri : α → Nat) (q : Pqueue α) : Prop :=
  ∀ j, 2 ≤ j → j < q.size → cb.Above (pri (q.d (j / 2))) (pri (q.d j))

/-- Slot `i` is vacant; all pairs that do not touch it are in order, and so are its neighbours. -/
structure AroundHole (cb : PqueueCallbacks σ α) (pri : α → Nat) (q : Pqueue α) (i : Nat) :
    Prop where
  pos : 1 ≤ i
  except : ∀ j, 2 ≤ j → j < q.size → j ≠ i → j / 2 ≠ i →
    cb.Above (pri (q.d (j / 2))) (pri (q.d j))
  across : 2 ≤ i → ∀ j, j < q.size → j / 2 = i → cb.Above (pri (q.d (i / 2))) (pri (q.d j))

/-- A node of priority `p` may stand above the children of slot `i`. -/
def OverChildren (cb : PqueueCallbacks σ α) (pri : α → Nat) (q : Pqueue α) (i p : Nat) : Prop :=
  ∀ j, j < q.size → j / 2 = i → cb.Above p (pri (q.d j))

/-- A node of priority `p` may stand below the parent of slot `i`. -/
def UnderParent (cb : PqueueCallbacks σ α) (pri : α → Nat) (q : Pqueue α) (i p : Nat) : Prop :=
  2 ≤ i → cb.Above (pri (q.d (i / 2))) p

/-- Filling the hole with a node that fits its neighbours. -/
theorem AroundHole.fill {m : α} (h : AroundHole cb pri q i) (hover : OverChildren cb pri q i (pri m))
    (hunder : UnderParent cb pri q i (pri m)) : HeapOrdered cb pri (q.put i m) := by
  intro j hj hj'
  rw [put_size] at hj'
  have hpos := h.pos
  by_cases hji : j = i
  · subst hji
    rw [put_d_self, put_d_of_ne _ _ (by omega)]
    exact hunder hj
  rw [put_d_of_ne _ _ hji]
  by_cases hpi : j / 2 = i
  · rw [hpi, put_d_self]
    exact hover j hj' hpi
  · rw [put_d_of_ne _ _ hpi]
    exact h.except j hj hj' hji hpi

/-- Opening a hole in a heap. -/
theorem HeapOrdered.aroundHole (hcb : cb.Ordered) (h : HeapOrdered cb pri q) (hi : 1 ≤ i) :
    AroundHole cb pri q i := by
  refine ⟨hi, fun j hj hj' _ _ => h j hj hj', fun hi' j hj' hpi => ?_⟩
  have hup := h i hi' (by omega)
  have hdown := h j (by omega) hj'
  rw [hpi] at hdown
  exact hcb.trans _ _ _ hup hdown

/-! ## Moving up -/

/-- The parent of the hole moves down into it. -/
theorem AroundHole.moveUp (hcb : cb.Ordered) (h : AroundHole cb pri q i) (hi : 2 ≤ i)
    (hlt : i < q.size) : AroundHole cb pri (q.put i (q.d (i / 2))) (i / 2) := by
  have hself : (q.put i (q.d (i / 2))).d i = q.d (i / 2) := put_d_self ..
  have hother : ∀ j, j ≠ i → (q.put i (q.d (i / 2))).d j = q.d j := fun j hj =>
    put_d_of_ne _ _ hj
  refine ⟨by omega, fun j hj hj' hjp hpp => ?_, fun hp j hj' hjp => ?_⟩
  · rw [put_size] at hj'
    have hji : j ≠ i := fun he => hpp (by rw [he])
    rw [hother j hji]
    by_cases hpi : j / 2 = i
    · rw [hpi, hself]
      exact h.across hi j hj' hpi
    · rw [hother _ hpi]
      exact h.except j hj hj' hji hpi
  · rw [put_size] at hj'
    rw [hother _ (by omega)]
    have hup := h.except (i / 2) hp (by omega) (by omega) (by omega)
    by_cases hji : j = i
    · rw [hji, hself]
      exact hup
    · rw [hother j hji]
      have hdown := h.except j (by omega) hj' hji (by omega)
      rw [hjp] at hdown
      exact hcb.trans _ _ _ hup hdown

/-- The moving node fits the children of its new slot. -/
theorem OverChildren.moveUp (hcb : cb.Ordered) (h : AroundHole cb pri q i)
    (hi : 2 ≤ i) (hc : cb.cmppri (pri (q.d (i / 2))) p = true) :
    OverChildren cb pri (q.put i (q.d (i / 2))) (i / 2) p := by
  have htop := hcb.of_cmppri _ _ hc
  intro j hj' hjp
  rw [put_size] at hj'
  by_cases hji : j = i
  · rw [hji, put_d_self]
    exact htop
  · rw [put_d_of_ne _ _ hji]
    have hdown := h.except j (by omega) hj' hji (by omega)
    rw [hjp] at hdown
    exact hcb.trans _ _ _ htop hdown

/-- The loop of `bubble_up` stops where the moving node fits. -/
theorem bubbleLoop_ordered {m : α} {fuel : Nat} (hcb : cb.Ordered)
    (hset : ∀ s a j b, cb.getpri (cb.setpos s a j) b = cb.getpri s b)
    (hpri : ∀ x, cb.getpri s x = pri x) (h : AroundHole cb pri q i) (hlt : i < q.size)
    (hover : OverChildren cb pri q i (pri m)) (hfuel : i ≤ fuel) :
    HeapOrdered cb pri ((bubbleLoop cb (pri m) fuel q s i).1.put
      (bubbleLoop cb (pri m) fuel q s i).2.2 m) := by
  induction fuel generalizing q s i with
  | zero =>
    have hpos := h.pos
    omega
  | succ fuel ih =>
    rw [bubbleLoop]
    split_ifs with hc
    · obtain ⟨hi, hc⟩ := hc
      rw [hpri] at hc
      apply ih
      · intro x
        rw [hset, hpri]
      · exact h.moveUp hcb hi hlt
      · rw [put_size]
        omega
      · exact OverChildren.moveUp hcb h hi hc
      · omega
    · apply h.fill hover
      intro hi
      rw [hpri, not_and, Bool.not_eq_true] at hc
      exact hc hi

/-! ## Moving down -/

/-- The child that `maxchild` picks may stand above its sibling. -/
theorem maxchild_above (hcb : cb.Ordered) (hpri : ∀ x, cb.getpri s x = pri x)
    (hne : maxchild cb q s i ≠ 0) {j : Nat} (hj : j < q.size) (hji : j / 2 = i) :
    cb.Above (pri (q.d (maxchild cb q s i))) (pri (q.d j)) := by
  have hnear : ¬ 2 * i ≥ q.size := fun hfar => hne (if_pos hfar)
  unfold maxchild
  rw [if_neg hnear]
  simp only [hpri]
  obtain rfl | rfl : j = 2 * i ∨ j = 2 * i + 1 := by omega
  · split_ifs with hright
    · exact hcb.of_cmppri _ _ hright.2
    · exact hcb.refl _
  · split_ifs with hright
    · exact hcb.refl _
    · rw [not_and, Bool.not_eq_true] at hright
      exact hright hj

/-- A slot without a child to pick has no child. -/
theorem not_child_of_maxchild (h : maxchild cb q s i = 0) (hi : 1 ≤ i) {j : Nat} (hj : j < q.size) :
    j / 2 ≠ i := by
  unfold maxchild at h
  dsimp only at h
  split_ifs at h <;> omega

/-- The picked child is a child. -/
theorem maxchild_half (hne : maxchild cb q s i ≠ 0) : maxchild cb q s i / 2 = i := by
  unfold maxchild at hne ⊢
  dsimp only at hne ⊢
  split_ifs at hne ⊢ <;> omega

/-- A child moves up into the hole. -/
theorem AroundHole.moveDown {c : Nat} (h : AroundHole cb pri q i) (hci : c / 2 = i)
    (hlt : c < q.size) (hbest : ∀ j, j < q.size → j / 2 = i → cb.Above (pri (q.d c)) (pri (q.d j))) :
    AroundHole cb pri (q.put i (q.d c)) c := by
  have hpos := h.pos
  have hself : (q.put i (q.d c)).d i = q.d c := put_d_self ..
  have hother : ∀ j, j ≠ i → (q.put i (q.d c)).d j = q.d j := fun j hj => put_d_of_ne _ _ hj
  refine ⟨by omega, fun j hj hj' hjc hpc => ?_, fun _ j hj' hjc => ?_⟩
  · rw [put_size] at hj'
    by_cases hji : j = i
    · rw [hji, hself, hother _ (by omega)]
      exact h.across (by omega) c hlt hci
    · rw [hother j hji]
      by_cases hpi : j / 2 = i
      · rw [hpi, hself]
        exact hbest j hj' hpi
      · rw [hother _ hpi]
        exact h.except j hj hj' hji hpi
  · rw [put_size] at hj'
    rw [hci, hself, hother j (by omega)]
    have hdown := h.except j (by omega) hj' (by omega) (by omega)
    rwa [hjc] at hdown

/-- The loop of `percolate_down` stops where the moving node fits. -/
theorem percolateLoop_ordered {m : α} {fuel : Nat} (hcb : cb.Ordered)
    (hset : ∀ s a j b, cb.getpri (cb.setpos s a j) b = cb.getpri s b)
    (hpri : ∀ x, cb.getpri s x = pri x) (h : AroundHole cb pri q i)
    (hunder : UnderParent cb pri q i (pri m)) (hfuel : q.size ≤ i + fuel) :
    HeapOrdered cb pri ((percolateLoop cb (pri m) fuel q s i).1.put
      (percolateLoop cb (pri m) fuel q s i).2.2 m) := by
  have hpos := h.pos
  induction fuel generalizing q s i with
  | zero =>
    -- The hole lies behind all used slots.
    apply h.fill _ hunder
    intro j hj hji
    omega
  | succ fuel ih =>
    rw [percolateLoop]
    split_ifs with hc
    · obtain ⟨hne, hc⟩ := hc
      obtain ⟨hgt, hlt'⟩ := maxchild_bounds hpos hne
      have hhalf := maxchild_half hne
      rw [hpri] at hc
      apply ih
      · intro x
        rw [hset, hpri]
      · exact h.moveDown hhalf hlt' fun j hj hji => maxchild_above hcb hpri hne hj hji
      · intro _
        rw [hhalf, put_d_self]
        exact hcb.of_cmppri _ _ hc
      · rw [put_size]
        omega
      · omega
    · apply h.fill _ hunder
      intro j hj hji
      by_cases hzero : maxchild cb q s i = 0
      · exact absurd hji (not_child_of_maxchild hzero hpos hj)
      · rw [hpri, not_and, Bool.not_eq_true] at hc
        exact hcb.trans _ _ _ (hc hzero) (maxchild_above hcb hpri hzero hj hji)

/-! ## Removing a node -/

/-- A hole stays one when the array gets shorter and when its slot is written. -/
theorem AroundHole.shorten {n : Nat} (h : AroundHole cb pri q i) (hn : n ≤ q.size) (m : α) :
    AroundHole cb pri ({ q with size := n }.put i m) i := by
  have hpos := h.pos
  have hother : ∀ j, j ≠ i → ({ q with size := n }.put i m).d j = q.d j := fun j hj =>
    put_d_of_ne _ m hj
  refine ⟨hpos, fun j hj hj' hji hpi => ?_, fun hi j hj' hji => ?_⟩
  · rw [hother j hji, hother _ hpi]
    exact h.except j hj (Nat.lt_of_lt_of_le hj' hn) hji hpi
  · rw [hother j (by omega), hother _ (by omega)]
    exact h.across hi j (Nat.lt_of_lt_of_le hj' hn) hji

/-- `pqueue_remove` of a queued node keeps the heap in order. -/
theorem remove_ordered (hcb : cb.Ordered)
    (hset : ∀ s a j b, cb.getpri (cb.setpos s a j) b = cb.getpri s b) {x : α}
    (h : HeapOrdered cb (cb.getpri s) q) (hp : Placed cb q s) (hx : q.Mem x) :
    HeapOrdered cb (cb.getpri s) (remove cb q s x).1 := by
  obtain ⟨h1, h2, hd⟩ := hp.pos_of_mem hx
  obtain ⟨n, hn⟩ : ∃ n, n + 1 = q.size := ⟨q.size - 1, by omega⟩
  have hsize : q.size - 1 = n := by omega
  simp only [remove, hsize]
  generalize cb.getpos s x = i at h1 h2 hd ⊢
  subst hd
  have hhole := (h.aroundHole hcb h1).shorten (Nat.le_of_lt (by omega : n < q.size)) (q.d n)
  have hother : ∀ j, j ≠ i → ({ q with size := n }.put i (q.d n)).d j = q.d j := fun j hj =>
    put_d_of_ne _ _ hj
  rw [put_d_self]
  split_ifs with hc
  · have hin : i ≠ n := by
      rintro rfl
      have hrefl := hcb.refl (cb.getpri s (q.d i))
      rw [PqueueCallbacks.Above, hc] at hrefl
      cases hrefl
    have hloop := @bubbleLoop_ordered _ _ cb (cb.getpri s) ({ q with size := n }.put i (q.d n)) s i
      (q.d n) i hcb hset (fun _ => rfl) hhole
    rw [bubbleUp, put_d_self]
    apply hloop
    · change i < n
      omega
    · intro j hj hji
      have hjn : j < n := hj
      rw [hother j (by omega)]
      have hdown := h j (by omega) (by omega)
      rw [hji] at hdown
      exact hcb.trans _ _ _ (hcb.of_cmppri _ _ hc) hdown
    · exact Nat.le_refl i
  · have hloop := @percolateLoop_ordered _ _ cb (cb.getpri s) ({ q with size := n }.put i (q.d n)) s i
      (q.d n) n hcb hset (fun _ => rfl) hhole
    rw [percolateDown, put_d_self]
    apply hloop
    · intro hi
      rw [hother _ (by omega)]
      rw [Bool.not_eq_true] at hc
      exact hcb.trans _ _ _ (h i hi h2) hc
    · change n ≤ i + n
      omega

end Pqueue

end NvmeVirt
