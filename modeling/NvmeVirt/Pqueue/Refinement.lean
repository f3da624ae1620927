import NvmeVirt.Pqueue.Heap
import NvmeVirt.Conv.State
import Mathlib.Data.Finset.Card

/-!
# The queue as a set of nodes

A caller of the queue thinks of a set of nodes with priorities, out of which `pqueue_pop` takes one
that may stand above all others. Every sequence of calls that respects the contract of the queue is
a run of this set, with the same answers, and the array stays a heap throughout.
-/

namespace NvmeVirt

/-- What the owner of the nodes does next. -/
inductive QueueOp (α : Type)
  | insert (x : α)
  | changePriority (x : α) (pri : Nat)
  | remove (x : α)
  | pop
  /-- A node that is not queued gets a priority. -/
  | setpri (x : α) (pri : Nat)

/-! ## The set -/

/-- The queued nodes and the priorities of all nodes. -/
structure Waiting (α : Type) where
  nodes : Finset α
  pri : α → Nat

namespace Waiting

variable {α : Type} [DecidableEq α]

/-- One operation with its answer; `above a b` says that a node of priority `a` may leave before
one of priority `b`. -/
inductive Step (above : Nat → Nat → Prop) : Waiting α → QueueOp α → Option α → Waiting α → Prop
  | insert {W : Waiting α} {x : α} (hx : x ∉ W.nodes) :
      Step above W (.insert x) none { W with nodes := insert x W.nodes }
  | changePriority {W : Waiting α} {x : α} (p : Nat) (hx : x ∈ W.nodes) :
      Step above W (.changePriority x p) none { W with pri := Function.update W.pri x p }
  | remove {W : Waiting α} {x : α} (hx : x ∈ W.nodes) :
      Step above W (.remove x) none { W with nodes := W.nodes.erase x }
  | pop {W : Waiting α} {x : α} (hx : x ∈ W.nodes)
      (hfirst : ∀ y ∈ W.nodes, above (W.pri x) (W.pri y)) :
      Step above W .pop (some x) { W with nodes := W.nodes.erase x }
  | popEmpty {W : Waiting α} (hnone : W.nodes = ∅) : Step above W .pop none W
  | setpri {W : Waiting α} {x : α} (p : Nat) (hx : x ∉ W.nodes) :
      Step above W (.setpri x p) none { W with pri := Function.update W.pri x p }

/-- A sequence of operations with their answers. -/
inductive Run (above : Nat → Nat → Prop) :
    Waiting α → List (QueueOp α × Option α) → Waiting α → Prop
  | nil (W : Waiting α) : Run above W [] W
  | cons {W W₁ W₂ : Waiting α} {op : QueueOp α} {out : Option α}
      {rest : List (QueueOp α × Option α)} (h : Step above W op out W₁)
      (hrest : Run above W₁ rest W₂) : Run above W ((op, out) :: rest) W₂

end Waiting

/-! ## The queue -/

namespace Pqueue

variable {σ α : Type} {cb : PqueueCallbacks σ α} {q : Pqueue α} {s : σ}

/-- The call of an operation and its answer. -/
def perform (cb : PqueueCallbacks σ α) (op : QueueOp α) (q : Pqueue α) (s : σ) :
    Option α × Pqueue α × σ :=
  match op with
  | .insert x => (none, insert cb q s x)
  | .changePriority x p => (none, changePriority cb q s p x)
  | .remove x => (none, remove cb q s x)
  | .pop => pop cb q s
  | .setpri x p => (none, q, cb.setpri s x p)

/-- The contract of an operation: nodes are queued at most once, and only queued nodes are moved
or removed. -/
def Allowed (q : Pqueue α) : QueueOp α → Prop
  | .insert x => ¬ q.Mem x
  | .changePriority x _ => q.Mem x
  | .remove x => q.Mem x
  | .pop => True
  | .setpri x _ => ¬ q.Mem x

/-- A sequence of calls: the answers, and the queue in the end. -/
def performAll (cb : PqueueCallbacks σ α) :
    List (QueueOp α) → Pqueue α → σ → List (Option α) × Pqueue α × σ
  | [], q, s => ([], q, s)
  | op :: rest, q, s =>
    let (out, q, s) := perform cb op q s
    let (outs, q, s) := performAll cb rest q s
    (out :: outs, q, s)

/-- Every call respects its contract at its turn. -/
def Legal (cb : PqueueCallbacks σ α) : List (QueueOp α) → Pqueue α → σ → Prop
  | [], _, _ => True
  | op :: rest, q, s =>
    q.Allowed op ∧ Legal cb rest (perform cb op q s).2.1 (perform cb op q s).2.2

/-- The array shows the set. -/
structure Shows (cb : PqueueCallbacks σ α) (W : Waiting α) (q : Pqueue α) (s : σ) : Prop where
  heap : Heap cb q s
  nodes : ∀ x, x ∈ W.nodes ↔ q.Mem x
  pri : W.pri = cb.getpri s
  card : W.nodes.card + 1 = q.size

/-- A new queue shows the empty set. -/
theorem init_shows (n : Nat) (d : Nat → α) (s : σ) : Shows cb ⟨∅, cb.getpri s⟩ (init n d) s := by
  refine ⟨init_heap n d s, fun x => iff_of_false (Finset.notMem_empty x) ?_, rfl, rfl⟩
  rintro ⟨i, hi, hi', -⟩
  have hsize : (init n d).size = 1 := rfl
  omega

instance (q : Pqueue α) [DecidableEq α] (x : α) : Decidable (q.Mem x) :=
  decidable_of_iff (∃ i < q.size, 1 ≤ i ∧ q.d i = x)
    ⟨fun ⟨i, hlt, hpos, hd⟩ => ⟨i, hpos, hlt, hd⟩, fun ⟨i, hpos, hlt, hd⟩ => ⟨i, hlt, hpos, hd⟩⟩

instance (q : Pqueue α) [DecidableEq α] : (op : QueueOp α) → Decidable (q.Allowed op)
  | .insert x => inferInstanceAs (Decidable (¬ q.Mem x))
  | .changePriority x _ => inferInstanceAs (Decidable (q.Mem x))
  | .remove x => inferInstanceAs (Decidable (q.Mem x))
  | .pop => isTrue trivial
  | .setpri x _ => inferInstanceAs (Decidable (¬ q.Mem x))

instance decidableLegal [DecidableEq α] : (ops : List (QueueOp α)) → (q : Pqueue α) → (s : σ) →
    Decidable (Legal cb ops q s)
  | [], _, _ => isTrue trivial
  | op :: rest, q, s =>
    have := decidableLegal rest (perform cb op q s).2.1 (perform cb op q s).2.2
    inferInstanceAs (Decidable (_ ∧ _))

section

variable [DecidableEq α] (hlaw : cb.Lawful) (hcb : cb.Ordered)
include hlaw

/-- Taking a node out of the array takes it out of the set. -/
theorem Removed.shows {q' : Pqueue α} {s' : σ} {W : Waiting α} {x : α} (h : Shows cb W q s)
    (hx : q.Mem x) (hout : Removed cb x q s q' s') (hheap : Heap cb q' s') :
    Shows cb { W with nodes := W.nodes.erase x } q' s' := by
  have hsize := hout.size
  have hcard := Finset.card_erase_add_one ((h.nodes x).mpr hx)
  have hold := h.card
  refine ⟨hheap, fun y => ?_, ?_, ?_⟩
  · rw [Finset.mem_erase, h.nodes, hout.mem]
    exact and_comm
  · rw [hout.getpri hlaw]
    exact h.pri
  · dsimp only
    omega

/-- A priority is written. -/
theorem getpri_setpri_eq (s : σ) (x : α) (p : Nat) :
    cb.getpri (cb.setpri s x p) = Function.update (cb.getpri s) x p := by
  funext y
  rw [hlaw.getpri_setpri, Function.update_apply]

include hcb

/-- Every call that respects its contract is a step of the set. -/
theorem Shows.perform {W : Waiting α} {op : QueueOp α} (h : Shows cb W q s) (hop : q.Allowed op) :
    ∃ W', W.Step cb.Above op (perform cb op q s).1 W' ∧
      Shows cb W' (perform cb op q s).2.1 (perform cb op q s).2.2 := by
  cases op with
  | insert x =>
    have hx : x ∉ W.nodes := mt (h.nodes x).mp hop
    obtain ⟨-, hsize, hmem, -, -⟩ := insert_spec hlaw h.heap.placed hop h.heap.started
    refine ⟨_, .insert hx, h.heap.insert hlaw hcb hop, fun y => ?_, ?_, ?_⟩
    · rw [Finset.mem_insert, h.nodes]
      exact (hmem y).symm
    · exact h.pri.trans (insert_getpri hlaw q s x).symm
    · have hcard := h.card
      rw [Finset.card_insert_of_notMem hx, hcard]
      exact hsize.symm
  | changePriority x p =>
    have hx : x ∈ W.nodes := (h.nodes x).mpr hop
    obtain ⟨-, hsize, hmem, -, hframe⟩ := changePriority_spec hlaw p h.heap.placed hop
    refine ⟨_, .changePriority p hx, h.heap.changePriority hlaw hcb hop p, fun y => ?_, ?_, ?_⟩
    · exact (h.nodes y).trans (hmem y).symm
    · have hpri := hframe cb.getpri fun s a j => funext fun b => hlaw.getpri_setpos s a j b
      rw [getpri_setpri_eq hlaw, ← h.pri] at hpri
      exact hpri.symm
    · exact h.card.trans hsize.symm
  | remove x =>
    have hx : x ∈ W.nodes := (h.nodes x).mpr hop
    exact ⟨_, .remove hx, Removed.shows hlaw h hop (remove_spec hlaw hcb.refl h.heap.placed hop)
      (h.heap.remove hlaw hcb hop)⟩
  | pop =>
    have hstart := h.heap.started
    by_cases hone : q.size = 1
    · have hcard := h.card
      have hnone : W.nodes = ∅ := Finset.card_eq_zero.mp (by omega)
      have hpop : pop cb q s = (none, q, s) := by rw [pop, if_pos hone]
      refine ⟨W, ?_, ?_⟩
      · rw [Pqueue.perform, hpop]
        exact .popEmpty hnone
      · rw [Pqueue.perform, hpop]
        exact h
    · have htwo : 2 ≤ q.size := by omega
      have hroot : q.Mem (q.d 1) := ⟨1, le_refl 1, htwo, rfl⟩
      obtain ⟨hhead, hout⟩ := pop_spec hlaw h.heap.placed htwo
      refine ⟨{ W with nodes := W.nodes.erase (q.d 1) }, ?_,
        Removed.shows hlaw h hroot hout (h.heap.pop hlaw hcb htwo)⟩
      rw [Pqueue.perform, hhead]
      refine .pop ((h.nodes _).mpr hroot) fun y hy => ?_
      rw [h.pri]
      exact h.heap.ordered.root hcb ((h.nodes y).mp hy)
  | setpri x p =>
    have hx : x ∉ W.nodes := mt (h.nodes x).mp hop
    refine ⟨_, .setpri p hx, h.heap.setpri hlaw hop p, h.nodes, ?_, h.card⟩
    rw [h.pri]
    exact (getpri_setpri_eq hlaw s x p).symm

/-- Every sequence of such calls is a run of the set. -/
theorem Shows.performAll {W : Waiting α} {ops : List (QueueOp α)} (h : Shows cb W q s)
    (hops : Legal cb ops q s) :
    ∃ W', W.Run cb.Above (ops.zip (performAll cb ops q s).1) W' ∧
      Shows cb W' (performAll cb ops q s).2.1 (performAll cb ops q s).2.2 := by
  induction ops generalizing q s W with
  | nil => exact ⟨W, .nil W, h⟩
  | cons op rest ih =>
    obtain ⟨hop, hrest⟩ := hops
    obtain ⟨W₁, hstep, h₁⟩ := h.perform hlaw hcb hop
    obtain ⟨W₂, hrun, h₂⟩ := ih h₁ hrest
    exact ⟨W₂, .cons hstep hrun, h₂⟩

/-- A queue of `n` nodes behaves as the set that its callers have in mind: every answer of a
sequence of calls is one that the set allows, the array holds the nodes of the set, as many slots
are in use, and `pqueue_is_valid` accepts it. -/
theorem queue_shows_set (n : Nat) (d : Nat → α) (s : σ) (ops : List (QueueOp α))
    (hops : Legal cb ops (init n d) s) :
    ∃ W : Waiting α, Waiting.Run cb.Above ⟨∅, cb.getpri s⟩
        (ops.zip (performAll cb ops (init n d) s).1) W ∧
      (∀ x, x ∈ W.nodes ↔ (performAll cb ops (init n d) s).2.1.Mem x) ∧
      W.pri = cb.getpri (performAll cb ops (init n d) s).2.2 ∧
      W.nodes.card + 1 = (performAll cb ops (init n d) s).2.1.size ∧
      isValid cb (performAll cb ops (init n d) s).2.1 (performAll cb ops (init n d) s).2.2 =
        true := by
  obtain ⟨W, hrun, h⟩ := (init_shows n d s).performAll hlaw hcb hops
  exact ⟨W, hrun, h.nodes, h.pri, h.card, isValid_eq_true.mpr h.heap.ordered⟩

end

/-- Three lines: the one of most valid pages loses all but one of them and leaves first, the second
one is removed, and the queue is empty after the third one. -/
theorem queue_shows_set_lines :
    Legal victimLine [.setpri 0 7, .setpri 1 3, .setpri 2 5, .insert 0, .insert 2, .insert 1,
      .changePriority 0 1, .pop, .remove 2, .pop, .pop] (init 3 fun _ => 0) default ∧
    ∃ W : Waiting Nat, Waiting.Run victimLine.Above ⟨∅, fun _ => 0⟩
      [(.setpri 0 7, none), (.setpri 1 3, none), (.setpri 2 5, none), (.insert 0, none),
        (.insert 2, none), (.insert 1, none), (.changePriority 0 1, none), (.pop, some 0),
        (.remove 2, none), (.pop, some 1), (.pop, none)] W ∧ W.nodes = ∅ := by
  have hlegal : Legal victimLine [.setpri 0 7, .setpri 1 3, .setpri 2 5, .insert 0, .insert 2,
      .insert 1, .changePriority 0 1, .pop, .remove 2, .pop, .pop] (init 3 fun _ => 0) default := by
    decide
  obtain ⟨W, hrun, -, -, hcard, -⟩ := queue_shows_set victimLine_lawful victimLine_ordered 3
    (fun _ => 0) default _ hlegal
  refine ⟨hlegal, W, hrun, Finset.card_eq_zero.mp (Nat.succ.inj (hcard.trans ?_))⟩
  decide

/-! ## Emptying a queue -/

/-- The nodes that `pqueue_pop` hands out until it returns `NULL`. -/
def drain (cb : PqueueCallbacks σ α) : Nat → Pqueue α → σ → List α
  | 0, _, _ => []
  | fuel + 1, q, s =>
    match pop cb q s with
    | (none, _, _) => []
    | (some x, q, s) => x :: drain cb fuel q s

theorem drain_of_empty {fuel : Nat} (hs : q.size = 1) : drain cb fuel q s = [] := by
  cases fuel with
  | zero => rfl
  | succ fuel => simp only [drain, pop, if_pos hs]

theorem drain_succ (fuel : Nat) {x : α} (hhead : (pop cb q s).1 = some x) :
    drain cb (fuel + 1) q s = x :: drain cb fuel (pop cb q s).2.1 (pop cb q s).2.2 := by
  have hpop : pop cb q s = (some x, (pop cb q s).2.1, (pop cb q s).2.2) := Prod.ext hhead rfl
  rw [drain, hpop]

section

variable [DecidableEq α] (hlaw : cb.Lawful) (hcb : cb.Ordered)
include hlaw hcb

/-- A heap hands out each of its nodes once, and none that must stand above an earlier one. -/
theorem Heap.drain {fuel : Nat} (h : Heap cb q s) (hfuel : q.size ≤ fuel) :
    (drain cb fuel q s).Nodup ∧ (∀ x, x ∈ drain cb fuel q s ↔ q.Mem x) ∧
      (drain cb fuel q s).Pairwise fun x y => cb.Above (cb.getpri s x) (cb.getpri s y) := by
  have hstart := h.started
  induction fuel generalizing q s with
  | zero => omega
  | succ fuel ih =>
    by_cases hone : q.size = 1
    · rw [drain_of_empty hone]
      refine ⟨.nil, fun x => iff_of_false List.not_mem_nil ?_, .nil⟩
      rintro ⟨i, hi, hi', -⟩
      omega
    · have htwo : 2 ≤ q.size := by omega
      obtain ⟨hhead, hout⟩ := pop_spec hlaw h.placed htwo
      have hsize := hout.size
      obtain ⟨hnodup, hmem, hsorted⟩ := ih (h.pop hlaw hcb htwo) (by omega) (by omega)
      have hdrain := drain_succ fuel hhead
      rw [hout.getpri hlaw] at hsorted
      have hroot : q.Mem (q.d 1) := ⟨1, le_refl 1, htwo, rfl⟩
      rw [hdrain]
      refine ⟨List.nodup_cons.mpr ⟨fun hin => ?_, hnodup⟩, fun x => ?_,
        List.pairwise_cons.mpr ⟨fun y hy => ?_, hsorted⟩⟩
      · exact ((hout.mem _).mp ((hmem _).mp hin)).2 rfl
      · rw [List.mem_cons, hmem, hout.mem]
        by_cases he : x = q.d 1
        · rw [he]
          exact iff_of_true (.inl rfl) hroot
        · exact ⟨fun hx => hx.elim (absurd · he) And.left, fun hx => .inr ⟨hx, he⟩⟩
      · exact h.ordered.root hcb ((hout.mem y).mp ((hmem y).mp hy)).1

/-- Whatever calls were made before, popping until `NULL` hands out every queued node once, in the
order of the priorities. -/
theorem pops_sorted (n : Nat) (d : Nat → α) (s : σ) (ops : List (QueueOp α))
    (hops : Legal cb ops (init n d) s) :
    ∃ outs q s', performAll cb ops (init n d) s = (outs, q, s') ∧
      (Pqueue.drain cb q.size q s').Nodup ∧ (∀ x, x ∈ Pqueue.drain cb q.size q s' ↔ q.Mem x) ∧
      (Pqueue.drain cb q.size q s').Pairwise fun x y =>
        cb.Above (cb.getpri s' x) (cb.getpri s' y) := by
  obtain ⟨W, -, h⟩ := (init_shows n d s).performAll hlaw hcb hops
  exact ⟨_, _, _, rfl, h.heap.drain hlaw hcb (le_refl _)⟩

end

/-- Four lines, one of which changes its priority in the queue. -/
theorem pops_sorted_lines : ∃ outs q s', performAll victimLine
      [.setpri 0 7, .setpri 1 3, .setpri 2 5, .setpri 3 4, .insert 0, .insert 2, .insert 1,
        .insert 3, .changePriority 0 1] (init 4 fun _ => 0) default = (outs, q, s') ∧
    Pqueue.drain victimLine q.size q s' = [0, 1, 3, 2] ∧
      (Pqueue.drain victimLine q.size q s').Pairwise fun x y => (s' x).vpc ≤ (s' y).vpc := by
  obtain ⟨outs, q, s', hrun, -, -, hsorted⟩ := pops_sorted victimLine_lawful victimLine_ordered 4
    (fun _ => 0) default [.setpri 0 7, .setpri 1 3, .setpri 2 5, .setpri 3 4, .insert 0, .insert 2,
      .insert 1, .insert 3, .changePriority 0 1] (by decide)
  refine ⟨outs, q, s', hrun, ?_, hsorted.imp fun habove => ?_⟩
  · obtain ⟨-, hqs⟩ := Prod.mk.inj hrun
    obtain ⟨rfl, rfl⟩ := Prod.mk.inj hqs
    decide
  · exact not_lt.mp (of_decide_eq_false habove)

end Pqueue

end NvmeVirt
