import Mathlib.Logic.Function.Basic

/-!
# The intrusive priority queue

`pqueue.c` keeps a binary heap of node pointers in an array whose element 0 is
unused, and reaches the nodes only through five callbacks. Here `σ` is the
memory that holds the nodes and `α` is the type of a node pointer. Every loop
carries structural fuel that its call site makes sufficient: the index halves on
the way up and at least doubles on the way down.
-/

namespace NvmeVirt

/-- The callbacks a queue is created with. -/
structure PqueueCallbacks (σ α : Type) where
  /-- Nonzero when a node of priority `curr` must stand above one of priority `next`. -/
  cmppri : Nat → Nat → Bool
  getpri : σ → α → Nat
  setpri : σ → α → Nat → σ
  getpos : σ → α → Nat
  setpos : σ → α → Nat → σ

/-- Reading a node back after writing one of its two fields. -/
structure PqueueCallbacks.Lawful {σ α : Type} [DecidableEq α] (cb : PqueueCallbacks σ α) :
    Prop where
  getpos_setpos : ∀ s a i b, cb.getpos (cb.setpos s a i) b = if b = a then i else cb.getpos s b
  getpri_setpos : ∀ s a i b, cb.getpri (cb.setpos s a i) b = cb.getpri s b
  getpos_setpri : ∀ s a p b, cb.getpos (cb.setpri s a p) b = cb.getpos s b
  getpri_setpri : ∀ s a p b, cb.getpri (cb.setpri s a p) b = if b = a then p else cb.getpri s b

/-- The queue handle: `size` counts the unused element 0. -/
structure Pqueue (α : Type) where
  size : Nat
  avail : Nat
  d : Nat → α
  deriving Inhabited

namespace Pqueue

variable {σ α : Type} (cb : PqueueCallbacks σ α)

/-- Store a node pointer in the array. -/
def put (q : Pqueue α) (i : Nat) (x : α) : Pqueue α := { q with d := Function.update q.d i x }

/-- `pqueue_init`: one unused element, room for `n` nodes. -/
def init (n : Nat) (d : Nat → α) : Pqueue α := { size := 1, avail := n + 1, d := d }

/-- The loop of `bubble_up`: shift parents down until the moving priority fits. -/
def bubbleLoop (pri : Nat) : Nat → Pqueue α → σ → Nat → Pqueue α × σ × Nat
  | 0, q, s, i => (q, s, i)
  | fuel + 1, q, s, i =>
    if i > 1 ∧ cb.cmppri (cb.getpri s (q.d (i / 2))) pri = true then
      let x := q.d (i / 2)
      bubbleLoop pri fuel (q.put i x) (cb.setpos s x i) (i / 2)
    else (q, s, i)

/-- `bubble_up`. -/
def bubbleUp (q : Pqueue α) (s : σ) (i : Nat) : Pqueue α × σ :=
  let moving := q.d i
  let (q, s, i) := bubbleLoop cb (cb.getpri s moving) i q s i
  (q.put i moving, cb.setpos s moving i)

/-- `maxchild`: the child that must stand higher, 0 when there is none. -/
def maxchild (q : Pqueue α) (s : σ) (i : Nat) : Nat :=
  let child := 2 * i
  if child ≥ q.size then 0
  else if child + 1 < q.size ∧
      cb.cmppri (cb.getpri s (q.d child)) (cb.getpri s (q.d (child + 1))) = true then
    child + 1
  else child

/-- The loop of `percolate_down`: shift children up until the moving priority fits. -/
def percolateLoop (pri : Nat) : Nat → Pqueue α → σ → Nat → Pqueue α × σ × Nat
  | 0, q, s, i => (q, s, i)
  | fuel + 1, q, s, i =>
    let child := maxchild cb q s i
    if child ≠ 0 ∧ cb.cmppri pri (cb.getpri s (q.d child)) = true then
      let x := q.d child
      percolateLoop pri fuel (q.put i x) (cb.setpos s x i) child
    else (q, s, i)

/-- `percolate_down`. -/
def percolateDown (q : Pqueue α) (s : σ) (i : Nat) : Pqueue α × σ :=
  let moving := q.d i
  let (q, s, i) := percolateLoop cb (cb.getpri s moving) q.size q s i
  (q.put i moving, cb.setpos s moving i)

/-- `pqueue_insert`; a full array is only reported, as in the source. -/
def insert (q : Pqueue α) (s : σ) (x : α) : Pqueue α × σ :=
  let i := q.size
  bubbleUp cb ({ q with size := q.size + 1 }.put i x) s i

/-- `pqueue_change_priority`. -/
def changePriority (q : Pqueue α) (s : σ) (newPri : Nat) (x : α) : Pqueue α × σ :=
  let oldPri := cb.getpri s x
  let s := cb.setpri s x newPri
  let posn := cb.getpos s x
  if cb.cmppri oldPri newPri = true then bubbleUp cb q s posn else percolateDown cb q s posn

/-- `pqueue_remove`: the last node takes the removed node's place. -/
def remove (q : Pqueue α) (s : σ) (x : α) : Pqueue α × σ :=
  let posn := cb.getpos s x
  let q := { q with size := q.size - 1 }
  let q := q.put posn (q.d q.size)
  if cb.cmppri (cb.getpri s x) (cb.getpri s (q.d posn)) = true then bubbleUp cb q s posn
  else percolateDown cb q s posn

/-- `pqueue_peek`. -/
def peek (q : Pqueue α) : Option α := if q.size = 1 then none else some (q.d 1)

/-- `pqueue_pop`. -/
def pop (q : Pqueue α) (s : σ) : Option α × Pqueue α × σ :=
  if q.size = 1 then (none, q, s)
  else
    let head := q.d 1
    let q := { q with size := q.size - 1 }
    let (q, s) := percolateDown cb (q.put 1 (q.d q.size)) s 1
    (some head, q, s)

end Pqueue

end NvmeVirt
