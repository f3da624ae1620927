import Mathlib.Logic.Function.Basic
import Mathlib.Data.List.Nodup
import Mathlib.Tactic.Common

/-!
# Linked lists threaded through functions

A linked list in memory is a successor function `f` and a first node. `Seg f a b l`
says that following `f` from `a` visits the nodes `l` in order and then arrives at `b`.
A doubly linked list is a segment of `next` and, read backwards, a segment of `prev`.
-/

namespace Linked

variable {α : Type}

/-- Following `f` from `a` visits the nodes of `l` and arrives at `b`. -/
def Seg (f : α → α) : α → α → List α → Prop
  | a, b, [] => a = b
  | a, b, x :: l => a = x ∧ Seg f (f x) b l

@[simp] theorem seg_nil {f : α → α} {a b : α} : Seg f a b [] ↔ a = b := Iff.rfl

@[simp] theorem seg_cons {f : α → α} {a b x : α} {l : List α} :
    Seg f a b (x :: l) ↔ a = x ∧ Seg f (f x) b l := Iff.rfl

/-- Two segments in a row are one segment. -/
theorem seg_append {f : α → α} {a c : α} {l m : List α} :
    Seg f a c (l ++ m) ↔ ∃ b, Seg f a b l ∧ Seg f b c m := by
  induction l generalizing a with
  | nil => simp
  | cons x l ih =>
    simp only [List.cons_append, seg_cons, ih, and_assoc, exists_and_left]

/-- A segment and its last node. -/
theorem seg_concat {f : α → α} {a b x : α} {l : List α} :
    Seg f a b (l ++ [x]) ↔ Seg f a x l ∧ f x = b := by
  rw [seg_append]
  constructor
  · rintro ⟨c, hl, rfl, hx⟩
    exact ⟨hl, hx⟩
  · rintro ⟨hl, hx⟩
    exact ⟨x, hl, rfl, hx⟩

/-- Only the successors of the visited nodes matter. -/
theorem Seg.congr {f g : α → α} {a b : α} {l : List α} (h : Seg f a b l)
    (hfg : ∀ x ∈ l, g x = f x) : Seg g a b l := by
  induction l generalizing a with
  | nil => exact h
  | cons x l ih =>
    refine ⟨h.1, ?_⟩
    rw [hfg x (List.mem_cons_self ..)]
    exact ih h.2 fun y hy => hfg y (List.mem_cons_of_mem _ hy)

/-- A new successor of the last node changes where a segment arrives. -/
theorem Seg.retarget {f g : α → α} {a b x c : α} {l : List α} (h : Seg f a b (l ++ [x]))
    (hfg : ∀ y ∈ l, g y = f y) (hx : g x = c) : Seg g a c (l ++ [x]) := by
  rw [seg_concat] at h ⊢
  exact ⟨h.1.congr hfg, hx⟩

/-- A segment that ends at a node outside of it is determined by its ends. -/
theorem Seg.unique {f : α → α} {a b : α} {l m : List α} (hl : Seg f a b l) (hm : Seg f a b m)
    (hbl : b ∉ l) (hbm : b ∉ m) : l = m := by
  induction l generalizing a m with
  | nil =>
    cases m with
    | nil => rfl
    | cons y m =>
      obtain rfl : a = b := hl
      exact absurd (hm.1 ▸ List.mem_cons_self ..) hbm
  | cons x l ih =>
    cases m with
    | nil =>
      obtain rfl : a = b := hm
      exact absurd (hl.1 ▸ List.mem_cons_self ..) hbl
    | cons y m =>
      obtain ⟨rfl, hl⟩ := hl
      obtain ⟨rfl, hm⟩ := hm
      rw [ih hl hm (fun h => hbl (List.mem_cons_of_mem _ h))
        fun h => hbm (List.mem_cons_of_mem _ h)]

/-- A nonempty segment visits the node it starts from. -/
theorem Seg.mem {f : α → α} {a b : α} {l : List α} (h : Seg f a b l) (hl : l ≠ []) : a ∈ l := by
  cases l with
  | nil => exact absurd rfl hl
  | cons x l => exact h.1 ▸ List.mem_cons_self ..

/-- A step from a node of a segment stays in it or arrives. -/
theorem Seg.next_mem {f : α → α} {a b x : α} {l : List α} (h : Seg f a b l) (hx : x ∈ l) :
    f x = b ∨ f x ∈ l := by
  obtain ⟨before, after, rfl⟩ := List.append_of_mem hx
  obtain ⟨_, -, -, hafter⟩ := seg_append.mp h
  rcases after.eq_nil_or_concat' with rfl | ⟨_, _, hcons⟩
  · exact .inl hafter
  · refine .inr (List.mem_append_right _ (List.mem_cons_of_mem _ (hafter.mem ?_)))
    simp [hcons]

/-- A segment that starts where it must end is empty. -/
theorem Seg.eq_nil {f : α → α} {b : α} {l : List α} (h : Seg f b b l) (hb : b ∉ l) : l = [] := by
  cases l with
  | nil => rfl
  | cons x l => exact absurd (h.1 ▸ List.mem_cons_self ..) hb

/-- A node spliced in behind `p`. -/
theorem Seg.splice {f g : α → α} {a c p x : α} {l m : List α} (h : Seg f a c (l ++ p :: m))
    (hfg : ∀ y ∈ l ++ m, g y = f y) (hp : g p = x) (hx : g x = f p) :
    Seg g a c (l ++ p :: x :: m) := by
  obtain ⟨b, hl, rfl, hm⟩ := seg_append.mp h
  refine seg_append.mpr ⟨b, hl.congr fun y hy => hfg y (List.mem_append_left _ hy), rfl, hp, ?_⟩
  rw [hx]
  exact hm.congr fun y hy => hfg y (List.mem_append_right _ hy)

/-- A doubly linked list: `next` leads from `first` through `l` to `nil`, and `prev` leads
from `last` through `l` backwards to `nil`. -/
structure Dll (next prev : α → α) (nil first last : α) (l : List α) : Prop where
  forward : Seg next first nil l
  backward : Seg prev last nil l.reverse

namespace Dll

variable {next prev next' prev' : α → α} {nil first last x : α} {l : List α}

/-- Seen from the other end. -/
theorem symm (h : Dll next prev nil first last l) : Dll prev next nil last first l.reverse :=
  ⟨h.backward, by rw [List.reverse_reverse]; exact h.forward⟩

theorem congr (h : Dll next prev nil first last l) (hn : ∀ y ∈ l, next' y = next y)
    (hp : ∀ y ∈ l, prev' y = prev y) : Dll next' prev' nil first last l :=
  ⟨h.forward.congr hn, h.backward.congr fun y hy => hp y (List.mem_reverse.mp hy)⟩

/-- One node alone. -/
theorem singleton (hn : next x = nil) (hp : prev x = nil) : Dll next prev nil x x [x] :=
  ⟨⟨rfl, hn⟩, ⟨rfl, hp⟩⟩

/-- A node in front of the first one. -/
theorem cons {a : α} {m : List α} (h : Dll next prev nil first last (a :: m))
    (hn : ∀ y ∈ a :: m, next' y = next y) (hp : ∀ y ∈ m, prev' y = prev y)
    (ha : prev' a = x) (hx : next' x = a) (hx' : prev' x = nil) :
    Dll next' prev' nil x last (x :: a :: m) := by
  constructor
  · refine ⟨rfl, ?_⟩
    rw [hx]
    obtain ⟨rfl, h⟩ := h.forward
    exact Seg.congr ⟨rfl, h⟩ hn
  · have hback := h.backward
    rw [List.reverse_cons] at hback
    rw [List.reverse_cons, List.reverse_cons, seg_concat]
    exact ⟨hback.retarget (fun y hy => hp y (List.mem_reverse.mp hy)) ha, hx'⟩

/-- A node behind the last one. -/
theorem concat {a : α} {m : List α} (h : Dll next prev nil first last (m ++ [a]))
    (hn : ∀ y ∈ m, next' y = next y) (hp : ∀ y ∈ m ++ [a], prev' y = prev y)
    (ha : next' a = x) (hx : next' x = nil) (hx' : prev' x = a) :
    Dll next' prev' nil first x (m ++ [a, x]) := by
  have hback := h.symm
  rw [List.reverse_append, List.reverse_singleton, List.singleton_append] at hback
  have hcons : Dll prev' next' nil x first (x :: a :: m.reverse) :=
    hback.cons (fun y hy => hp y (by simpa [or_comm] using hy))
      (fun y hy => hn y (List.mem_reverse.mp hy)) ha hx' hx
  simpa using hcons.symm

/-- A node between two others. -/
theorem insert {a b : α} {l m : List α} (h : Dll next prev nil first last (l ++ a :: b :: m))
    (hn : ∀ y ∈ l ++ b :: m, next' y = next y) (hp : ∀ y ∈ l ++ a :: m, prev' y = prev y)
    (ha : next' a = x) (hx : next' x = next a) (hb : prev' b = x) (hx' : prev' x = prev b) :
    Dll next' prev' nil first last (l ++ a :: x :: b :: m) := by
  constructor
  · exact h.forward.splice hn ha hx
  · have hback := h.backward
    simp only [List.reverse_append, List.reverse_cons, List.append_assoc,
      List.cons_append, List.nil_append] at hback ⊢
    exact hback.splice (fun y hy => hp y (by simpa [or_comm, or_assoc, or_left_comm] using hy)) hb hx'

end Dll

end Linked
