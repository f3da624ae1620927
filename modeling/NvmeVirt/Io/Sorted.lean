import NvmeVirt.Io.Integrity
import Mathlib.Data.List.Chain

/-!
# The order of the entries in flight

The search of `__insert_req_sorted` stops at entries that are due as well as at entries with a target
that is not later, so the list in flight is not sorted. Next to each other are only entries of which
the first is due or not later than the second, and from the first entry that is not due on the list
is sorted.
-/

namespace NvmeVirt

open Linked

namespace NvmevIoWorker

variable {w w' : NvmevIoWorker} {free io : List Nat} {e : Nat}

/-- The target time of an entry. -/
def target (w : NvmevIoWorker) (e : Nat) : Nat := (w.workQueue e).nsecsTarget

/-- Of two entries next to each other, the first is due or not later than the second. -/
def InOrder (w : NvmevIoWorker) (io : List Nat) : Prop :=
  io.IsChain fun a b => w.target a ≤ w.target b ∨ w.target a ≤ w.latestNsecs

theorem target_eq_body (w : NvmevIoWorker) (e : Nat) : w.target e = (w.body e).nsecsTarget := rfl

theorem stopsAt_iff {t : Nat} :
    w.stopsAt t e = true ↔ w.target e ≤ w.latestNsecs ∨ w.target e ≤ t := decide_eq_true_iff

/-- The targets of the entries in flight stay, and the clock does not go back. -/
theorem InOrder.congr (h : w.InOrder io) (htarget : ∀ e ∈ io, w'.target e = w.target e)
    (hclock : w.latestNsecs ≤ w'.latestNsecs) : w'.InOrder io := by
  apply List.IsChain.imp_of_mem_imp _ h
  intro a b ha hb hab
  rw [htarget a ha, htarget b hb]
  exact hab.imp_right fun hdue => hdue.trans hclock

/-- An entry behind the last one that stops its search. -/
theorem InOrder.insert {before after : List Nat} (h : w.InOrder (before ++ after))
    (htarget : ∀ x ∈ before ++ after, w'.target x = w.target x)
    (hclock : w'.latestNsecs = w.latestNsecs)
    (hbefore : ∀ x, before.getLast? = some x → w.stopsAt (w'.target e) x = true)
    (hafter : ∀ x ∈ after, w.stopsAt (w'.target e) x = false) :
    w'.InOrder (before ++ e :: after) := by
  have hold := h.congr htarget hclock.ge
  apply hold.left_of_append.append
  · apply hold.right_of_append.cons
    intro y hy
    have hmem := List.mem_of_head? hy
    have hpast := Bool.eq_false_iff.mp (hafter y hmem)
    rw [Ne, stopsAt_iff, not_or] at hpast
    rw [htarget y (List.mem_append_right _ hmem)]
    omega
  · intro x hx y hy
    have hstop := stopsAt_iff.mp (hbefore x hx)
    obtain rfl : e = y := Option.some.inj hy
    rw [htarget x (List.mem_append_left _ (List.mem_of_getLast? hx)), hclock]
    exact hstop.symm

/-- The due entries come first, and the entries that are not due follow in the order of their
targets. -/
theorem InOrder.split (h : w.InOrder io) : ∃ due rest, io = due ++ rest ∧
    (∀ e ∈ due, w.target e ≤ w.latestNsecs) ∧ (∀ e ∈ rest, w.latestNsecs < w.target e) ∧
    rest.Pairwise fun a b => w.target a ≤ w.target b := by
  induction io with
  | nil => exact ⟨[], [], rfl, by simp, by simp, .nil⟩
  | cons x io ih =>
    obtain ⟨due, rest, rfl, hdue, hrest, hsorted⟩ := ih h.tail
    by_cases hx : w.target x ≤ w.latestNsecs
    · refine ⟨x :: due, rest, rfl, fun e he => ?_, hrest, hsorted⟩
      rcases List.mem_cons.mp he with rfl | he
      · exact hx
      · exact hdue e he
    · have hnext : ∀ y, (due ++ rest).head? = some y → w.target x ≤ w.target y := fun y hy =>
        (h.rel_head? hy).resolve_right hx
      cases due with
      | cons y due =>
        have hle := hnext y rfl
        have hdue := hdue y (List.mem_cons_self ..)
        omega
      | nil =>
        refine ⟨[], x :: rest, rfl, by simp, fun e he => ?_, List.pairwise_cons.mpr ⟨?_, hsorted⟩⟩
        · rcases List.mem_cons.mp he with rfl | he
          · omega
          · exact hrest e he
        · cases rest with
          | nil => simp
          | cons y rest =>
            intro b hb
            have hle := hnext y rfl
            rcases List.mem_cons.mp hb with rfl | hb
            · exact hle
            · exact hle.trans (List.rel_of_pairwise_cons hsorted hb)

/-- An entry that is submitted goes behind every entry with the same target that is not due. -/
structure Placed (w w' : NvmevIoWorker) (t e : Nat) (io : List Nat) (before after : List Nat) :
    Prop where
  split : io = before ++ after
  lists : ∃ free, WorkLists w' free (before ++ e :: after)
  target : w'.target e = t
  behind : ∀ x ∈ io, w.target x = t → w.latestNsecs < w.target x → x ∈ before

/-- A submission keeps the order, and puts its entry in its place. -/
theorem InOrder.submit {fill : NvmevIoWork → NvmevIoWork} (h : w.InOrder io)
    (hw : WorkLists w free io) (hfill : Clears fill) :
    w.submit fill = w ∨ ∃ e before after,
      w.Placed (w.submit fill) (fill (w.workQueue e)).nsecsTarget e io before after ∧
      (w.submit fill).InOrder (before ++ e :: after) := by
  rcases submit_spec hw hfill with ⟨-, -, heq⟩ |
    ⟨e, free', before, after, rfl, rfl, hlists, hbody, hclock, hbefore, hafter⟩
  · exact Or.inl heq
  right
  have hnodup := hw.partition.nodup
  rw [List.cons_append, List.nodup_cons] at hnodup
  have hself : (w.submit fill).target e = (fill (w.workQueue e)).nsecsTarget := by
    rw [target_eq_body, hbody, Function.update_self]
  have htarget : ∀ x ∈ before ++ after, (w.submit fill).target x = w.target x := by
    intro x hx
    have hxe : x ≠ e := by
      rintro rfl
      exact hnodup.1 (List.mem_append_right _ hx)
    rw [target_eq_body, hbody, Function.update_of_ne hxe, target_eq_body]
  refine ⟨e, before, after, ⟨rfl, ⟨free', hlists⟩, hself, fun x hx ht _ => ?_⟩, ?_⟩
  · rcases List.mem_append.mp hx with hx | hx
    · exact hx
    · have hpast := hafter x hx
      rw [← ht] at hpast
      exact absurd (stopsAt_iff.mpr (Or.inr le_rfl)) (Bool.eq_false_iff.mp hpast)
  · rw [← hself] at hbefore hafter
    exact h.insert htarget hclock hbefore hafter

/-- Reclaiming takes a prefix. -/
theorem InOrder.reclaim (h : w.InOrder io) : w.reclaim.InOrder (io.dropWhile w.isDone) := by
  have hsuffix := h.suffix (List.dropWhile_suffix w.isDone)
  apply InOrder.congr hsuffix
  · intro e _
    rw [target_eq_body, reclaim_body, target_eq_body]
  · rw [reclaim_latestNsecs]

theorem target_setWork {work : NvmevIoWork} (h : work.nsecsTarget = (w.workQueue e).nsecsTarget)
    (x : Nat) : (w.setWork e work).target x = w.target x := by
  by_cases hx : x = e
  · subst hx
    simpa [target, setWork] using h
  · simp [target, setWork, hx]

/-- Storing an entry with the same target. -/
theorem InOrder.setWork {work : NvmevIoWork} (h : w.InOrder io)
    (ht : work.nsecsTarget = (w.workQueue e).nsecsTarget) : (w.setWork e work).InOrder io :=
  h.congr (fun x _ => target_setWork ht x) le_rfl

end NvmevIoWorker

/-! ## Runs -/

open NvmevIoWorker

namespace NvmevDev

variable {σ : Type}

/-- Every worker has its two lists, and the entries in flight are in order. -/
def WorkOrdered (dev : NvmevDev σ) : Prop :=
  ∀ i, ∃ free io, WorkLists (dev.ioWorkers i) free io ∧ (dev.ioWorkers i).InOrder io

/-- No event of a sequence sets the clock of a worker back. -/
def ClockForward (dev : NvmevDev σ) : List WorkEvent → Prop
  | [] => True
  | ev :: evs =>
    (∀ i nsecs, ev = .clock i nsecs → (dev.ioWorkers i).latestNsecs ≤ nsecs) ∧
      ClockForward (dev.workEvent ev) evs

theorem WorkOrdered.update {dev : NvmevDev σ} {i : Nat} {w : NvmevIoWorker} (h : dev.WorkOrdered)
    (hw : ∃ free io, WorkLists w free io ∧ w.InOrder io) (j : Nat) :
    ∃ free io, WorkLists (Function.update dev.ioWorkers i w j) free io ∧
      (Function.update dev.ioWorkers i w j).InOrder io := by
  by_cases hj : j = i
  · subst hj
    rwa [Function.update_self]
  · rw [Function.update_of_ne hj]
    exact h j

theorem WorkOrdered.submitWork {dev : NvmevDev σ} (h : dev.WorkOrdered) (sqid : Nat)
    {fill : NvmevIoWork → NvmevIoWork} (hfill : Clears fill) :
    (dev.submitWork sqid fill).WorkOrdered := by
  intro j
  rw [submitWork_ioWorkers]
  apply h.update _ j
  obtain ⟨free, io, hw, horder⟩ := h (dev.getIoWorker sqid)
  rcases horder.submit hw hfill with heq | ⟨e, before, after, hplaced, horder⟩
  · rw [heq]
    exact ⟨free, io, hw, horder⟩
  · obtain ⟨free', hlists⟩ := hplaced.lists
    exact ⟨free', before ++ e :: after, hlists, horder⟩

/-- A worker that stores an entry with the same links and the same target. -/
theorem WorkOrdered.setWork {dev : NvmevDev σ} (h : dev.WorkOrdered) (i e : Nat)
    {work : NvmevIoWork} (hnext : work.next = (dev.ioWorkers i).next e)
    (hprev : work.prev = (dev.ioWorkers i).prev e)
    (ht : work.nsecsTarget = ((dev.ioWorkers i).workQueue e).nsecsTarget) :
    (dev.setWorker i ((dev.ioWorkers i).setWork e work)).WorkOrdered := by
  intro j
  obtain ⟨free, io, hw, horder⟩ := h i
  exact h.update ⟨free, io, hw.setWork hnext hprev, horder.setWork ht⟩ j

/-- Every event that sets no clock back keeps the order. -/
theorem WorkOrdered.workEvent {dev : NvmevDev σ} {ev : WorkEvent} (h : dev.WorkOrdered)
    (hclock : ∀ i nsecs, ev = .clock i nsecs → (dev.ioWorkers i).latestNsecs ≤ nsecs) :
    (dev.workEvent ev).WorkOrdered := by
  cases ev with
  | enqueue sqid cqid sqEntry commandId nsecsTarget status =>
    rw [NvmevDev.workEvent]
    have hfill := clears_ioWork sqid cqid sqEntry commandId nsecsTarget status
    exact h.submitWork sqid hfill
  | schedule c =>
    rw [NvmevDev.workEvent, scheduleInternalOperation]
    have hfill := clears_internalWork c.sqid c.nsecsTarget c.writeBuffer c.buffsToRelease
    exact h.submitWork c.sqid hfill
  | copied i e => exact h.setWork i e rfl rfl rfl
  | completed i e => exact h.setWork i e rfl rfl rfl
  | clock i nsecs =>
    intro j
    obtain ⟨free, io, hw, horder⟩ := h i
    have hset : ({ dev.ioWorkers i with latestNsecs := nsecs } : NvmevIoWorker).InOrder io :=
      horder.congr (fun e _ => rfl) (hclock i nsecs rfl)
    exact h.update ⟨free, io, hw.clock nsecs, hset⟩ j
  | reclaim =>
    intro j
    obtain ⟨free, io, hw, horder⟩ := h j
    by_cases hj : j < dev.nrIoWorkers
    · have heq : (dev.workEvent .reclaim).ioWorkers j = (dev.ioWorkers j).reclaim := if_pos hj
      rw [heq]
      exact ⟨_, _, reclaim_spec hw, horder.reclaim⟩
    · have heq : (dev.workEvent .reclaim).ioWorkers j = dev.ioWorkers j := if_neg hj
      rw [heq]
      exact ⟨free, io, hw, horder⟩

theorem workOrdered_foldl {dev : NvmevDev σ} (h : dev.WorkOrdered) {evs : List WorkEvent}
    (hclock : dev.ClockForward evs) : (evs.foldl workEvent dev).WorkOrdered := by
  induction evs generalizing dev with
  | nil => exact h
  | cons ev evs ih =>
    apply ih (h.workEvent hclock.1)
    exact hclock.2

theorem workOrdered_ioWorkerInit (dev : NvmevDev σ) : dev.ioWorkerInit.WorkOrdered := by
  intro i
  exact ⟨List.range nrMaxParallelIo, [], init_spec, List.isChain_nil⟩

/-- In every run in which no clock goes back, of two entries in flight next to each other the
first is due or not later than the second. So the entries that are not due are sorted by their
targets behind those that are due, and one more entry goes behind those with its target. -/
theorem entries_in_order (dev : NvmevDev σ) (evs : List WorkEvent)
    (hclock : dev.ioWorkerInit.ClockForward evs) (i : Nat) :
    let w := (dev.workRun evs).ioWorkers i
    ∃ free io, WorkLists w free io ∧ w.InOrder io ∧
      (∃ due rest, io = due ++ rest ∧ (∀ e ∈ due, w.target e ≤ w.latestNsecs) ∧
        (∀ e ∈ rest, w.latestNsecs < w.target e) ∧
        rest.Pairwise fun a b => w.target a ≤ w.target b) ∧
      ∀ fill, Clears fill → w.submit fill = w ∨
        ∃ e before after, w.Placed (w.submit fill) (fill (w.workQueue e)).nsecsTarget e io before
          after := by
  obtain ⟨free, io, hw, horder⟩ := workOrdered_foldl (workOrdered_ioWorkerInit dev) hclock i
  refine ⟨free, io, hw, horder, horder.split, fun fill hfill => ?_⟩
  rcases horder.submit hw hfill with heq | ⟨e, before, after, hplaced, -⟩
  · exact Or.inl heq
  · exact Or.inr ⟨e, before, after, hplaced⟩

/-- Two commands, the later target first, of which one is due. -/
theorem entries_in_order_two :
    ∃ free io, WorkLists (((default : NvmevDev Unit).workRun
        [.enqueue 1 1 0 0 9 0, .enqueue 1 1 1 0 4 0, .clock 0 5]).ioWorkers 0) free io ∧
      (((default : NvmevDev Unit).workRun
        [.enqueue 1 1 0 0 9 0, .enqueue 1 1 1 0 4 0, .clock 0 5]).ioWorkers 0).InOrder io := by
  have hclock : (default : NvmevDev Unit).ioWorkerInit.ClockForward
      [.enqueue 1 1 0 0 9 0, .enqueue 1 1 1 0 4 0, .clock 0 5] := by
    refine ⟨by simp, by simp, fun i nsecs h => ?_, trivial⟩
    cases h
    decide +kernel
  obtain ⟨free, io, hw, horder, -⟩ := entries_in_order (default : NvmevDev Unit) _ hclock 0
  exact ⟨free, io, hw, horder⟩

end NvmevDev

end NvmeVirt
