import NvmeVirt.Io.Device
import NvmeVirt.Io.WorkLists

/-!
# Integrity of the work queues

Any sequence of submissions, worker steps and reclaims keeps the entries of every worker
in two lists: the free ones and the ones in flight.
-/

namespace NvmeVirt

open Linked

/-- The entries of a worker are in two lists that the links thread. -/
structure WorkLists (w : NvmevIoWorker) (free io : List Nat) : Prop where
  chains : WorkChains w free io
  partition : Partition free io

namespace WorkLists

variable {w : NvmevIoWorker} {free io : List Nat}

/-- Storing an entry with the links it has keeps the lists. -/
theorem setWork {e : Nat} {work : NvmevIoWork} (h : WorkLists w free io)
    (hnext : work.next = w.next e) (hprev : work.prev = w.prev e) :
    WorkLists (w.setWork e work) free io := by
  obtain ⟨hfree, hend, hdll, hioEnd⟩ := h.chains
  have hn : (w.setWork e work).next = w.next := by
    rw [NvmevIoWorker.setWork_next, hnext, Function.update_eq_self]
  have hp : (w.setWork e work).prev = w.prev := by
    rw [NvmevIoWorker.setWork_prev, hprev, Function.update_eq_self]
  refine ⟨⟨?_, hend, ?_, hioEnd⟩, h.partition⟩
  · rw [hn]
    exact hfree
  · rw [hn, hp]
    exact hdll

/-- The time is not part of the lists. -/
theorem clock (h : WorkLists w free io) (nsecs : Nat) :
    WorkLists { w with latestNsecs := nsecs } free io := by
  obtain ⟨hfree, hend, hdll, hioEnd⟩ := h.chains
  exact ⟨⟨hfree, hend, hdll, hioEnd⟩, h.partition⟩

end WorkLists

namespace NvmevIoWorker

/-! ## Submitting -/

/-- What `submit` may write into an entry: it clears the links. -/
def Clears (fill : NvmevIoWork → NvmevIoWork) : Prop :=
  ∀ work, (fill work).next = noEntry ∧ (fill work).prev = noEntry

theorem clears_ioWork (sqid cqid sqEntry commandId nsecsTarget status : Nat) :
    Clears fun old => ioWork old sqid cqid sqEntry commandId nsecsTarget status :=
  fun _ => ⟨rfl, rfl⟩

theorem clears_internalWork (sqid nsecsTarget writeBuffer buffsToRelease : Nat) :
    Clears fun old => internalWork old sqid nsecsTarget writeBuffer buffsToRelease :=
  fun _ => ⟨rfl, rfl⟩

variable {w : NvmevIoWorker} {free io : List Nat} {fill : NvmevIoWork → NvmevIoWork}

/-- The first free entry is available unless it is the only one. -/
theorem allocate_eq {e : Nat} (h : WorkLists w (e :: free) io) :
    w.allocate = if free = [] then none else some (e, { w with freeSeq := w.next e }) := by
  obtain ⟨he, hseg⟩ := h.chains.free_seg
  unfold allocate
  rw [he]
  cases free with
  | nil =>
    have hnext : w.next e = noEntry := hseg
    rw [if_pos rfl, if_pos (hnext ▸ nrMaxParallelIo_lt_noEntry.le)]
  | cons f free =>
    have hf : w.next e < nrMaxParallelIo :=
      hseg.1 ▸ h.partition.lt_of_mem_free (by simp)
    rw [if_neg (List.cons_ne_nil f free), if_neg (Nat.not_le_of_lt hf)]

/-- What a submission does: nothing when one free entry is left, and otherwise the first
free entry is filled and put in its place in the list of entries in flight, behind the last one
that stops the search. -/
theorem submit_spec (h : WorkLists w free io) (hfill : Clears fill) :
    (∃ e, free = [e] ∧ w.submit fill = w) ∨
    ∃ e free' before after, free = e :: free' ∧ io = before ++ after ∧
      WorkLists (w.submit fill) free' (before ++ e :: after) ∧
      (w.submit fill).body = Function.update w.body e (fill (w.workQueue e)) ∧
      (w.submit fill).latestNsecs = w.latestNsecs ∧
      (∀ x, before.getLast? = some x →
        w.stopsAt (fill (w.workQueue e)).nsecsTarget x = true) ∧
      ∀ x ∈ after, w.stopsAt (fill (w.workQueue e)).nsecsTarget x = false := by
  cases free with
  | nil => cases h.chains.free_end
  | cons e free' =>
    have halloc := allocate_eq h
    rcases eq_or_ne free' [] with rfl | hne
    · rw [if_pos rfl] at halloc
      exact .inl ⟨e, rfl, by rw [submit, halloc]⟩
    rw [if_neg hne] at halloc
    obtain ⟨hnext, hprev⟩ := hfill (w.workQueue e)
    generalize hwork : fill (w.workQueue e) = work at hnext hprev ⊢
    have hsubmit : w.submit fill =
        ({ w with freeSeq := w.next e }.setWork e work).insertReqSorted e work.nsecsTarget := by
      rw [submit, halloc, ← hwork]
    have hvn := setWork_next { w with freeSeq := w.next e } e work
    have hvp := setWork_prev { w with freeSeq := w.next e } e work
    -- The entry has left the free list and is in neither list.
    have hnodup := h.partition.nodup
    rw [List.cons_append, List.nodup_cons] at hnodup
    have hef : e ∉ free' := fun hmem => hnodup.1 (List.mem_append_left _ hmem)
    have hei : e ∉ io := fun hmem => hnodup.1 (List.mem_append_right _ hmem)
    have hchains : WorkChains ({ w with freeSeq := w.next e }.setWork e work) free' io := by
      obtain ⟨⟨-, hseg⟩, hend, hdll, hioEnd⟩ := h.chains
      refine ⟨hseg.congr fun y hy => ?_, ?_, hdll.congr (fun y hy => ?_) fun y hy => ?_, hioEnd⟩
      · rw [hvn, Function.update_of_ne (by rintro rfl; exact hef hy)]
        rfl
      · rwa [List.getLast?_cons, List.getLast?_eq_some_getLast hne, Option.getD_some,
          ← List.getLast?_eq_some_getLast hne] at hend
      · rw [hvn, Function.update_of_ne (by rintro rfl; exact hei hy)]
        rfl
      · rw [hvp, Function.update_of_ne (by rintro rfl; exact hei hy)]
        rfl
    have hfresh : Fresh ({ w with freeSeq := w.next e }.setWork e work) free' io e := by
      refine ⟨List.nodup_cons.mpr hnodup, ?_, ?_⟩
      · rw [hvn, Function.update_self, hnext]
      · rw [hvp, Function.update_self, hprev]
    obtain ⟨before, after, rfl, hins, hbefore, hafter⟩ :=
      hchains.insertReqSorted (t := work.nsecsTarget) h.partition.length_io_le
        h.partition.noEntry_notMem_io hfresh
    have hstops : ∀ x ∈ before ++ after, w.stopsAt work.nsecsTarget x =
        ({ w with freeSeq := w.next e }.setWork e work).stopsAt work.nsecsTarget x := by
      intro x hx
      have hxe : x ≠ e := by
        rintro rfl
        exact hei hx
      simp [stopsAt, setWork, hxe]
    refine .inr ⟨e, free', before, after, rfl, rfl, ?_, ?_, ?_, fun x hx => ?_, fun x hx => ?_⟩
    · rw [hsubmit]
      exact ⟨hins, h.partition.insert⟩
    · rw [hsubmit, insertReqSorted_body, hwork]
      exact setWork_body { w with freeSeq := w.next e } hnext hprev
    · rw [hsubmit, insertReqSorted_latestNsecs]
      rfl
    · rw [hwork, hstops x (List.mem_append_left _ (List.mem_of_getLast? hx))]
      exact hbefore x hx
    · rw [hwork, hstops x (List.mem_append_right _ hx)]
      exact hafter x hx

/-! ## The other steps -/

/-- Reclaiming moves the done prefix of the list in flight to the end of the free list. -/
theorem reclaim_spec (h : WorkLists w free io) :
    WorkLists w.reclaim (free ++ io.takeWhile w.isDone) (io.dropWhile w.isDone) := by
  refine ⟨h.chains.reclaim h.partition, Partition.reclaim ?_⟩
  rw [List.takeWhile_append_dropWhile]
  exact h.partition

/-- The array that `NVMEV_IO_WORKER_INIT` sets up is one free list. -/
theorem init_spec : WorkLists init (List.range nrMaxParallelIo) [] := by
  have hlinks : ∀ i, init.next i = if i = nrMaxParallelIo - 1 then noEntry else i + 1 := fun _ => rfl
  have hstart : init.freeSeq = 0 ∧ init.freeSeqEnd = nrMaxParallelIo - 1 := ⟨rfl, rfl⟩
  obtain ⟨n, hn⟩ : ∃ n, nrMaxParallelIo = n + 1 := ⟨16383, rfl⟩
  rw [hn, Nat.add_sub_cancel] at hlinks
  have hcount : ∀ m ≤ n, Seg init.next 0 m (List.range m) := by
    intro m hm
    induction m with
    | zero => rfl
    | succ m ih =>
      rw [List.range_succ, seg_concat, hlinks, if_neg (by omega)]
      exact ⟨ih (by omega), rfl⟩
  refine ⟨⟨?_, ?_, ⟨rfl, rfl⟩, fun e he => by cases he⟩, ?_⟩
  · rw [hn, List.range_succ, hstart.1, seg_concat, hlinks, if_pos rfl]
    exact ⟨hcount n le_rfl, rfl⟩
  · rw [hn, List.range_succ, List.getLast?_concat, hstart.2, hn]
    rfl
  · rw [Partition, List.append_nil]

end NvmevIoWorker

/-! ## Runs -/

/-- What happens to the work queues: the two kinds of submission, the steps of a worker
on its entries, and a reclaim. -/
inductive WorkEvent
  | enqueue (sqid cqid sqEntry commandId nsecsTarget status : Nat)
  | schedule (c : InternalCall)
  | copied (worker entry : Nat)
  | completed (worker entry : Nat)
  | clock (worker nsecs : Nat)
  | reclaim
  deriving DecidableEq, Repr

namespace NvmevDev

variable {σ : Type}

/-- One event on the work queues of a device. -/
def workEvent (dev : NvmevDev σ) : WorkEvent → NvmevDev σ
  | .enqueue sqid cqid sqEntry commandId nsecsTarget status =>
    dev.submitWork sqid fun old =>
      NvmevIoWorker.ioWork old sqid cqid sqEntry commandId nsecsTarget status
  | .schedule c => dev.scheduleInternalOperation c
  | .copied i e =>
    let w := dev.ioWorkers i
    dev.setWorker i (w.setWork e { w.workQueue e with isCopied := true })
  | .completed i e =>
    let w := dev.ioWorkers i
    dev.setWorker i (w.setWork e { w.workQueue e with isCompleted := true })
  | .clock i nsecs => dev.workerClock i nsecs
  | .reclaim => dev.reclaimCompletedReqs

/-- A sequence of events from the initialised workers. -/
def workRun (dev : NvmevDev σ) (evs : List WorkEvent) : NvmevDev σ :=
  evs.foldl workEvent dev.ioWorkerInit

/-- Every worker has its two lists. -/
def WorkListed (dev : NvmevDev σ) : Prop :=
  ∀ i, ∃ free io, WorkLists (dev.ioWorkers i) free io

theorem WorkListed.update {dev : NvmevDev σ} {i : Nat} {w : NvmevIoWorker} (h : dev.WorkListed)
    (hw : ∃ free io, WorkLists w free io) (j : Nat) :
    ∃ free io, WorkLists (Function.update dev.ioWorkers i w j) free io := by
  rcases eq_or_ne j i with rfl | hne
  · rwa [Function.update_self]
  · rw [Function.update_of_ne hne]
    exact h j

theorem WorkListed.submitWork {dev : NvmevDev σ} (h : dev.WorkListed) (sqid : Nat)
    {fill : NvmevIoWork → NvmevIoWork} (hfill : NvmevIoWorker.Clears fill) :
    (dev.submitWork sqid fill).WorkListed := by
  intro j
  rw [submitWork_ioWorkers]
  refine h.update ?_ j
  obtain ⟨free, io, hw⟩ := h (dev.getIoWorker sqid)
  rcases NvmevIoWorker.submit_spec hw hfill with ⟨e, -, heq⟩ | ⟨e, free', before, after, -, -, hs, -⟩
  · exact ⟨free, io, heq.symm ▸ hw⟩
  · exact ⟨free', before ++ e :: after, hs⟩

/-- Every event keeps the lists. -/
theorem WorkListed.workEvent {dev : NvmevDev σ} (h : dev.WorkListed) (ev : WorkEvent) :
    (dev.workEvent ev).WorkListed := by
  cases ev with
  | enqueue sqid cqid sqEntry commandId nsecsTarget status =>
    rw [NvmevDev.workEvent]
    have hfill := NvmevIoWorker.clears_ioWork sqid cqid sqEntry commandId nsecsTarget status
    exact h.submitWork sqid hfill
  | schedule c =>
    rw [NvmevDev.workEvent, scheduleInternalOperation]
    have hfill := NvmevIoWorker.clears_internalWork c.sqid c.nsecsTarget c.writeBuffer
      c.buffsToRelease
    exact h.submitWork c.sqid hfill
  | copied i e =>
    intro j
    obtain ⟨free, io, hw⟩ := h i
    have hset : WorkLists ((dev.ioWorkers i).setWork e
      { (dev.ioWorkers i).workQueue e with isCopied := true }) free io := hw.setWork rfl rfl
    exact h.update ⟨free, io, hset⟩ j
  | completed i e =>
    intro j
    obtain ⟨free, io, hw⟩ := h i
    have hset : WorkLists ((dev.ioWorkers i).setWork e
      { (dev.ioWorkers i).workQueue e with isCompleted := true }) free io := hw.setWork rfl rfl
    exact h.update ⟨free, io, hset⟩ j
  | clock i nsecs =>
    intro j
    obtain ⟨free, io, hw⟩ := h i
    exact h.update ⟨free, io, hw.clock nsecs⟩ j
  | reclaim =>
    intro j
    obtain ⟨free, io, hw⟩ := h j
    change ∃ free io, WorkLists (if j < dev.nrIoWorkers then (dev.ioWorkers j).reclaim
      else dev.ioWorkers j) free io
    split_ifs
    · exact ⟨_, _, NvmevIoWorker.reclaim_spec hw⟩
    · exact ⟨free, io, hw⟩

/-- In every run each entry of a worker is free or in flight, the links thread the two lists,
and reclaiming frees the longest prefix of entries in flight that are done. -/
theorem work_queue_integrity (dev : NvmevDev σ) (evs : List WorkEvent) (i : Nat) :
    let w := (dev.workRun evs).ioWorkers i
    ∃ free io, WorkLists w free io ∧
      WorkLists w.reclaim (free ++ io.takeWhile w.isDone) (io.dropWhile w.isDone) := by
  have hrun : (dev.workRun evs).WorkListed := by
    unfold workRun
    have hinit : dev.ioWorkerInit.WorkListed := fun _ => ⟨_, _, NvmevIoWorker.init_spec⟩
    generalize dev.ioWorkerInit = dev at hinit
    induction evs generalizing dev with
    | nil => exact hinit
    | cons ev evs ih => exact ih _ (hinit.workEvent ev)
  obtain ⟨free, io, h⟩ := hrun i
  exact ⟨free, io, h, NvmevIoWorker.reclaim_spec h⟩

end NvmevDev

end NvmeVirt
