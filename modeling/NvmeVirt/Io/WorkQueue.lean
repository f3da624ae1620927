import NvmeVirt.Io.State
import NvmeVirt.Library.Chain

/-!
# The work queue of an IO worker

A worker's entries live in one array and are threaded into a list of free entries and a
list of entries in flight. The functions here are those of `io.c` on one worker; the
loops over a list carry fuel, and every list is shorter than the array.
-/

namespace NvmeVirt

open Linked

namespace NvmevIoWorker

/-! ## Reading and writing links -/

/-- The link of entry `e` to its successor. -/
def next (w : NvmevIoWorker) (e : Nat) : Nat := (w.workQueue e).next

/-- The link of entry `e` to its predecessor. -/
def prev (w : NvmevIoWorker) (e : Nat) : Nat := (w.workQueue e).prev

/-- Store entry `e`. -/
def setWork (w : NvmevIoWorker) (e : Nat) (work : NvmevIoWork) : NvmevIoWorker :=
  { w with workQueue := Function.update w.workQueue e work }

def setNext (w : NvmevIoWorker) (e n : Nat) : NvmevIoWorker :=
  w.setWork e { w.workQueue e with next := n }

def setPrev (w : NvmevIoWorker) (e n : Nat) : NvmevIoWorker :=
  w.setWork e { w.workQueue e with prev := n }

/-! ## `__insert_req_sorted` -/

/-- The search stops at an entry that is due or whose target is not later. -/
def stopsAt (w : NvmevIoWorker) (nsecsTarget e : Nat) : Bool :=
  (w.workQueue e).nsecsTarget ≤ w.latestNsecs ∨ (w.workQueue e).nsecsTarget ≤ nsecsTarget

/-- The loop of `__insert_req_sorted`: walk backwards until the search stops. -/
def insertSearch (w : NvmevIoWorker) (nsecsTarget : Nat) : Nat → Nat → Nat
  | 0, curr => curr
  | fuel + 1, curr =>
    if curr ≠ noEntry then
      if w.stopsAt nsecsTarget curr then curr else insertSearch w nsecsTarget fuel (w.prev curr)
    else curr

/-- `__insert_req_sorted`. -/
def insertReqSorted (w : NvmevIoWorker) (entry nsecsTarget : Nat) : NvmevIoWorker :=
  if w.ioSeq = noEntry then { w with ioSeq := entry, ioSeqEnd := entry }
  else
    let curr := w.insertSearch nsecsTarget nrMaxParallelIo w.ioSeqEnd
    if curr = noEntry then
      { (w.setPrev w.ioSeq entry).setNext entry w.ioSeq with ioSeq := entry }
    else if w.next curr = noEntry then
      { w.setPrev entry curr with ioSeqEnd := entry }.setNext curr entry
    else
      let w := (w.setPrev entry curr).setNext entry (w.next curr)
      (w.setPrev (w.next entry) entry).setNext curr entry

/-! ## `__allocate_work_queue_entry` and the two callers -/

/-- `__allocate_work_queue_entry` on the worker it selects: the last free entry is never taken. -/
def allocate (w : NvmevIoWorker) : Option (Nat × NvmevIoWorker) :=
  let e := w.freeSeq
  if w.next e ≥ nrMaxParallelIo then none else some (e, { w with freeSeq := w.next e })

/-- The fields that `__enqueue_io_req` writes; the two results are left as they are. -/
def ioWork (old : NvmevIoWork) (sqid cqid sqEntry commandId nsecsTarget status : Nat) :
    NvmevIoWork :=
  { old with
    sqid, cqid, sqEntry, commandId, nsecsTarget, status
    isCompleted := false
    isCopied := false
    prev := noEntry
    next := noEntry
    isInternal := false }

/-- The fields that `schedule_internal_operation` writes. -/
def internalWork (old : NvmevIoWork) (sqid nsecsTarget writeBuffer buffsToRelease : Nat) :
    NvmevIoWork :=
  { old with
    sqid, nsecsTarget, writeBuffer, buffsToRelease
    isCompleted := false
    isCopied := true
    prev := noEntry
    next := noEntry
    isInternal := true }

/-- An entry is taken, filled by `fill` and inserted; without a free entry nothing happens. -/
def submit (w : NvmevIoWorker) (fill : NvmevIoWork → NvmevIoWork) : NvmevIoWorker :=
  match w.allocate with
  | none => w
  | some (e, w) =>
    let work := fill (w.workQueue e)
    (w.setWork e work).insertReqSorted e work.nsecsTarget

/-! ## `__reclaim_completed_reqs` -/

/-- An entry that can be reclaimed. -/
def isDone (w : NvmevIoWorker) (e : Nat) : Bool :=
  (w.workQueue e).isCompleted ∧ (w.workQueue e).isCopied ∧
    (w.workQueue e).nsecsTarget ≤ w.latestNsecs

/-- The loop of `__reclaim_completed_reqs`: the last entry of the prefix that is done. -/
def reclaimScan (w : NvmevIoWorker) : Nat → Nat → Nat → Nat
  | 0, _, last => last
  | fuel + 1, curr, last =>
    if curr ≠ noEntry ∧ w.isDone curr = true then reclaimScan w fuel (w.next curr) curr else last

/-- The loop body of `__reclaim_completed_reqs` for one worker. -/
def reclaim (w : NvmevIoWorker) : NvmevIoWorker :=
  let first := w.ioSeq
  let last := w.reclaimScan nrMaxParallelIo first noEntry
  if last ≠ noEntry then
    let next := w.next last
    let w := { w with ioSeq := next }
    let w := if next ≠ noEntry then w.setPrev next noEntry else w
    let w := w.setNext last noEntry
    let w := w.setPrev first w.freeSeqEnd
    let w := w.setNext w.freeSeqEnd first
    { w with freeSeqEnd := last }
  else w

/-! ## Initialisation -/

/-- The worker that `NVMEV_IO_WORKER_INIT` sets up; the array is zeroed first. -/
def init : NvmevIoWorker :=
  let zero : NvmevIoWork :=
    { sqid := 0, cqid := 0, sqEntry := 0, commandId := 0, nsecsTarget := 0, isCopied := false
      isCompleted := false, status := 0, result0 := 0, result1 := 0, isInternal := false
      writeBuffer := 0, buffsToRelease := 0, next := 0, prev := 0 }
  { workQueue := fun i =>
      { zero with
        next := if i = nrMaxParallelIo - 1 then noEntry else i + 1
        prev := u32Sub i 1 }
    freeSeq := 0
    freeSeqEnd := nrMaxParallelIo - 1
    ioSeq := noEntry
    ioSeqEnd := noEntry
    latestNsecs := 0 }

/-! ## What the writes change -/

section writes

variable (w : NvmevIoWorker) (e n : Nat)

@[simp] theorem setNext_next : (w.setNext e n).next = Function.update w.next e n := by
  ext x : 1
  by_cases h : x = e <;> simp [next, setNext, setWork, h]

@[simp] theorem setNext_prev : (w.setNext e n).prev = w.prev := by
  ext x : 1
  by_cases h : x = e <;> simp [prev, setNext, setWork, h]

@[simp] theorem setPrev_prev : (w.setPrev e n).prev = Function.update w.prev e n := by
  ext x : 1
  by_cases h : x = e <;> simp [prev, setPrev, setWork, h]

@[simp] theorem setPrev_next : (w.setPrev e n).next = w.next := by
  ext x : 1
  by_cases h : x = e <;> simp [next, setPrev, setWork, h]

@[simp] theorem setWork_next (work : NvmevIoWork) :
    (w.setWork e work).next = Function.update w.next e work.next := by
  ext x : 1
  by_cases h : x = e <;> simp [next, setWork, h]

@[simp] theorem setWork_prev (work : NvmevIoWork) :
    (w.setWork e work).prev = Function.update w.prev e work.prev := by
  ext x : 1
  by_cases h : x = e <;> simp [prev, setWork, h]

@[simp] theorem setNext_freeSeq : (w.setNext e n).freeSeq = w.freeSeq := rfl
@[simp] theorem setNext_freeSeqEnd : (w.setNext e n).freeSeqEnd = w.freeSeqEnd := rfl
@[simp] theorem setNext_ioSeq : (w.setNext e n).ioSeq = w.ioSeq := rfl
@[simp] theorem setNext_ioSeqEnd : (w.setNext e n).ioSeqEnd = w.ioSeqEnd := rfl
@[simp] theorem setNext_latestNsecs : (w.setNext e n).latestNsecs = w.latestNsecs := rfl
@[simp] theorem setPrev_freeSeq : (w.setPrev e n).freeSeq = w.freeSeq := rfl
@[simp] theorem setPrev_freeSeqEnd : (w.setPrev e n).freeSeqEnd = w.freeSeqEnd := rfl
@[simp] theorem setPrev_ioSeq : (w.setPrev e n).ioSeq = w.ioSeq := rfl
@[simp] theorem setPrev_ioSeqEnd : (w.setPrev e n).ioSeqEnd = w.ioSeqEnd := rfl
@[simp] theorem setPrev_latestNsecs : (w.setPrev e n).latestNsecs = w.latestNsecs := rfl

end writes

/-- An entry without its links. -/
def body (w : NvmevIoWorker) (e : Nat) : NvmevIoWork :=
  { w.workQueue e with next := noEntry, prev := noEntry }

@[simp] theorem setNext_body (w : NvmevIoWorker) (e n : Nat) : (w.setNext e n).body = w.body := by
  ext x : 1
  by_cases h : x = e <;> simp [body, setNext, setWork, h]

@[simp] theorem setPrev_body (w : NvmevIoWorker) (e n : Nat) : (w.setPrev e n).body = w.body := by
  ext x : 1
  by_cases h : x = e <;> simp [body, setPrev, setWork, h]

/-- The body of an entry that is stored with cleared links. -/
theorem setWork_body (w : NvmevIoWorker) {e : Nat} {work : NvmevIoWork}
    (hnext : work.next = noEntry) (hprev : work.prev = noEntry) :
    (w.setWork e work).body = Function.update w.body e work := by
  ext x : 1
  by_cases h : x = e
  · subst h
    cases work
    simp only at hnext hprev
    simp [body, setWork, hnext, hprev]
  · simp [body, setWork, h]

@[simp] theorem insertReqSorted_latestNsecs (w : NvmevIoWorker) (entry nsecsTarget : Nat) :
    (w.insertReqSorted entry nsecsTarget).latestNsecs = w.latestNsecs := by
  unfold insertReqSorted
  simp only
  split_ifs <;> rfl

@[simp] theorem reclaim_latestNsecs (w : NvmevIoWorker) :
    w.reclaim.latestNsecs = w.latestNsecs := by
  unfold reclaim
  simp only
  split_ifs <;> rfl

/-- Inserting an entry changes no entry but for the links. -/
@[simp] theorem insertReqSorted_body (w : NvmevIoWorker) (entry nsecsTarget : Nat) :
    (w.insertReqSorted entry nsecsTarget).body = w.body := by
  unfold insertReqSorted
  simp only
  split_ifs
  · rfl
  · exact (setNext_body _ _ _).trans (setPrev_body _ _ _)
  · rw [setNext_body]
    exact setPrev_body _ _ _
  · rw [setNext_body, setPrev_body, setNext_body, setPrev_body]

/-- Reclaiming changes no entry but for the links. -/
@[simp] theorem reclaim_body (w : NvmevIoWorker) : w.reclaim.body = w.body := by
  unfold reclaim
  simp only
  split_ifs
  · refine (setNext_body _ _ _).trans ((setPrev_body _ _ _).trans ((setNext_body _ _ _).trans ?_))
    exact setPrev_body _ _ _
  · exact (setNext_body _ _ _).trans ((setPrev_body _ _ _).trans (setNext_body _ _ _))
  · rfl

end NvmevIoWorker

end NvmeVirt
