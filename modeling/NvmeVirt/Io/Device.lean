import NvmeVirt.Io.WorkQueue

/-!
# Dispatcher and workers

The functions of `io.c` on the device, and the part of `nvmev_proc_dbs` for one
submission queue. A namespace enters through its command handler and through the
release of its write buffer.
-/

namespace NvmeVirt

open Checked

/-- The accesses that the kernel does not survive. -/
inductive DevFault
  | nullQueue
  | outOfRange
  | bug
  deriving DecidableEq, Repr

/-- The arguments of one call of `schedule_internal_operation`. -/
structure InternalCall where
  sqid : Nat
  nsecsTarget : Nat
  writeBuffer : Nat
  buffsToRelease : Nat
  deriving DecidableEq, Repr

/-- What a call of `proc_io_cmd` does: its result, `struct nvmev_result`, the internal
operations it schedules and the new state of the namespaces. -/
structure ProcResult (σ : Type) where
  accepted : Bool
  status : Nat
  nsecsTarget : Nat
  internal : List InternalCall
  ns : σ

/-- The functions of the namespaces: `proc_io_cmd` on a command, its queue number and the
time of its arrival, and `buffer_release`. -/
structure NsOps (σ : Type) where
  procIoCmd : σ → NvmeSqe → Nat → Nat → ProcResult σ
  bufferRelease : σ → Nat → Nat → σ

/-- The counters of a queue after one more command of `ioSize` bytes. -/
def NvmevSqStat.dispatched (s : NvmevSqStat) (ioSize : Nat) : NvmevSqStat :=
  { s with
    nrDispatched := u32 (s.nrDispatched + 1)
    nrInFlight := u32 (s.nrInFlight + 1)
    totalIo := u64 (s.totalIo + ioSize) }

/-- The counters of a queue after a poll; `max_t(int, ..)` compares the two as `int`. -/
def NvmevSqStat.polled (s : NvmevSqStat) : NvmevSqStat :=
  { s with
    nrDispatch := u32 (s.nrDispatch + 1)
    maxNrInFlight :=
      if asInt s.maxNrInFlight < asInt s.nrInFlight then s.nrInFlight else s.maxNrInFlight }

/-- The critical section of `__fill_cq_result`. -/
def NvmevCompletionQueue.post (cq : NvmevCompletionQueue) (w : NvmevIoWork) :
    NvmevCompletionQueue :=
  let cqe : NvmeCompletion :=
    { commandId := w.commandId
      sqId := w.sqid
      sqHead := w.sqEntry
      status := cqeStatus cq.phase w.status
      result0 := w.result0
      result1 := w.result1 }
  let wraps := cq.cqHead + 1 = cq.queueSize
  { cq with
    cq := Function.update cq.cq cq.cqHead cqe
    phase := if wraps then !cq.phase else cq.phase
    cqHead := if wraps then 0 else cq.cqHead + 1
    interruptReady := true }

/-- The end of `nvmev_proc_io_cq`: the position of the consumer is stored. -/
def NvmevCompletionQueue.storeTail (cq : NvmevCompletionQueue) (newDb : Int) :
    NvmevCompletionQueue :=
  { cq with cqTail := if newDb = -1 then (cq.queueSize : Int) - 1 else newDb - 1 }

@[simp] theorem NvmevCompletionQueue.storeTail_queueSize (cq : NvmevCompletionQueue) (newDb : Int) :
    (cq.storeTail newDb).queueSize = cq.queueSize := rfl

/-- A poll of a submission queue: the state, the queue, the slots of the entries processed in
order (`seq` is their number) and the slot of the entry that was rejected. -/
structure SqProgress (σ : Type) where
  dev : NvmevDev σ
  sq : NvmevSubmissionQueue
  processed : List Nat
  rejected : Option Nat

namespace NvmevDev

variable {σ : Type}

/-- Store worker `i`. -/
def setWorker (dev : NvmevDev σ) (i : Nat) (w : NvmevIoWorker) : NvmevDev σ :=
  { dev with ioWorkers := Function.update dev.ioWorkers i w }

/-- Store submission queue `qid`. -/
def setSq (dev : NvmevDev σ) (qid : Nat) (sq : NvmevSubmissionQueue) : NvmevDev σ :=
  { dev with sqes := Function.update dev.sqes qid (some sq) }

/-- Store completion queue `qid`. -/
def setCq (dev : NvmevDev σ) (qid : Nat) (cq : NvmevCompletionQueue) : NvmevDev σ :=
  { dev with cqes := Function.update dev.cqes qid (some cq) }

/-- Dereference `sqes[qid]`. -/
def getSq (dev : NvmevDev σ) (qid : Nat) : Except DevFault NvmevSubmissionQueue :=
  if qid ≤ nrMaxIoQueue then
    match dev.sqes qid with
    | some sq => .ok sq
    | none => .error .nullQueue
  else .error .outOfRange

/-- Dereference `cqes[qid]`. -/
def getCq (dev : NvmevDev σ) (qid : Nat) : Except DevFault NvmevCompletionQueue :=
  if qid ≤ nrMaxIoQueue then
    match dev.cqes qid with
    | some cq => .ok cq
    | none => .error .nullQueue
  else .error .outOfRange

/-! ## Work queue entries -/

/-- `__get_io_worker` with `CONFIG_NVMEV_IO_WORKER_BY_SQ`. -/
def getIoWorker (dev : NvmevDev σ) (sqid : Nat) : Nat :=
  u32Sub sqid 1 % dev.nrIoWorkers

/-- `__allocate_work_queue_entry`: the worker, the entry and the new state. -/
def allocateWorkQueueEntry (dev : NvmevDev σ) (sqid : Nat) : Option (Nat × Nat × NvmevDev σ) :=
  let turn := dev.getIoWorker sqid
  match (dev.ioWorkers turn).allocate with
  | none => none
  | some (e, w) =>
    let next := if turn + 1 = dev.nrIoWorkers then 0 else turn + 1
    some (turn, e, { dev.setWorker turn w with ioWorkerTurn := next })

/-- Allocate an entry, fill it and insert it; without a free entry nothing happens. -/
def submitWork (dev : NvmevDev σ) (sqid : Nat) (fill : NvmevIoWork → NvmevIoWork) : NvmevDev σ :=
  match dev.allocateWorkQueueEntry sqid with
  | none => dev
  | some (turn, e, dev) =>
    let w := dev.ioWorkers turn
    let work := fill (w.workQueue e)
    dev.setWorker turn ((w.setWork e work).insertReqSorted e work.nsecsTarget)

/-- Submitting changes one worker. -/
theorem submitWork_ioWorkers (dev : NvmevDev σ) (sqid : Nat) (fill : NvmevIoWork → NvmevIoWork) :
    (dev.submitWork sqid fill).ioWorkers = Function.update dev.ioWorkers (dev.getIoWorker sqid)
      ((dev.ioWorkers (dev.getIoWorker sqid)).submit fill) := by
  cases hw : (dev.ioWorkers (dev.getIoWorker sqid)).allocate with
  | none =>
    simp only [submitWork, allocateWorkQueueEntry, NvmevIoWorker.submit, hw]
    exact (Function.update_eq_self (dev.getIoWorker sqid) dev.ioWorkers).symm
  | some p =>
    obtain ⟨e, w⟩ := p
    simp only [submitWork, allocateWorkQueueEntry, NvmevIoWorker.submit, hw, setWorker,
      Function.update_self, Function.update_idem]

/-- Submitting changes nothing but the workers. -/
theorem submitWork_eq (dev : NvmevDev σ) (sqid : Nat) (fill : NvmevIoWork → NvmevIoWork) :
    ∃ ws turn, dev.submitWork sqid fill = { dev with ioWorkers := ws, ioWorkerTurn := turn } := by
  cases hw : (dev.ioWorkers (dev.getIoWorker sqid)).allocate with
  | none =>
    refine ⟨dev.ioWorkers, dev.ioWorkerTurn, ?_⟩
    simp only [submitWork, allocateWorkQueueEntry, hw]
  | some p =>
    refine ⟨(dev.submitWork sqid fill).ioWorkers, (dev.submitWork sqid fill).ioWorkerTurn, ?_⟩
    simp only [submitWork, allocateWorkQueueEntry, hw, setWorker]

/-- `__enqueue_io_req` for the command in slot `sqEntry` of queue `sq`. -/
def enqueueIoReq (dev : NvmevDev σ) (sqid : Nat) (sq : NvmevSubmissionQueue) (sqEntry : Nat)
    (ret : ProcResult σ) : NvmevDev σ :=
  dev.submitWork sqid fun old =>
    NvmevIoWorker.ioWork old sqid sq.cqid sqEntry (sq.sq sqEntry).commandId ret.nsecsTarget
      ret.status

/-- `schedule_internal_operation`. -/
def scheduleInternalOperation (dev : NvmevDev σ) (c : InternalCall) : NvmevDev σ :=
  dev.submitWork c.sqid fun old =>
    NvmevIoWorker.internalWork old c.sqid c.nsecsTarget c.writeBuffer c.buffsToRelease

/-- `__reclaim_completed_reqs`: the workers share nothing. -/
def reclaimCompletedReqs (dev : NvmevDev σ) : NvmevDev σ :=
  { dev with
    ioWorkers := fun i => if i < dev.nrIoWorkers then (dev.ioWorkers i).reclaim else dev.ioWorkers i }

/-- `NVMEV_IO_WORKER_INIT`. -/
def ioWorkerInit (dev : NvmevDev σ) : NvmevDev σ :=
  { dev with ioWorkers := fun _ => NvmevIoWorker.init, ioWorkerTurn := 0 }

/-! ## Dispatching -/

variable (ops : NsOps σ)

/-- `__nvmev_proc_io`: whether the command in slot `sqEntry` is accepted. -/
def nvmevProcIo (dev : NvmevDev σ) (sqid : Nat) (sq : NvmevSubmissionQueue) (sqEntry : Nat) :
    Bool × NvmevDev σ :=
  let (nsecsStart, clock) := dev.clock.read
  let ret := ops.procIoCmd dev.ns (sq.sq sqEntry) sqid nsecsStart
  let dev := { dev with clock := clock, ns := ret.ns }
  let dev := ret.internal.foldl scheduleInternalOperation dev
  if ret.accepted = true then
    (true, (dev.enqueueIoReq sqid sq sqEntry ret).reclaimCompletedReqs)
  else (false, dev)

/-- The loop of `nvmev_proc_io_sq` over `n` entries from slot `sqEntry` on. -/
def procIoSqLoop (sqid : Nat) :
    Nat → NvmevDev σ → NvmevSubmissionQueue → Nat → SqProgress σ
  | 0, dev, sq, _ => { dev, sq, processed := [], rejected := none }
  | n + 1, dev, sq, sqEntry =>
    let (accepted, dev) := nvmevProcIo ops dev sqid sq sqEntry
    if accepted = true then
      let next := if sqEntry + 1 = sq.queueSize then 0 else sqEntry + 1
      let stat := sq.stat.dispatched (lbaToByte ((sq.sq sqEntry).length + 1))
      let r := procIoSqLoop sqid n dev { sq with stat } next
      { r with processed := sqEntry :: r.processed }
    else { dev, sq, processed := [], rejected := some sqEntry }

/-- `nvmev_proc_io_sq`: the new value of the old doorbell and what the loop did. -/
def nvmevProcIoSq (dev : NvmevDev σ) (sqid newDb oldDb : Nat) : Nat × SqProgress σ :=
  match dev.sqes sqid with
  | none => (oldDb, { dev, sq := default, processed := [], rejected := none })
  | some sq =>
    let numProc : Int := (newDb : Int) - oldDb
    let numProc := if numProc < 0 then numProc + sq.queueSize else numProc
    let r := procIoSqLoop ops sqid numProc.toNat dev sq oldDb
    let sq := { r.sq with stat := r.sq.stat.polled }
    ((oldDb + r.processed.length) % sq.queueSize, { r with dev := r.dev.setSq sqid sq, sq })

/-- The body of the loop of `nvmev_proc_dbs` over the submission queues. -/
def procSqDb (dev : NvmevDev σ) (qid : Nat) : SqProgress σ :=
  let newDb := dev.dbs (qid * 2)
  let oldDb := dev.oldDbs (qid * 2)
  if (dev.sqes qid).isSome ∧ newDb ≠ oldDb then
    let (latest, r) := nvmevProcIoSq ops dev qid newDb oldDb
    { r with dev := { r.dev with oldDbs := Function.update r.dev.oldDbs (qid * 2) latest } }
  else { dev, sq := default, processed := [], rejected := none }

/-- The loop of `nvmev_proc_io_cq` from slot `i` on: behind the last slot it goes on with slot 0.
It may run forever, so it carries fuel. -/
def procIoCqLoop (cq : NvmevCompletionQueue) (newDb : Nat) :
    Nat → Nat → (Nat → Option NvmevSubmissionQueue) →
      Except DevFault (Option (Nat → Option NvmevSubmissionQueue))
  | 0, _, _ => .ok none
  | fuel + 1, i, sqes =>
    if i = newDb then .ok (some sqes)
    else if cq.queueSize ≤ i then procIoCqLoop cq newDb fuel 0 sqes
    else do
      let sqid := (cq.cq i).sqId
      require (sqid ≤ nrMaxIoQueue) .outOfRange
      match sqes sqid with
      | none => procIoCqLoop cq newDb fuel (i + 1) sqes
      | some sq =>
        let stat := { sq.stat with nrInFlight := u32Sub sq.stat.nrInFlight 1 }
        procIoCqLoop cq newDb fuel (i + 1) (Function.update sqes sqid (some { sq with stat }))

/-- The body of the loop of `nvmev_proc_dbs` over the completion queues, with `nvmev_proc_io_cq`. -/
def procCqDb (dev : NvmevDev σ) (fuel qid : Nat) : Except DevFault (Option (NvmevDev σ)) :=
  let newDb := dev.dbs (qid * 2 + 1)
  let oldDb := dev.oldDbs (qid * 2 + 1)
  match dev.cqes qid with
  | none => .ok (some dev)
  | some cq =>
    if newDb = oldDb then .ok (some dev)
    else do
      match ← procIoCqLoop cq newDb fuel oldDb dev.sqes with
      | none => return none
      | some sqes =>
        let dev := { dev with sqes, oldDbs := Function.update dev.oldDbs (qid * 2 + 1) newDb }
        return some (dev.setCq qid (cq.storeTail (asInt newDb)))

/-! ## Completing -/

/-- `__fill_cq_result`. -/
def fillCqResult (dev : NvmevDev σ) (w : NvmevIoWork) : Except DevFault (NvmevDev σ) := do
  let cq ← dev.getCq w.cqid
  return dev.setCq w.cqid (cq.post w)

/-- The copy of `nvmev_io_worker`: worker `i` copies the data of the entry `curr` that is not
copied yet. The result is the command that `__do_perform_io` reads. -/
def workerCopy (dev : NvmevDev σ) (i curr : Nat) :
    Except DevFault (Option NvmeSqe × NvmevDev σ) := do
  let w := dev.ioWorkers i
  let work := w.workQueue curr
  let dev := dev.setWorker i (w.setWork curr { work with isCopied := true })
  if work.isInternal = true then return (none, dev)
  else
    let sq ← dev.getSq work.sqid
    return (some (sq.sq work.sqEntry), dev)

/-- The completion of `nvmev_io_worker`: worker `i` completes the entry `curr`. -/
def workerComplete (dev : NvmevDev σ) (i curr : Nat) : Except DevFault (NvmevDev σ) := do
  let w := dev.ioWorkers i
  let work := w.workQueue curr
  let dev ← if work.isInternal = true then
      .ok { dev with ns := ops.bufferRelease dev.ns work.writeBuffer work.buffsToRelease }
    else dev.fillCqResult work
  return dev.setWorker i (w.setWork curr { work with isCompleted := true })

/-- The rest of the loop body: note the time. -/
def workerClock (dev : NvmevDev σ) (i nsecs : Nat) : NvmevDev σ :=
  dev.setWorker i { dev.ioWorkers i with latestNsecs := nsecs }

end NvmevDev

end NvmeVirt
