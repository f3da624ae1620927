import NvmeVirt.Io.InFlight

/-!
# The loop of an IO worker

`nvmev_io_worker` walks over its entries in flight: it copies the data of an entry once, and
completes the entry as soon as its time has come. The dispatcher submits and reclaims entries
between any two steps of the walk, also the entry that the worker stands on. Every request is still
served once.
-/

namespace NvmeVirt

open Linked

/-! ## One entry -/

/-- What a worker does for a request: `__do_perform_io` or its DMA variant, `__fill_cq_result` and
`buffer_release`. A completion has its time. -/
inductive WorkerEffect
  | copy (req : NvmevIoWork)
  | fill (req : NvmevIoWork) (nsecs : Nat)
  | release (req : NvmevIoWork) (nsecs : Nat)
  deriving DecidableEq

namespace NvmevIoWork

/-- The request of an entry: what its submitter wrote, without the flags and the links. -/
def request (work : NvmevIoWork) : NvmevIoWork :=
  { work with isCopied := false, isCompleted := false, next := noEntry, prev := noEntry }

/-- What the worker does for an entry at the time `nsecs`. -/
def effects (work : NvmevIoWork) (nsecs : Nat) : List WorkerEffect :=
  if work.isCompleted = true then []
  else
    (if work.isCopied = false ∧ work.isInternal = false then [.copy work.request] else []) ++
    if work.nsecsTarget ≤ nsecs then
      [if work.isInternal = true then .release work.request nsecs else .fill work.request nsecs]
    else []

/-- The entry behind it. -/
def served (work : NvmevIoWork) (nsecs : Nat) : NvmevIoWork :=
  if work.isCompleted = true then work
  else { work with isCopied := true, isCompleted := decide (work.nsecsTarget ≤ nsecs) }

section served

variable {work : NvmevIoWork} (nsecs : Nat)

/-- A completed entry is left alone. -/
theorem effects_completed (h : work.isCompleted = true) : work.effects nsecs = [] := by
  rw [effects, if_pos h]

theorem served_completed (h : work.isCompleted = true) : work.served nsecs = work := by
  rw [served, if_pos h]

theorem effects_open (h : work.isCompleted = false) : work.effects nsecs =
    (if work.isCopied = false ∧ work.isInternal = false then [.copy work.request] else []) ++
    if work.nsecsTarget ≤ nsecs then
      [if work.isInternal = true then .release work.request nsecs else .fill work.request nsecs]
    else [] := by
  rw [effects, if_neg (Bool.eq_false_iff.mp h)]

theorem served_open (h : work.isCompleted = false) : work.served nsecs =
    { work with isCopied := true, isCompleted := decide (work.nsecsTarget ≤ nsecs) } := by
  rw [served, if_neg (Bool.eq_false_iff.mp h)]

@[simp] theorem served_request : (work.served nsecs).request = work.request := by
  cases h : work.isCompleted with
  | true => rw [served_completed nsecs h]
  | false => rw [served_open nsecs h]; rfl

@[simp] theorem served_next : (work.served nsecs).next = work.next := by
  cases h : work.isCompleted with
  | true => rw [served_completed nsecs h]
  | false => rw [served_open nsecs h]

@[simp] theorem served_prev : (work.served nsecs).prev = work.prev := by
  cases h : work.isCompleted with
  | true => rw [served_completed nsecs h]
  | false => rw [served_open nsecs h]

/-- The links take no part. -/
theorem served_links (n p : Nat) : { work.served nsecs with next := n, prev := p } =
    { work with next := n, prev := p }.served nsecs := by
  unfold served
  dsimp only
  split <;> rfl

end served

end NvmevIoWork

/-- The body of the inner loop of `nvmev_io_worker` on the entry `curr`, up to the step to the next
entry. -/
def NvmevIoWorker.serve (w : NvmevIoWorker) (curr nsecs : Nat) : NvmevIoWorker :=
  { w with latestNsecs := nsecs }.setWork curr ((w.workQueue curr).served nsecs)

namespace NvmevDev

variable {σ : Type} (ops : NsOps σ)

/-- The first half of the loop body: the data of an entry is copied once. -/
def workerCopyOnce (dev : NvmevDev σ) (i curr : Nat) : Except DevFault (NvmevDev σ) :=
  if ((dev.ioWorkers i).workQueue curr).isCopied = false then do
    let (_, dev) ← dev.workerCopy i curr
    return dev
  else return dev

/-- The second half: the entry is completed when its time has come. -/
def workerCompleteDue (dev : NvmevDev σ) (i curr nsecs : Nat) : Except DevFault (NvmevDev σ) :=
  if ((dev.ioWorkers i).workQueue curr).nsecsTarget ≤ nsecs then dev.workerComplete ops i curr
  else return dev

/-- The body of the inner loop of `nvmev_io_worker`, for worker `i`. -/
def workerServe (dev : NvmevDev σ) (i curr nsecs : Nat) : Except DevFault (NvmevDev σ) :=
  let dev := dev.workerClock i nsecs
  if ((dev.ioWorkers i).workQueue curr).isCompleted = true then return dev
  else do
    let dev ← dev.workerCopyOnce i curr
    dev.workerCompleteDue ops i curr nsecs

/-- What an effect does to the rest of the device; the copy only reads the command. -/
def perform (dev : NvmevDev σ) : WorkerEffect → Except DevFault (NvmevDev σ)
  | .copy req => do
    let _ ← dev.getSq req.sqid
    return dev
  | .fill req _ => dev.fillCqResult req
  | .release req _ =>
    return { dev with ns := ops.bufferRelease dev.ns req.writeBuffer req.buffsToRelease }

/-- What a worker does for an entry depends on its request only. -/
theorem perform_request (dev : NvmevDev σ) (work : NvmevIoWork) (nsecs : Nat) :
    perform ops dev (.copy work.request) = (do let _ ← dev.getSq work.sqid; return dev) ∧
    perform ops dev (.fill work.request nsecs) = dev.fillCqResult work ∧
    perform ops dev (.release work.request nsecs) = .ok { dev with
      ns := ops.bufferRelease dev.ns work.writeBuffer work.buffsToRelease } :=
  ⟨rfl, rfl, rfl⟩

@[simp] theorem setWorker_setWorker (dev : NvmevDev σ) (i : Nat) (w w' : NvmevIoWorker) :
    (dev.setWorker i w).setWorker i w' = dev.setWorker i w' := by
  simp only [setWorker, Function.update_idem]

@[simp] theorem setWorker_ioWorkers (dev : NvmevDev σ) (i : Nat) (w : NvmevIoWorker) :
    (dev.setWorker i w).ioWorkers i = w := by
  simp only [setWorker, Function.update_self]

/-- The completion of a device with another worker. -/
theorem fillCqResult_setWorker (dev : NvmevDev σ) (i : Nat) (w w' : NvmevIoWorker)
    (work : NvmevIoWork) :
    (do let d ← (dev.setWorker i w).fillCqResult work; return d.setWorker i w') =
      (do let d ← dev.fillCqResult work; return d.setWorker i w' : Except DevFault _) := by
  have hget : (dev.setWorker i w).getCq work.cqid = dev.getCq work.cqid := rfl
  unfold fillCqResult
  rw [hget]
  cases dev.getCq work.cqid with
  | error fault => rfl
  | ok cq =>
    change Except.ok (((dev.setWorker i w).setCq work.cqid (cq.post work)).setWorker i w') =
      Except.ok ((dev.setCq work.cqid (cq.post work)).setWorker i w')
    simp only [setWorker, setCq, Function.update_idem]

/-- The completion of an entry, when nothing else is left to do. -/
theorem workerComplete_setWorker (dev : NvmevDev σ) (i curr nsecs : Nat) (w : NvmevIoWorker) :
    (dev.setWorker i w).workerComplete ops i curr = do
      let dev' ← perform ops dev
        (if (w.workQueue curr).isInternal = true then .release (w.workQueue curr).request nsecs
          else .fill (w.workQueue curr).request nsecs)
      return dev'.setWorker i (w.setWork curr { w.workQueue curr with isCompleted := true }) := by
  obtain ⟨-, hfill, hrelease⟩ := perform_request ops dev (w.workQueue curr) nsecs
  unfold workerComplete
  simp only [setWorker_ioWorkers]
  cases hint : (w.workQueue curr).isInternal with
  | true =>
    rw [if_pos rfl, if_pos rfl, hrelease]
    change Except.ok (setWorker { dev.setWorker i w with ns := _ } i _) = Except.ok _
    simp only [setWorker, Function.update_idem]
  | false =>
    rw [if_neg Bool.false_ne_true, if_neg Bool.false_ne_true, hfill]
    exact fillCqResult_setWorker dev i w _ _

/-- The copy of an entry. -/
theorem workerCopyOnce_setWorker (dev : NvmevDev σ) (i curr : Nat) (w : NvmevIoWorker) :
    (dev.setWorker i w).workerCopyOnce i curr = do
      let dev' ← (if (w.workQueue curr).isCopied = false ∧ (w.workQueue curr).isInternal = false
        then [WorkerEffect.copy (w.workQueue curr).request] else []).foldlM (perform ops) dev
      return dev'.setWorker i (w.setWork curr { w.workQueue curr with isCopied := true }) := by
  unfold workerCopyOnce workerCopy
  simp only [setWorker_ioWorkers, setWorker_setWorker]
  cases hcopied : (w.workQueue curr).isCopied with
  | true =>
    have hself : { w.workQueue curr with isCopied := true } = w.workQueue curr := by
      rw [← hcopied]
    rw [if_neg Bool.noConfusion, if_neg fun h => Bool.noConfusion h.1, hself, List.foldlM_nil]
    simp only [NvmevIoWorker.setWork, Function.update_eq_self]
    rfl
  | false =>
    cases hint : (w.workQueue curr).isInternal with
    | true => rfl
    | false =>
      obtain ⟨hcopy, -, -⟩ := perform_request ops dev (w.workQueue curr) 0
      have hget : (dev.setWorker i w).getSq (w.workQueue curr).sqid =
          dev.getSq (w.workQueue curr).sqid := rfl
      simp only [true_and, if_true, List.foldlM_cons, hcopy]
      change (do
        let x ← (do
          let sq ← dev.getSq (w.workQueue curr).sqid
          return (some (sq.sq (w.workQueue curr).sqEntry), dev.setWorker i _))
        return x.2 : Except DevFault _) = _
      cases dev.getSq (w.workQueue curr).sqid <;> rfl

/-- The device serves an entry by its effects and by a store into the work queue. -/
theorem workerServe_eq (dev : NvmevDev σ) (i curr nsecs : Nat) :
    dev.workerServe ops i curr nsecs = do
      let dev' ← (((dev.ioWorkers i).workQueue curr).effects nsecs).foldlM (perform ops) dev
      return dev'.setWorker i ((dev.ioWorkers i).serve curr nsecs) := by
  unfold workerServe workerClock NvmevIoWorker.serve
  dsimp only
  rw [setWorker_ioWorkers]
  generalize dev.ioWorkers i = w
  have hqueue : { w with latestNsecs := nsecs }.workQueue curr = w.workQueue curr := rfl
  rw [hqueue]
  cases hdone : (w.workQueue curr).isCompleted with
  | true =>
    rw [if_pos rfl, NvmevIoWork.effects_completed nsecs hdone,
      NvmevIoWork.served_completed nsecs hdone, List.foldlM_nil]
    simp only [NvmevIoWorker.setWork, Function.update_eq_self]
    rfl
  | false =>
    rw [workerCopyOnce_setWorker ops, hqueue]
    rw [NvmevIoWork.effects_open nsecs hdone, NvmevIoWork.served_open nsecs hdone,
      List.foldlM_append, if_neg Bool.noConfusion]
    generalize (if (w.workQueue curr).isCopied = false ∧ (w.workQueue curr).isInternal = false
      then [WorkerEffect.copy (w.workQueue curr).request] else []).foldlM (perform ops) dev = copied
    cases copied with
    | error fault => rfl
    | ok dev' =>
      have hcomplete := workerComplete_setWorker ops dev' i curr nsecs
        ({ w with latestNsecs := nsecs }.setWork curr { w.workQueue curr with isCopied := true })
      simp only [NvmevIoWorker.setWork, Function.update_self, Function.update_idem] at hcomplete
      change (dev'.setWorker i _).workerCompleteDue ops i curr nsecs = _
      unfold workerCompleteDue
      simp only [setWorker_ioWorkers, NvmevIoWorker.setWork, Function.update_self]
      by_cases hdue : (w.workQueue curr).nsecsTarget ≤ nsecs
      · simp only [hdue, if_true, decide_true, List.foldlM_cons, List.foldlM_nil, bind_pure]
        exact hcomplete
      · simp only [hdue, if_false, decide_false, List.foldlM_nil, ← hdone]
        rfl

end NvmevDev

/-! ## The walk -/

/-- A worker in its inner loop with the local variable `curr`. For the proof every request that
found an entry has a number: `given` are the requests, `ticket` is the number of the request in an
entry, and `log` is what the worker has done for which request. -/
structure WorkerLoop where
  worker : NvmevIoWorker
  curr : Nat
  given : List NvmevIoWork
  ticket : Nat → Nat
  log : List (Nat × WorkerEffect)

/-- The steps of the worker in its loop and of the dispatcher beside it: the two submissions, a
reclaim, `curr = worker->io_seq`, the loop body and `curr = w->next`. -/
inductive WorkerEvent
  | enqueue (sqid cqid sqEntry commandId nsecsTarget status : Nat)
  | schedule (c : InternalCall)
  | reclaim
  | start
  | serve (nsecs : Nat)
  | advance
  deriving DecidableEq, Repr

namespace WorkerLoop

/-- The worker that `NVMEV_IO_WORKER_INIT` starts. -/
def init : WorkerLoop :=
  { worker := NvmevIoWorker.init, curr := noEntry, given := [], ticket := fun _ => 0, log := [] }

/-- A submission; a request that finds no entry gets no number. -/
def submit (s : WorkerLoop) (fill : NvmevIoWork → NvmevIoWork) : WorkerLoop :=
  match s.worker.allocate with
  | none => s
  | some (e, _) =>
    { s with
      worker := s.worker.submit fill
      given := s.given ++ [(fill (s.worker.workQueue e)).request]
      ticket := Function.update s.ticket e s.given.length }

/-- The loop body at `curr`. -/
def serve (s : WorkerLoop) (nsecs : Nat) : WorkerLoop :=
  { s with
    worker := s.worker.serve s.curr nsecs
    log := s.log ++ ((s.worker.workQueue s.curr).effects nsecs).map fun x => (s.ticket s.curr, x) }

/-- One event. The walk starts anew when it has come to its end. -/
def step (s : WorkerLoop) : WorkerEvent → WorkerLoop
  | .enqueue sqid cqid sqEntry commandId nsecsTarget status =>
    s.submit fun old => NvmevIoWorker.ioWork old sqid cqid sqEntry commandId nsecsTarget status
  | .schedule c =>
    s.submit fun old =>
      NvmevIoWorker.internalWork old c.sqid c.nsecsTarget c.writeBuffer c.buffsToRelease
  | .reclaim => { s with worker := s.worker.reclaim }
  | .start => if s.curr = noEntry then { s with curr := s.worker.ioSeq } else s
  | .serve nsecs => if s.curr = noEntry then s else s.serve nsecs
  | .advance => if s.curr = noEntry then s else { s with curr := s.worker.next s.curr }

/-- A sequence of events. -/
def run (s : WorkerLoop) (evs : List WorkerEvent) : WorkerLoop := evs.foldl step s

/-- What the worker has done for request `n`. -/
def history (s : WorkerLoop) (n : Nat) : List WorkerEffect :=
  s.log.filterMap fun x => if x.1 = n then some x.2 else none

end WorkerLoop

/-- Everything is done for a request, once and not before its time. -/
def NvmevIoWork.Answered (req : NvmevIoWork) (h : List WorkerEffect) : Prop :=
  ∃ nsecs, req.nsecsTarget ≤ nsecs ∧
    h = if req.isInternal = true then [.release req nsecs] else [.copy req, .fill req nsecs]

/-- What has been done for the request of an entry in flight, by the flags of the entry. -/
def NvmevIoWork.Progress (work : NvmevIoWork) (h : List WorkerEffect) : Prop :=
  if work.isCompleted = true then work.request.Answered h
  else h = if work.isCopied = true ∧ work.isInternal = false then [.copy work.request] else []

/-- The loop body does what is missing. -/
theorem NvmevIoWork.Progress.served {work : NvmevIoWork} {h : List WorkerEffect}
    (hp : work.Progress h) (nsecs : Nat) : (work.served nsecs).Progress (h ++ work.effects nsecs) := by
  cases hdone : work.isCompleted with
  | true =>
    rw [served_completed nsecs hdone, effects_completed nsecs hdone, List.append_nil]
    exact hp
  | false =>
    rw [Progress, if_neg (Bool.eq_false_iff.mp hdone)] at hp
    subst hp
    rw [served_open nsecs hdone, effects_open nsecs hdone]
    by_cases hdue : work.nsecsTarget ≤ nsecs
    · rw [Progress, if_pos (decide_eq_true hdue), if_pos hdue]
      refine ⟨nsecs, hdue, ?_⟩
      change _ = if work.isInternal = true then [WorkerEffect.release work.request nsecs]
        else [.copy work.request, .fill work.request nsecs]
      cases work.isInternal <;> cases work.isCopied <;> rfl
    · rw [Progress, if_neg (by simp [hdue]), if_neg hdue]
      change _ = if true = true ∧ work.isInternal = false then [WorkerEffect.copy work.request] else []
      cases work.isInternal <;> cases work.isCopied <;> rfl

/-! ## Every request is served once -/

/-- The entries that a request may be written into start with nothing done. -/
def Unserved (fill : NvmevIoWork → NvmevIoWork) : Prop :=
  ∀ old, (fill old).isCompleted = false ∧ (fill old).isCopied = (fill old).isInternal

namespace WorkerLoop

/-- What holds between the steps. The free entries that have been used before are completed, and
the worker stands on one of them or on an entry in flight, never on an entry not yet used. -/
structure Inv (s : WorkerLoop) (unused used io : List Nat) : Prop where
  lists : WorkLists s.worker (unused ++ used) io
  cursor : s.curr = noEntry ∨ s.curr ∈ used ∨ s.curr ∈ io
  used_done : ∀ e ∈ used, (s.worker.body e).isCompleted = true
  given_eq : ∀ e ∈ io, s.given[s.ticket e]? = some (s.worker.body e).request
  distinct : ∀ e ∈ io, ∀ e' ∈ io, s.ticket e = s.ticket e' → e = e'
  progress : ∀ e ∈ io, (s.worker.body e).Progress (s.history (s.ticket e))
  settled : ∀ n req, s.given[n]? = some req →
    (∃ e ∈ io, s.ticket e = n) ∨ req.Answered (s.history n)
  later : ∀ n, s.given.length ≤ n → s.history n = []

namespace Inv

variable {s : WorkerLoop} {unused used io : List Nat}

theorem init : Inv WorkerLoop.init (List.range nrMaxParallelIo) [] [] where
  lists := by
    rw [List.append_nil]
    exact NvmevIoWorker.init_spec
  cursor := .inl rfl
  used_done e he := by cases he
  given_eq e he := by cases he
  distinct e he := by cases he
  progress e he := by cases he
  settled n req h := by simp [WorkerLoop.init] at h
  later n _ := rfl

theorem ticket_lt (h : Inv s unused used io) {e : Nat} (he : e ∈ io) :
    s.ticket e < s.given.length :=
  (List.getElem?_eq_some_iff.mp (h.given_eq e he)).1

/-- A request takes the first free entry `e`. -/
theorem submit_entry {e : Nat} {free' before after unused' used' : List Nat}
    {fill : NvmevIoWork → NvmevIoWork} (h : Inv s unused used (before ++ after))
    (hstart : Unserved fill) (hfree : unused ++ used = e :: free')
    (hsplit : free' = unused' ++ used') (hused : ∀ x ∈ used', x ∈ used)
    (hback : ∀ x ∈ used, x = e ∨ x ∈ used')
    (hlists : WorkLists (s.worker.submit fill) free' (before ++ e :: after))
    (hbody : (s.worker.submit fill).body =
      Function.update s.worker.body e (fill (s.worker.workQueue e))) :
    Inv { s with
      worker := s.worker.submit fill
      given := s.given ++ [(fill (s.worker.workQueue e)).request]
      ticket := Function.update s.ticket e s.given.length } unused' used' (before ++ e :: after) := by
  have hmem : ∀ x, x ∈ before ++ e :: after ↔ x = e ∨ x ∈ before ++ after := by
    intro x
    simp [or_left_comm]
  have hnodup := h.lists.partition.nodup
  rw [hfree, List.cons_append, List.nodup_cons] at hnodup
  have hio : ∀ x ∈ before ++ after, x ≠ e := by
    rintro x hx rfl
    exact hnodup.1 (List.mem_append_right _ hx)
  have hnew : e ∉ used' := by
    intro hx
    exact hnodup.1 (List.mem_append_left _ (hsplit ▸ List.mem_append_right _ hx))
  have hold : ∀ (n : Nat) (req : NvmevIoWork), s.given[n]? = some req →
      (s.given ++ [(fill (s.worker.workQueue e)).request])[n]? = some req := by
    intro n req hn
    rwa [List.getElem?_append_left (List.getElem?_eq_some_iff.mp hn).1]
  refine ⟨hsplit ▸ hlists, ?_, fun x hx => ?_, fun x hx => ?_, fun x hx y hy hxy => ?_,
    fun x hx => ?_, fun n req hn => ?_, fun n hn => h.later n ?_⟩
  · rcases h.cursor with hcurr | hcurr | hcurr
    · exact .inl hcurr
    · rcases hback _ hcurr with hcurr | hcurr
      · exact .inr (.inr ((hmem _).mpr (.inl hcurr)))
      · exact .inr (.inl hcurr)
    · exact .inr (.inr ((hmem _).mpr (.inr hcurr)))
  · have hne : x ≠ e := fun hxe => hnew (hxe ▸ hx)
    rw [hbody, Function.update_of_ne hne]
    exact h.used_done x (hused x hx)
  · rcases (hmem x).mp hx with rfl | hx
    · simp only [hbody, Function.update_self, List.getElem?_concat_length]
    · simp only [hbody, Function.update_of_ne (hio x hx)]
      exact hold _ _ (h.given_eq x hx)
  · dsimp only at hxy
    rcases (hmem x).mp hx with rfl | hx' <;> rcases (hmem y).mp hy with rfl | hy'
    · rfl
    · rw [Function.update_self, Function.update_of_ne (hio y hy')] at hxy
      exact absurd hxy (h.ticket_lt hy').ne'
    · rw [Function.update_self, Function.update_of_ne (hio x hx')] at hxy
      exact absurd hxy (h.ticket_lt hx').ne
    · rw [Function.update_of_ne (hio x hx'), Function.update_of_ne (hio y hy')] at hxy
      exact h.distinct x hx' y hy' hxy
  · rcases (hmem x).mp hx with rfl | hx
    · obtain ⟨hdone, hcopied⟩ := hstart (s.worker.workQueue x)
      simp only [hbody, Function.update_self]
      rw [NvmevIoWork.Progress, if_neg (Bool.eq_false_iff.mp hdone), hcopied, if_neg (by simp)]
      exact h.later _ le_rfl
    · simp only [hbody, Function.update_of_ne (hio x hx)]
      exact h.progress x hx
  · rcases lt_or_ge n s.given.length with hlt | hge
    · rw [List.getElem?_append_left hlt] at hn
      rcases h.settled n req hn with ⟨x, hx, hxn⟩ | hdone
      · refine .inl ⟨x, (hmem x).mpr (.inr hx), ?_⟩
        simp only [Function.update_of_ne (hio x hx), hxn]
      · exact .inr hdone
    · have hlen := (List.getElem?_eq_some_iff.mp hn).1
      simp only [List.length_append, List.length_singleton] at hlen
      refine .inl ⟨e, (hmem e).mpr (.inl rfl), ?_⟩
      simp only [Function.update_self]
      omega
  · simp only [List.length_append, List.length_singleton] at hn
    omega

/-- A submission. -/
theorem submit (h : Inv s unused used io) {fill : NvmevIoWork → NvmevIoWork}
    (hfill : NvmevIoWorker.Clears fill) (hstart : Unserved fill) :
    ∃ unused' used' io', Inv (s.submit fill) unused' used' io' := by
  obtain ⟨e, free', hfree⟩ : ∃ e free', unused ++ used = e :: free' := by
    refine List.exists_cons_of_ne_nil fun hnil => ?_
    have hend := h.lists.chains.free_end
    simp [hnil] at hend
  have halloc := NvmevIoWorker.allocate_eq (hfree ▸ h.lists)
  by_cases hne : free' = []
  · rw [if_pos hne] at halloc
    exact ⟨unused, used, io, by rwa [WorkerLoop.submit, halloc]⟩
  rw [if_neg hne] at halloc
  rw [WorkerLoop.submit, halloc]
  dsimp only
  rcases NvmevIoWorker.submit_spec (hfree ▸ h.lists) hfill with ⟨_, heq, -⟩ |
    ⟨e', free'', before, after, heq, rfl, hlists, hbody, -⟩
  · exact absurd (List.cons.inj heq).2 hne
  obtain ⟨rfl, rfl⟩ := List.cons.inj heq
  cases unused with
  | nil =>
    -- Every entry has been used: the one that is taken may be the one the worker stands on.
    rw [List.nil_append] at hfree
    subst hfree
    refine ⟨[], free', _, h.submit_entry hstart rfl rfl (fun x hx => List.mem_cons_of_mem _ hx)
      (fun x hx => List.mem_cons.mp hx) hlists hbody⟩
  | cons u unused =>
    obtain ⟨rfl, rfl⟩ := List.cons.inj hfree
    exact ⟨unused, used, _, h.submit_entry hstart rfl rfl (fun x hx => hx) (fun x hx => .inr hx)
      hlists hbody⟩

/-- A reclaim. -/
theorem reclaim (h : Inv s unused used io) :
    Inv { s with worker := s.worker.reclaim } unused (used ++ io.takeWhile s.worker.isDone)
      (io.dropWhile s.worker.isDone) := by
  have hsplit := List.takeWhile_append_dropWhile (p := s.worker.isDone) (l := io)
  have hdone : ∀ x ∈ io.takeWhile s.worker.isDone, (s.worker.body x).isCompleted = true := by
    intro x hx
    have hx := List.mem_takeWhile_imp hx
    exact (of_decide_eq_true hx).1
  have hmem : ∀ x ∈ io, x ∈ io.takeWhile s.worker.isDone ∨ x ∈ io.dropWhile s.worker.isDone := by
    intro x hx
    rw [← List.mem_append, hsplit]
    exact hx
  have hrest : ∀ x ∈ io.dropWhile s.worker.isDone, x ∈ io :=
    fun x hx => (List.dropWhile_sublist _).subset hx
  refine ⟨?_, ?_, fun x hx => ?_, fun x hx => ?_, fun x hx y hy => ?_, fun x hx => ?_,
    fun n req hn => ?_, h.later⟩
  · rw [← List.append_assoc]
    exact NvmevIoWorker.reclaim_spec h.lists
  · rcases h.cursor with hcurr | hcurr | hcurr
    · exact .inl hcurr
    · exact .inr (.inl (List.mem_append_left _ hcurr))
    · rcases hmem _ hcurr with hcurr | hcurr
      · exact .inr (.inl (List.mem_append_right _ hcurr))
      · exact .inr (.inr hcurr)
  · rw [NvmevIoWorker.reclaim_body]
    rcases List.mem_append.mp hx with hx | hx
    · exact h.used_done x hx
    · exact hdone x hx
  · simp only [NvmevIoWorker.reclaim_body]
    exact h.given_eq x (hrest x hx)
  · exact h.distinct x (hrest x hx) y (hrest y hy)
  · simp only [NvmevIoWorker.reclaim_body]
    exact h.progress x (hrest x hx)
  · rcases h.settled n req hn with ⟨x, hx, rfl⟩ | hanswered
    · rcases hmem x hx with hfreed | hkept
      · -- A reclaimed entry is completed, so its request is answered.
        have hprogress := h.progress x hx
        rw [NvmevIoWork.Progress, if_pos (hdone x hfreed)] at hprogress
        obtain rfl : (s.worker.body x).request = req :=
          Option.some_inj.mp ((h.given_eq x hx).symm.trans hn)
        exact .inr hprogress
      · exact .inl ⟨x, hkept, rfl⟩
    · exact .inr hanswered

/-- The walk starts. -/
theorem start (h : Inv s unused used io) :
    Inv { s with curr := s.worker.ioSeq } unused used io := by
  refine ⟨h.lists, ?_, h.used_done, h.given_eq, h.distinct, h.progress, h.settled, h.later⟩
  have hseg := h.lists.chains.io_dll.forward
  rcases eq_or_ne io [] with rfl | hne
  · exact .inl hseg
  · exact .inr (.inr (hseg.mem hne))

/-- The walk goes on. -/
theorem advance (h : Inv s unused used io) (hcurr : s.curr ≠ noEntry) :
    Inv { s with curr := s.worker.next s.curr } unused used io := by
  refine ⟨h.lists, ?_, h.used_done, h.given_eq, h.distinct, h.progress, h.settled, h.later⟩
  obtain ⟨_, -, hused⟩ := seg_append.mp h.lists.chains.free_seg
  rcases h.cursor with hc | hc | hc
  · exact absurd hc hcurr
  · exact (hused.next_mem hc).imp_right .inl
  · exact (h.lists.chains.io_dll.forward.next_mem hc).imp_right .inr

end Inv

/-- What the loop body leaves in an entry. -/
theorem serve_body (w : NvmevIoWorker) (curr nsecs : Nat) :
    (w.serve curr nsecs).body = Function.update w.body curr ((w.body curr).served nsecs) := by
  funext x
  rcases eq_or_ne x curr with rfl | hne
  · rw [Function.update_self]
    simp only [NvmevIoWorker.body, NvmevIoWorker.serve, NvmevIoWorker.setWork, Function.update_self]
    exact NvmevIoWork.served_links nsecs noEntry noEntry
  · rw [Function.update_of_ne hne]
    simp only [NvmevIoWorker.body, NvmevIoWorker.serve, NvmevIoWorker.setWork,
      Function.update_of_ne hne]

/-- What the loop body adds to the history of a request. -/
theorem history_serve (s : WorkerLoop) (nsecs n : Nat) :
    (s.serve nsecs).history n = s.history n ++
      if s.ticket s.curr = n then (s.worker.body s.curr).effects nsecs else [] := by
  have hbody : (s.worker.workQueue s.curr).effects nsecs = (s.worker.body s.curr).effects nsecs := rfl
  simp only [history, serve, List.filterMap_append, List.filterMap_map, hbody]
  congr 1
  split_ifs with hn
  · simp [hn]
  · simp [hn]

namespace Inv

variable {s : WorkerLoop} {unused used io : List Nat}

/-- The loop body. -/
theorem serve (h : Inv s unused used io) (hcurr : s.curr ≠ noEntry) (nsecs : Nat) :
    Inv (s.serve nsecs) unused used io := by
  have hlists : WorkLists (s.worker.serve s.curr nsecs) (unused ++ used) io :=
    (h.lists.clock nsecs).setWork (NvmevIoWork.served_next nsecs) (NvmevIoWork.served_prev nsecs)
  have hbody := serve_body s.worker s.curr nsecs
  have hrequest : ∀ x, ((s.worker.serve s.curr nsecs).body x).request = (s.worker.body x).request := by
    intro x
    rw [hbody]
    rcases eq_or_ne x s.curr with rfl | hne
    · rw [Function.update_self, NvmevIoWork.served_request]
    · rw [Function.update_of_ne hne]
  -- Only the request of an entry in flight gets a longer history.
  have hhistory : ∀ n, (s.serve nsecs).history n = s.history n ∨
      s.curr ∈ io ∧ s.ticket s.curr = n := by
    intro n
    rw [history_serve]
    by_cases hn : s.ticket s.curr = n
    · rcases h.cursor with hc | hc | hc
      · exact absurd hc hcurr
      · rw [NvmevIoWork.effects_completed nsecs (h.used_done _ hc), ite_self, List.append_nil]
        exact .inl rfl
      · exact .inr ⟨hc, hn⟩
    · rw [if_neg hn, List.append_nil]
      exact .inl rfl
  refine ⟨hlists, h.cursor, fun x hx => ?_, fun x hx => ?_, h.distinct, fun x hx => ?_,
    fun n req hn => ?_, fun n hn => ?_⟩
  · change ((s.worker.serve s.curr nsecs).body x).isCompleted = true
    rw [hbody]
    rcases eq_or_ne x s.curr with rfl | hne
    · rw [Function.update_self, NvmevIoWork.served_completed nsecs (h.used_done _ hx)]
      exact h.used_done _ hx
    · rw [Function.update_of_ne hne]
      exact h.used_done x hx
  · change s.given[s.ticket x]? = some ((s.worker.serve s.curr nsecs).body x).request
    rw [hrequest]
    exact h.given_eq x hx
  · change ((s.worker.serve s.curr nsecs).body x).Progress ((s.serve nsecs).history (s.ticket x))
    rw [hbody, history_serve]
    rcases eq_or_ne x s.curr with rfl | hne
    · rw [Function.update_self, if_pos rfl]
      exact (h.progress _ hx).served nsecs
    · rw [Function.update_of_ne hne]
      rcases h.cursor with hc | hc | hc
      · exact absurd hc hcurr
      · rw [NvmevIoWork.effects_completed nsecs (h.used_done _ hc), ite_self, List.append_nil]
        exact h.progress x hx
      · rw [if_neg fun heq => hne (h.distinct x hx _ hc heq.symm), List.append_nil]
        exact h.progress x hx
  · rcases hhistory n with hsame | ⟨hc, hticket⟩
    · rw [hsame]
      exact h.settled n req hn
    · exact .inl ⟨s.curr, hc, hticket⟩
  · rcases hhistory n with hsame | ⟨hc, rfl⟩
    · rw [hsame]
      exact h.later n hn
    · exact absurd (h.ticket_lt hc) (Nat.not_lt_of_le hn)

/-- One event. -/
theorem step (h : Inv s unused used io) (ev : WorkerEvent) :
    ∃ unused' used' io', Inv (s.step ev) unused' used' io' := by
  cases ev with
  | enqueue sqid cqid sqEntry commandId nsecsTarget status =>
    exact h.submit (NvmevIoWorker.clears_ioWork sqid cqid sqEntry commandId nsecsTarget status)
      fun _ => ⟨rfl, rfl⟩
  | schedule c =>
    exact h.submit (NvmevIoWorker.clears_internalWork c.sqid c.nsecsTarget c.writeBuffer
      c.buffsToRelease) fun _ => ⟨rfl, rfl⟩
  | reclaim => exact ⟨_, _, _, h.reclaim⟩
  | start =>
    rw [WorkerLoop.step]
    split_ifs with hcurr
    · exact ⟨_, _, _, h.start⟩
    · exact ⟨_, _, _, h⟩
  | serve nsecs =>
    rw [WorkerLoop.step]
    split_ifs with hcurr
    · exact ⟨_, _, _, h⟩
    · exact ⟨_, _, _, h.serve hcurr nsecs⟩
  | advance =>
    rw [WorkerLoop.step]
    split_ifs with hcurr
    · exact ⟨_, _, _, h⟩
    · exact ⟨_, _, _, h.advance hcurr⟩

/-- A sequence of events. -/
theorem run (h : Inv s unused used io) (evs : List WorkerEvent) :
    ∃ unused' used' io', Inv (s.run evs) unused' used' io' := by
  induction evs generalizing s unused used io with
  | nil => exact ⟨_, _, _, h⟩
  | cons ev evs ih =>
    obtain ⟨_, _, _, hstep⟩ := h.step ev
    exact ih hstep

end Inv

end WorkerLoop

/-- What is known about the history `h` of request `n`: it is answered, or it is in flight and not
completed, and at most its data is copied; a number that was not given has no history. -/
def WorkerLoop.ServedOnce (s : WorkerLoop) (n : Nat) (h : List WorkerEffect) : Prop :=
  match s.given[n]? with
  | none => h = []
  | some req => req.Answered h ∨
    ∃ e, s.worker.Holds e ∧ (s.worker.body e).request = req ∧
      (s.worker.body e).isCompleted = false ∧
      h = if (s.worker.body e).isCopied = true ∧ req.isInternal = false then [.copy req] else []

/-- In every order of submissions, reclaims and steps of the worker each request that found an
entry is served once. -/
theorem WorkerLoop.servedOnce (evs : List WorkerEvent) (n : Nat) :
    (WorkerLoop.init.run evs).ServedOnce n ((WorkerLoop.init.run evs).history n) := by
  obtain ⟨unused, used, io, h⟩ := WorkerLoop.Inv.init.run evs
  generalize WorkerLoop.init.run evs = s at h ⊢
  unfold ServedOnce
  cases hn : s.given[n]? with
  | none => exact h.later n (List.getElem?_eq_none_iff.mp hn)
  | some req =>
    rcases h.settled n req hn with ⟨e, he, rfl⟩ | hanswered
    · obtain rfl : (s.worker.body e).request = req :=
        Option.some_inj.mp ((h.given_eq e he).symm.trans hn)
      have hprogress := h.progress e he
      cases hdone : (s.worker.body e).isCompleted with
      | true =>
        rw [NvmevIoWork.Progress, if_pos hdone] at hprogress
        exact .inl hprogress
      | false =>
        rw [NvmevIoWork.Progress, if_neg (Bool.eq_false_iff.mp hdone)] at hprogress
        exact .inr ⟨e, ⟨_, _, h.lists, he⟩, rfl, hdone, hprogress⟩
    · exact .inl hanswered

/-! ## An undisturbed pass -/

namespace WorkerLoop

/-- One pass of the outer loop of `nvmev_io_worker` that nobody disturbs, with the times it reads. -/
def pass (times : List Nat) : List WorkerEvent :=
  .start :: times.flatMap fun nsecs => [.serve nsecs, .advance]

theorem serve_next (w : NvmevIoWorker) (curr nsecs : Nat) : (w.serve curr nsecs).next = w.next := by
  rw [NvmevIoWorker.serve, NvmevIoWorker.setWork_next, NvmevIoWork.served_next]
  exact Function.update_eq_self curr w.next

/-- The entries among `l` that are due at `t` are completed. -/
def CompletedBy (s : WorkerLoop) (t : Nat) (l : List Nat) : Prop :=
  ∀ e ∈ l, (s.worker.body e).nsecsTarget ≤ t → (s.worker.body e).isCompleted = true

/-- The loop body keeps what is completed and completes its entry. -/
theorem CompletedBy.serve {s : WorkerLoop} {t nsecs : Nat} {l : List Nat} (h : s.CompletedBy t l)
    (ht : t ≤ nsecs) : (s.serve nsecs).CompletedBy t (l ++ [s.curr]) := by
  intro e he hdue
  change ((s.worker.serve s.curr nsecs).body e).isCompleted = true
  change ((s.worker.serve s.curr nsecs).body e).nsecsTarget ≤ t at hdue
  rw [serve_body] at hdue ⊢
  rcases eq_or_ne e s.curr with rfl | hne
  · rw [Function.update_self] at hdue ⊢
    cases hdone : (s.worker.body s.curr).isCompleted with
    | true => rw [NvmevIoWork.served_completed nsecs hdone, hdone]
    | false =>
      rw [NvmevIoWork.served_open nsecs hdone] at hdue ⊢
      exact decide_eq_true (hdue.trans ht)
  · rw [Function.update_of_ne hne] at hdue ⊢
    have hl : e ∈ l := by simpa [hne] using he
    exact h e hl hdue

/-- The walk over the entries `rest` that it has not come to yet. -/
theorem walk {s : WorkerLoop} {unused used visited rest : List Nat} {t : Nat}
    (h : Inv s unused used (visited ++ rest)) (hseg : Seg s.worker.next s.curr noEntry rest)
    (hdone : s.CompletedBy t visited) (times : List Nat) (hlen : rest.length ≤ times.length)
    (htimes : ∀ nsecs ∈ times, t ≤ nsecs) :
    let s' := s.run (times.flatMap fun nsecs => [.serve nsecs, .advance])
    Inv s' unused used (visited ++ rest) ∧ s'.given = s.given ∧
      s'.CompletedBy t (visited ++ rest) := by
  induction times generalizing s visited rest with
  | nil =>
    obtain rfl : rest = [] := List.eq_nil_of_length_eq_zero (Nat.le_zero.mp hlen)
    refine ⟨h, rfl, ?_⟩
    rw [List.append_nil]
    exact hdone
  | cons nsecs times ih =>
    have hlater : ∀ nsecs ∈ times, t ≤ nsecs := fun x hx => htimes x (List.mem_cons_of_mem _ hx)
    cases rest with
    | nil =>
      -- The walk has come to its end.
      have hcurr : s.curr = noEntry := hseg
      have hidle : s.run ([.serve nsecs, .advance] : List WorkerEvent) = s := by
        simp [run, step, hcurr]
      rw [List.flatMap_cons, run, List.foldl_append]
      change let s' := ((s.run [.serve nsecs, .advance]).run _)
        Inv s' _ _ _ ∧ s'.given = _ ∧ s'.CompletedBy _ _
      rw [hidle]
      exact ih h hseg hdone (Nat.zero_le _) hlater
    | cons x rest =>
      obtain ⟨hx, hrest⟩ := hseg
      have hcurr : s.curr ≠ noEntry := by
        rw [hx]
        rintro rfl
        exact h.lists.partition.noEntry_notMem_io (by simp)
      have hsplit : visited ++ x :: rest = visited ++ [x] ++ rest := by simp
      have hinv := (h.serve hcurr nsecs).advance hcurr
      have hserved := hdone.serve (htimes nsecs (List.mem_cons_self ..))
      rw [hsplit] at hinv ⊢
      rw [hx] at hserved
      have hgo : Seg (s.serve nsecs).worker.next ((s.serve nsecs).worker.next (s.serve nsecs).curr)
          noEntry rest := by
        change Seg (s.worker.serve s.curr nsecs).next ((s.worker.serve s.curr nsecs).next s.curr) _ _
        rw [serve_next, hx]
        exact hrest
      have hstep : s.run [.serve nsecs, .advance] =
          { s.serve nsecs with curr := (s.serve nsecs).worker.next (s.serve nsecs).curr } := by
        have hcurr' : (s.serve nsecs).curr ≠ noEntry := hcurr
        simp only [run, step, List.foldl_cons, List.foldl_nil, if_neg hcurr, if_neg hcurr']
      rw [List.flatMap_cons, run, List.foldl_append]
      change let s' := ((s.run [.serve nsecs, .advance]).run _)
        Inv s' _ _ _ ∧ s'.given = _ ∧ s'.CompletedBy _ _
      rw [hstep]
      exact ih hinv hgo hserved (Nat.le_of_succ_le_succ hlen) hlater

end WorkerLoop

/-- From whatever the interleaving has left, a pass that nobody disturbs answers every request whose
time the clock has reached. -/
theorem pass_answers (evs : List WorkerEvent) (times : List Nat) (t : Nat)
    (hidle : (WorkerLoop.init.run evs).curr = noEntry) (hlen : nrMaxParallelIo ≤ times.length)
    (htimes : ∀ nsecs ∈ times, t ≤ nsecs) (n : Nat) (req : NvmevIoWork)
    (hn : (WorkerLoop.init.run evs).given[n]? = some req) (hdue : req.nsecsTarget ≤ t) :
    req.Answered (((WorkerLoop.init.run evs).run (WorkerLoop.pass times)).history n) := by
  obtain ⟨unused, used, io, h⟩ := WorkerLoop.Inv.init.run evs
  generalize WorkerLoop.init.run evs = s at hidle hn h ⊢
  have hrun : s.run (WorkerLoop.pass times) = { s with curr := s.worker.ioSeq }.run
      (times.flatMap fun nsecs => [.serve nsecs, .advance]) := by
    simp only [WorkerLoop.pass, WorkerLoop.run, List.foldl_cons, WorkerLoop.step, if_pos hidle]
  have hseg := h.lists.chains.io_dll.forward
  have hlen' := h.lists.partition.length_io_le.trans hlen
  have hstart : WorkerLoop.Inv _ unused used ([] ++ io) := h.start
  obtain ⟨hinv, hgiven, hcompleted⟩ := WorkerLoop.walk hstart hseg (fun e he => by cases he) times
    hlen' htimes
  rw [hrun]
  generalize WorkerLoop.run { s with curr := s.worker.ioSeq } _ = s' at hinv hgiven hcompleted ⊢
  change s'.given = s.given at hgiven
  rw [← hgiven] at hn
  rcases hinv.settled n req hn with ⟨e, he, rfl⟩ | hanswered
  · have hprogress := hinv.progress e he
    obtain rfl : (s'.worker.body e).request = req :=
      Option.some_inj.mp ((hinv.given_eq e he).symm.trans hn)
    rw [NvmevIoWork.Progress, if_pos (hcompleted e he hdue)] at hprogress
    exact hprogress
  · exact hanswered

/-- A command is dispatched, and the worker walks when its time has come. -/
theorem pass_answers_one :
    ∀ req, (WorkerLoop.init.run [.enqueue 1 1 0 7 3 0]).given[0]? = some req →
      req.nsecsTarget ≤ 5 → req.Answered (((WorkerLoop.init.run [.enqueue 1 1 0 7 3 0]).run
        (WorkerLoop.pass (List.replicate nrMaxParallelIo 5))).history 0) := by
  intro req hreq hdue
  refine pass_answers _ _ 5 rfl ?_ (fun x hx => ?_) 0 req hreq hdue
  · rw [List.length_replicate]
  · rw [List.eq_of_mem_replicate hx]

end NvmeVirt
