import NvmeVirt.Io.Worker

/-!
# The dispatcher and the workers side by side

The dispatcher submits and reclaims while every worker walks over its own entries. A run of the
device is a run of each worker on its own, and the device performs the effects of all workers in the
order of their steps.
-/

namespace NvmeVirt

/-- The device with the local variable `curr` of each worker. -/
structure DevLoop (σ : Type) where
  dev : NvmevDev σ
  curr : Nat → Nat

/-- A step of the dispatcher, or of one worker. -/
inductive DevEvent
  | enqueue (sqid cqid sqEntry commandId nsecsTarget status : Nat)
  | schedule (c : InternalCall)
  | reclaim
  | start (worker : Nat)
  | serve (worker nsecs : Nat)
  | advance (worker : Nat)
  deriving DecidableEq, Repr

/-- What a step is for worker `i` of `nrIoWorkers`. -/
def DevEvent.seenBy (nrIoWorkers i : Nat) : DevEvent → Option WorkerEvent
  | .enqueue sqid cqid sqEntry commandId nsecsTarget status =>
    if u32Sub sqid 1 % nrIoWorkers = i then
      some (.enqueue sqid cqid sqEntry commandId nsecsTarget status)
    else none
  | .schedule c => if u32Sub c.sqid 1 % nrIoWorkers = i then some (.schedule c) else none
  | .reclaim => if i < nrIoWorkers then some .reclaim else none
  | .start worker => if worker = i then some .start else none
  | .serve worker nsecs => if worker = i then some (.serve nsecs) else none
  | .advance worker => if worker = i then some .advance else none

namespace DevLoop

variable {σ : Type} (ops : NsOps σ)

/-- `NVMEV_IO_WORKER_INIT`: no worker has begun to walk. -/
def init (dev : NvmevDev σ) : DevLoop σ :=
  { dev := dev.ioWorkerInit, curr := fun _ => noEntry }

/-- One step. -/
def step (s : DevLoop σ) : DevEvent → Except DevFault (DevLoop σ)
  | .enqueue sqid cqid sqEntry commandId nsecsTarget status =>
    return { s with dev := s.dev.submitWork sqid fun old =>
      NvmevIoWorker.ioWork old sqid cqid sqEntry commandId nsecsTarget status }
  | .schedule c => return { s with dev := s.dev.scheduleInternalOperation c }
  | .reclaim => return { s with dev := s.dev.reclaimCompletedReqs }
  | .start i =>
    return if s.curr i = noEntry then
      { s with curr := Function.update s.curr i (s.dev.ioWorkers i).ioSeq }
    else s
  | .serve i nsecs =>
    if s.curr i = noEntry then return s
    else do
      let dev ← s.dev.workerServe ops i (s.curr i) nsecs
      return { s with dev }
  | .advance i =>
    return if s.curr i = noEntry then s
    else { s with curr := Function.update s.curr i ((s.dev.ioWorkers i).next (s.curr i)) }

/-- A run; a fault ends it. -/
def run (s : DevLoop σ) (evs : List DevEvent) : Except DevFault (DevLoop σ) :=
  evs.foldlM (step ops) s

end DevLoop

/-! ## The effects and the workers are independent -/

namespace NvmevDev

variable {σ : Type} (ops : NsOps σ)

/-- The device with other workers. -/
def withWorkers (dev : NvmevDev σ) (ws : Nat → NvmevIoWorker) (turn : Nat) : NvmevDev σ :=
  { dev with ioWorkers := ws, ioWorkerTurn := turn }

/-- No effect reads the work queues. -/
theorem perform_withWorkers {dev dev' : NvmevDev σ} {x : WorkerEffect} (ws : Nat → NvmevIoWorker)
    (turn : Nat) (h : perform ops (dev.withWorkers ws turn) x = .ok dev') :
    ∃ d, perform ops dev x = .ok d ∧ dev' = d.withWorkers ws turn := by
  cases x with
  | copy req =>
    obtain ⟨sq, hsq, hd⟩ := Checked.bind_eq_ok.mp h
    cases hd
    exact ⟨dev, Checked.bind_eq_ok.mpr ⟨sq, hsq, rfl⟩, rfl⟩
  | fill req nsecs =>
    obtain ⟨cq, hcq, hd⟩ := Checked.bind_eq_ok.mp h
    cases hd
    exact ⟨_, Checked.bind_eq_ok.mpr ⟨cq, hcq, rfl⟩, rfl⟩
  | release req nsecs =>
    cases h
    exact ⟨_, rfl, rfl⟩

theorem foldlM_perform_withWorkers {effects : List WorkerEffect} {dev dev' : NvmevDev σ}
    (ws : Nat → NvmevIoWorker) (turn : Nat)
    (h : effects.foldlM (perform ops) (dev.withWorkers ws turn) = .ok dev') :
    ∃ d, effects.foldlM (perform ops) dev = .ok d ∧ dev' = d.withWorkers ws turn := by
  induction effects generalizing dev with
  | nil =>
    cases h
    exact ⟨dev, rfl, rfl⟩
  | cons x effects ih =>
    rw [List.foldlM_cons] at h
    obtain ⟨dev₁, hx, h⟩ := Checked.bind_eq_ok.mp h
    obtain ⟨d₁, hd₁, rfl⟩ := perform_withWorkers ops ws turn hx
    obtain ⟨d, hd, rfl⟩ := ih h
    refine ⟨d, ?_, rfl⟩
    rw [List.foldlM_cons, hd₁]
    exact hd

theorem perform_nrIoWorkers {dev d : NvmevDev σ} {x : WorkerEffect}
    (h : perform ops dev x = .ok d) : d.nrIoWorkers = dev.nrIoWorkers := by
  cases x with
  | copy req =>
    obtain ⟨sq, -, hd⟩ := Checked.bind_eq_ok.mp h
    cases hd
    rfl
  | fill req nsecs =>
    obtain ⟨cq, -, hd⟩ := Checked.bind_eq_ok.mp h
    cases hd
    rfl
  | release req nsecs =>
    cases h
    rfl

theorem foldlM_perform_nrIoWorkers {effects : List WorkerEffect} {dev d : NvmevDev σ}
    (h : effects.foldlM (perform ops) dev = .ok d) : d.nrIoWorkers = dev.nrIoWorkers := by
  induction effects generalizing dev with
  | nil =>
    cases h
    rfl
  | cons x effects ih =>
    rw [List.foldlM_cons] at h
    obtain ⟨d₁, hx, h⟩ := Checked.bind_eq_ok.mp h
    exact (ih h).trans (perform_nrIoWorkers ops hx)

end NvmevDev

/-! ## A run of the device is a run of each worker -/

namespace WorkerLoop

variable (s : WorkerLoop) (fill : NvmevIoWork → NvmevIoWork)

@[simp] theorem submit_worker : (s.submit fill).worker = s.worker.submit fill := by
  cases h : s.worker.allocate with
  | none => simp only [submit, h, NvmevIoWorker.submit]
  | some p => simp only [submit, h]

@[simp] theorem submit_curr : (s.submit fill).curr = s.curr := by
  unfold submit
  split <;> rfl

@[simp] theorem submit_log : (s.submit fill).log = s.log := by
  unfold submit
  split <;> rfl

end WorkerLoop

/-- What a device and the runs `l` of its workers have in common: `log` are the effects of all workers
in their order, each with the worker and the number of the request. -/
structure WorkersApart {σ : Type} (ops : NsOps σ) (dev : NvmevDev σ) (s : DevLoop σ)
    (l : Nat → WorkerLoop) (log : List (Nat × Nat × WorkerEffect)) : Prop where
  workers : ∀ i, (l i).worker = s.dev.ioWorkers i
  currs : ∀ i, (l i).curr = s.curr i
  logs : ∀ i, (l i).log = log.filterMap fun x => if x.1 = i then some x.2 else none
  performed : ∃ d, (log.map fun x => x.2.2).foldlM (NvmevDev.perform ops) dev = .ok d ∧
    s.dev = d.withWorkers s.dev.ioWorkers s.dev.ioWorkerTurn
  nrIoWorkers_eq : s.dev.nrIoWorkers = dev.nrIoWorkers

namespace WorkersApart

variable {σ : Type} {ops : NsOps σ} {dev : NvmevDev σ} {s s' : DevLoop σ} {l : Nat → WorkerLoop}
  {log : List (Nat × Nat × WorkerEffect)}

theorem init (dev : NvmevDev σ) : WorkersApart ops dev.ioWorkerInit (.init dev)
    (fun _ => WorkerLoop.init) [] :=
  ⟨fun _ => rfl, fun _ => rfl, fun _ => rfl, ⟨_, rfl, rfl⟩, rfl⟩

/-- New workers, and nothing is done for a request. -/
theorem setWorkers {l' : Nat → WorkerLoop} {curr : Nat → Nat} (h : WorkersApart ops dev s l log)
    (ws : Nat → NvmevIoWorker) (turn : Nat)
    (hworkers : ∀ i, (l' i).worker = ws i) (hcurrs : ∀ i, (l' i).curr = curr i)
    (hlogs : ∀ i, (l' i).log = (l i).log) :
    WorkersApart ops dev { dev := s.dev.withWorkers ws turn, curr } l' log := by
  obtain ⟨d, hd, hdev⟩ := h.performed
  refine ⟨hworkers, hcurrs, fun i => (hlogs i).trans (h.logs i), ⟨d, hd, ?_⟩, h.nrIoWorkers_eq⟩
  change s.dev.withWorkers ws turn = d.withWorkers ws turn
  rw [hdev]
  rfl

/-- A submission is seen by the worker that takes it. -/
theorem submit {ev : WorkerEvent} {sqid : Nat} {fill : NvmevIoWork → NvmevIoWork}
    (h : WorkersApart ops dev s l log) (hev : ∀ x : WorkerLoop, x.step ev = x.submit fill) :
    WorkersApart ops dev { s with dev := s.dev.submitWork sqid fill } (fun i =>
      (l i).run (if u32Sub sqid 1 % dev.nrIoWorkers = i then some ev else none).toList) log := by
  obtain ⟨ws, turn, heq⟩ := s.dev.submitWork_eq sqid fill
  have hws : ws = Function.update s.dev.ioWorkers (s.dev.getIoWorker sqid)
      ((s.dev.ioWorkers (s.dev.getIoWorker sqid)).submit fill) := by
    rw [← NvmevDev.submitWork_ioWorkers, heq]
  rw [heq]
  refine h.setWorkers _ _ (fun i => ?_) (fun i => ?_) (fun i => ?_)
  · rw [hws, NvmevDev.getIoWorker, h.nrIoWorkers_eq]
    split_ifs with hi
    · subst hi
      rw [Function.update_self, ← h.workers]
      exact (congrArg WorkerLoop.worker (hev _)).trans (WorkerLoop.submit_worker _ _)
    · rw [Function.update_of_ne (Ne.symm hi)]
      exact h.workers i
  · split_ifs
    · exact (congrArg WorkerLoop.curr (hev _)).trans
        ((WorkerLoop.submit_curr _ _).trans (h.currs i))
    · exact h.currs i
  · split_ifs
    · exact (congrArg WorkerLoop.log (hev _)).trans (WorkerLoop.submit_log _ _)
    · rfl

/-- A worker goes to another entry. -/
theorem move (h : WorkersApart ops dev s l log) (ev : WorkerEvent) (j : Nat)
    (hworker : ((l j).step ev).worker = (l j).worker) (hlog : ((l j).step ev).log = (l j).log) :
    WorkersApart ops dev { s with curr := Function.update s.curr j ((l j).step ev).curr }
      (fun i => (l i).run (if j = i then some ev else none).toList) log := by
  refine h.setWorkers s.dev.ioWorkers s.dev.ioWorkerTurn (fun i => ?_) (fun i => ?_) (fun i => ?_)
  · split_ifs with hi
    · subst hi
      exact hworker.trans (h.workers j)
    · exact h.workers i
  · split_ifs with hi
    · subst hi
      rw [Function.update_self]
      rfl
    · rw [Function.update_of_ne (Ne.symm hi)]
      exact h.currs i
  · split_ifs with hi
    · subst hi
      exact hlog
    · rfl

/-- A worker serves its entry. -/
theorem serve {j nsecs : Nat} {dev' : NvmevDev σ} (h : WorkersApart ops dev s l log)
    (hserve : s.dev.workerServe ops j (s.curr j) nsecs = .ok dev') (hcurr : s.curr j ≠ noEntry) :
    WorkersApart ops dev { s with dev := dev' }
      (fun i => (l i).run (if j = i then some (.serve nsecs) else none).toList)
      (log ++ (((s.dev.ioWorkers j).workQueue (s.curr j)).effects nsecs).map fun x =>
        (j, (l j).ticket (s.curr j), x)) := by
  obtain ⟨d, hd, hdev⟩ := h.performed
  rw [NvmevDev.workerServe_eq] at hserve
  obtain ⟨d₁, heffects, hset⟩ := Checked.bind_eq_ok.mp hserve
  cases hset
  rw [hdev] at heffects
  obtain ⟨d₂, hd₂, rfl⟩ := NvmevDev.foldlM_perform_withWorkers ops _ _ heffects
  have hstep : (l j).step (.serve nsecs) = (l j).serve nsecs := by
    rw [WorkerLoop.step, if_neg (by rwa [h.currs])]
  have hworker : ((l j).serve nsecs).worker = (s.dev.ioWorkers j).serve (s.curr j) nsecs := by
    rw [← h.workers, ← h.currs]
    rfl
  refine ⟨fun i => ?_, fun i => ?_, fun i => ?_, ⟨d₂, ?_, rfl⟩, ?_⟩
  · change _ = Function.update s.dev.ioWorkers j ((s.dev.ioWorkers j).serve (s.curr j) nsecs) i
    split_ifs with hi
    · subst hi
      rw [Function.update_self, ← hworker]
      exact congrArg WorkerLoop.worker hstep
    · rw [Function.update_of_ne (Ne.symm hi)]
      exact h.workers i
  · split_ifs with hi
    · subst hi
      exact (congrArg WorkerLoop.curr hstep).trans (h.currs j)
    · exact h.currs i
  · rw [List.filterMap_append, ← h.logs, List.filterMap_map]
    split_ifs with hi
    · subst hi
      refine (congrArg WorkerLoop.log hstep).trans ?_
      rw [WorkerLoop.serve, h.currs, h.workers]
      simp
    · simp [hi, WorkerLoop.run]
  · rw [List.map_append, List.foldlM_append, hd, List.map_map]
    simp only [Function.comp_def, List.map_id']
    exact hd₂
  · change d₂.nrIoWorkers = dev.nrIoWorkers
    rw [NvmevDev.foldlM_perform_nrIoWorkers ops hd₂, ← h.nrIoWorkers_eq, hdev]
    rfl

/-- One step. -/
theorem step {ev : DevEvent} (h : WorkersApart ops dev s l log) (hstep : s.step ops ev = .ok s') :
    ∃ log', WorkersApart ops dev s'
      (fun i => (l i).run (ev.seenBy dev.nrIoWorkers i).toList) log' := by
  cases ev with
  | enqueue sqid cqid sqEntry commandId nsecsTarget status =>
    cases hstep
    exact ⟨log, h.submit fun _ => rfl⟩
  | schedule c =>
    cases hstep
    exact ⟨log, h.submit fun _ => rfl⟩
  | reclaim =>
    cases hstep
    refine ⟨log, h.setWorkers _ _ (fun i => ?_) (fun i => ?_) (fun i => ?_)⟩
    · rw [DevEvent.seenBy, ← h.nrIoWorkers_eq]
      split_ifs
      · exact congrArg NvmevIoWorker.reclaim (h.workers i)
      · exact h.workers i
    · rw [DevEvent.seenBy]
      split_ifs <;> exact h.currs i
    · rw [DevEvent.seenBy]
      split_ifs <;> rfl
  | start j =>
    cases hstep
    refine ⟨log, ?_⟩
    have hmove := h.move .start j (by rw [WorkerLoop.step]; split_ifs <;> rfl)
      (by rw [WorkerLoop.step]; split_ifs <;> rfl)
    rw [WorkerLoop.step, h.currs, h.workers] at hmove
    split_ifs at hmove ⊢ with hcurr
    · exact hmove
    · rw [h.currs, Function.update_eq_self] at hmove
      exact hmove
  | serve j nsecs =>
    rw [DevLoop.step] at hstep
    split_ifs at hstep with hcurr
    · -- The worker has come to the end of its entries.
      cases hstep
      have hidle : (l j).step (.serve nsecs) = l j := by
        rw [WorkerLoop.step, if_pos ((h.currs j).trans hcurr)]
      have hmove := h.move (.serve nsecs) j (by rw [hidle]) (by rw [hidle])
      rw [hidle, h.currs, Function.update_eq_self] at hmove
      exact ⟨log, hmove⟩
    · obtain ⟨dev', hserve, hset⟩ := Checked.bind_eq_ok.mp hstep
      cases hset
      exact ⟨_, h.serve hserve hcurr⟩
  | advance j =>
    cases hstep
    refine ⟨log, ?_⟩
    have hmove := h.move .advance j (by rw [WorkerLoop.step]; split_ifs <;> rfl)
      (by rw [WorkerLoop.step]; split_ifs <;> rfl)
    rw [WorkerLoop.step, h.currs, h.workers] at hmove
    split_ifs at hmove ⊢ with hcurr
    · rw [h.currs, Function.update_eq_self] at hmove
      exact hmove
    · exact hmove

/-- A run. -/
theorem run {evs : List DevEvent} (h : WorkersApart ops dev s l log)
    (hrun : s.run ops evs = .ok s') :
    ∃ log', WorkersApart ops dev s'
      (fun i => (l i).run (evs.filterMap (DevEvent.seenBy dev.nrIoWorkers i))) log' := by
  induction evs generalizing s l log with
  | nil =>
    cases hrun
    exact ⟨log, h⟩
  | cons ev evs ih =>
    rw [DevLoop.run, List.foldlM_cons] at hrun
    obtain ⟨s₁, hstep, hrun⟩ := Checked.bind_eq_ok.mp hrun
    obtain ⟨log₁, h₁⟩ := h.step hstep
    obtain ⟨log', h'⟩ := ih h₁ hrun
    refine ⟨log', ?_⟩
    convert h' using 2 with i
    rw [List.filterMap_cons]
    cases ev.seenBy dev.nrIoWorkers i <;> rfl

end WorkersApart

/-- The requests that found an entry at worker `i`, in their order. -/
def acceptedBy (nrIoWorkers i : Nat) (evs : List DevEvent) : List NvmevIoWork :=
  (WorkerLoop.init.run (evs.filterMap (DevEvent.seenBy nrIoWorkers i))).given

/-- In every run of the dispatcher and of all workers, in any order of their steps, the device has
performed the effects of a log, and in this log every request that found an entry has been served
once: its data copied and its completion posted, not before its time, or its buffer released; or it
is in flight. Nothing else is in the log. -/
theorem device_serves_once {σ : Type} (ops : NsOps σ) (dev : NvmevDev σ) (evs : List DevEvent)
    (s : DevLoop σ) (hrun : (DevLoop.init dev).run ops evs = .ok s) :
    ∃ (log : List (Nat × Nat × WorkerEffect)) (d : NvmevDev σ),
      (log.map fun x => x.2.2).foldlM (NvmevDev.perform ops) dev.ioWorkerInit = .ok d ∧
      s.dev = { d with ioWorkers := s.dev.ioWorkers, ioWorkerTurn := s.dev.ioWorkerTurn } ∧
      ∀ i n,
        let done := log.filterMap fun x => if x.1 = i ∧ x.2.1 = n then some x.2.2 else none
        match (acceptedBy dev.nrIoWorkers i evs)[n]? with
        | none => done = []
        | some req => req.Answered done ∨
          ∃ e, (s.dev.ioWorkers i).Holds e ∧ ((s.dev.ioWorkers i).body e).request = req ∧
            ((s.dev.ioWorkers i).body e).isCompleted = false ∧
            done = if ((s.dev.ioWorkers i).body e).isCopied = true ∧ req.isInternal = false
              then [.copy req] else [] := by
  obtain ⟨log, h⟩ := (WorkersApart.init dev).run hrun
  change WorkersApart ops _ s (fun i =>
    WorkerLoop.init.run (evs.filterMap (DevEvent.seenBy dev.nrIoWorkers i))) log at h
  obtain ⟨d, hd, hdev⟩ := h.performed
  refine ⟨log, d, hd, hdev, fun i n => ?_⟩
  have hserved := WorkerLoop.servedOnce (evs.filterMap (DevEvent.seenBy dev.nrIoWorkers i)) n
  have hhistory : (WorkerLoop.init.run (evs.filterMap (DevEvent.seenBy dev.nrIoWorkers i))).history n =
      log.filterMap fun x => if x.1 = i ∧ x.2.1 = n then some x.2.2 else none := by
    rw [WorkerLoop.history, h.logs i, List.filterMap_filterMap]
    congr 1
    funext x
    by_cases hi : x.1 = i <;> simp [hi]
  rw [hhistory, WorkerLoop.ServedOnce, h.workers i] at hserved
  exact hserved

/-- Namespaces that answer every command at once. -/
def answering : NsOps Unit :=
  { procIoCmd := fun ns _ _ now => ⟨true, 0, now, [], ns⟩
    bufferRelease := fun ns _ _ => ns }

/-- A device with one worker and queues in every place. -/
def queuedDevice : NvmevDev Unit :=
  { (default : NvmevDev Unit) with
    nrIoWorkers := 1
    sqes := fun _ => some default
    cqes := fun _ => some default }

/-- A command is copied in one pass and completed in the next; nothing is done for another one. -/
theorem device_serves_once_one : ∃ s, (DevLoop.init queuedDevice).run answering
      [.enqueue 1 1 0 7 3 0, .start 0, .serve 0 2, .advance 0, .reclaim, .start 0, .serve 0 5] = .ok s ∧
    ∃ (log : List (Nat × Nat × WorkerEffect)) (d : NvmevDev Unit),
      (log.map fun x => x.2.2).foldlM (NvmevDev.perform answering) queuedDevice.ioWorkerInit = .ok d ∧
      s.dev = { d with ioWorkers := s.dev.ioWorkers, ioWorkerTurn := s.dev.ioWorkerTurn } ∧
      log.filterMap (fun x => if x.1 = 0 ∧ x.2.1 = 1 then some x.2.2 else none) = [] := by
  obtain ⟨s, hrun⟩ : ∃ s, (DevLoop.init queuedDevice).run answering
      [.enqueue 1 1 0 7 3 0, .start 0, .serve 0 2, .advance 0, .reclaim, .start 0, .serve 0 5] = .ok s :=
    ⟨_, rfl⟩
  obtain ⟨log, d, hd, hdev, h⟩ := device_serves_once answering queuedDevice _ s hrun
  exact ⟨s, hrun, log, d, hd, hdev, h 0 1⟩

end NvmeVirt
