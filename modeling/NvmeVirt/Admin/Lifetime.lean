import NvmeVirt.Admin.Completions
import NvmeVirt.Io.InFlight
import NvmeVirt.Io.Submission

/-!
# Lifetime of queues

Admin commands create and delete the queues that entries in flight name by their
numbers. Nothing in the device waits for the entries of a queue that is deleted, so it
is the host that decides whether a worker still finds the queues of its entry.
-/

namespace NvmeVirt

open Checked RingBuffer

variable {σ : Type}

/-! ## Events -/

/-- What happens to the queues: the host writes doorbells and rings, the dispatcher executes an
admin command, dispatches an entry, stores the counters and the doorbell of a poll or handles a
completion doorbell, and a worker steps. -/
inductive QueueEvent
  | host (dbs : Nat → Nat) (adminSlots : Nat → NvmeSqe) (sqSlots : Nat → Nat → NvmeSqe)
      (cqSlots : Nat → Nat → NvmeCompletion)
  | admin (eid : Nat)
  | dispatch (qid sqEntry : Nat)
  | polled (qid latestDb : Nat) (stat : NvmevSqStat)
  | cqDb (qid fuel : Nat)
  | copy (worker entry : Nat)
  | complete (worker entry : Nat)
  | clock (worker nsecs : Nat)

namespace NvmevDev

/-- The host writes all it can write. -/
def hostWrites (dev : NvmevDev σ) (dbs : Nat → Nat) (adminSlots : Nat → NvmeSqe)
    (sqSlots : Nat → Nat → NvmeSqe) (cqSlots : Nat → Nat → NvmeCompletion) : NvmevDev σ :=
  { dev with
    dbs
    adminQ := dev.adminQ.map fun q => { q with nvmeSq := q.nvmeSq.map fun _ => adminSlots }
    sqes := fun qid => (dev.sqes qid).map fun sq => { sq with sq := sqSlots qid }
    cqes := fun qid => (dev.cqes qid).map fun cq => { cq with cq := cqSlots qid } }

/-- The end of a poll of queue `qid`. -/
def polledSq (dev : NvmevDev σ) (qid latestDb : Nat) (sq : NvmevSubmissionQueue)
    (stat : NvmevSqStat) : NvmevDev σ :=
  { dev.setSq qid { sq with stat } with
    oldDbs := Function.update dev.oldDbs (qid * 2) latestDb }

end NvmevDev

/-- The result of an event. Commands that identify or read a log touch no queue and are left out;
workers step on entries in flight that they have not completed. -/
inductive QueueStep (env : AdminEnv) (ops : NsOps σ) (dev : NvmevDev σ) :
    QueueEvent → Except DevFault (NvmevDev σ) → Prop
  | host (dbs : Nat → Nat) (adminSlots : Nat → NvmeSqe) (sqSlots : Nat → Nat → NvmeSqe)
      (cqSlots : Nat → Nat → NvmeCompletion) :
      QueueStep env ops dev (.host dbs adminSlots sqSlots cqSlots)
        (.ok (dev.hostWrites dbs adminSlots sqSlots cqSlots))
  | admin {eid : Nat} {cmd : NvmeSqe} (hcmd : dev.adminSqe eid = .ok cmd)
      (hid : cmd.adminOpcode ≠ .identify) (hlog : cmd.adminOpcode ≠ .getLogPage) :
      QueueStep env ops dev (.admin eid) (dev.procAdminReq env eid)
  | dispatch {qid : Nat} {sq : NvmevSubmissionQueue} (sqEntry : Nat) (hqid : 1 ≤ qid ∧ qid ≤ dev.nrSq)
      (hsq : dev.sqes qid = some sq) :
      QueueStep env ops dev (.dispatch qid sqEntry) (.ok (dev.nvmevProcIo ops qid sq sqEntry).2)
  | polled {qid : Nat} {sq : NvmevSubmissionQueue} (latestDb : Nat) (stat : NvmevSqStat)
      (hsq : dev.sqes qid = some sq) :
      QueueStep env ops dev (.polled qid latestDb stat) (.ok (dev.polledSq qid latestDb sq stat))
  | cqDb {qid fuel : Nat} {dev' : NvmevDev σ} (hqid : 1 ≤ qid ∧ qid ≤ dev.nrCq)
      (hok : dev.procCqDb fuel qid = .ok (some dev')) :
      QueueStep env ops dev (.cqDb qid fuel) (.ok dev')
  | cqDbFault {qid fuel : Nat} {e : DevFault} (hqid : 1 ≤ qid ∧ qid ≤ dev.nrCq)
      (herr : dev.procCqDb fuel qid = .error e) :
      QueueStep env ops dev (.cqDb qid fuel) (.error e)
  | copy {i e : Nat} (hheld : (dev.ioWorkers i).Holds e)
      (hopen : ((dev.ioWorkers i).workQueue e).isCompleted = false) :
      QueueStep env ops dev (.copy i e) ((dev.workerCopy i e).map Prod.snd)
  | complete {i e : Nat} (hheld : (dev.ioWorkers i).Holds e)
      (hopen : ((dev.ioWorkers i).workQueue e).isCompleted = false) :
      QueueStep env ops dev (.complete i e) (dev.workerComplete ops i e)
  | clock (i nsecs : Nat) : QueueStep env ops dev (.clock i nsecs) (.ok (dev.workerClock i nsecs))

/-- The runs from a device without queues whose events all satisfy `C`. -/
inductive QueueRun (env : AdminEnv) (ops : NsOps σ) (C : NvmevDev σ → QueueEvent → Prop) :
    NvmevDev σ → Prop
  | start {dev : NvmevDev σ} {q : NvmevAdminQueue} {sq : Nat → NvmeSqe} {cq : Nat → NvmeCompletion}
      (hready : AdminReady dev q sq cq) (hsqes : ∀ qid, dev.sqes qid = none)
      (hcqes : ∀ qid, dev.cqes qid = none) (hnrSq : dev.nrSq ≤ nrMaxIoQueue)
      (hnrCq : dev.nrCq ≤ nrMaxIoQueue) (hworkers : ∀ i, dev.ioWorkers i = .init) :
      QueueRun env ops C dev
  | step {dev dev' : NvmevDev σ} {ev : QueueEvent} (h : QueueRun env ops C dev) (hc : C dev ev)
      (hstep : QueueStep env ops dev ev (.ok dev')) : QueueRun env ops C dev'

/-! ## What the host must see to -/

/-- An entry in flight that is not completed satisfies `P`. -/
def NvmevDev.InUse (dev : NvmevDev σ) (P : NvmevIoWork → Prop) : Prop :=
  ∃ i e, (dev.ioWorkers i).Holds e ∧ ((dev.ioWorkers i).body e).isInternal = false ∧
    ((dev.ioWorkers i).body e).isCompleted = false ∧ P ((dev.ioWorkers i).body e)

/-- A command that creates or deletes a queue at the right time: queue numbers are in range, a
submission queue is created for a completion queue that exists, and a queue is deleted when
nothing refers to it any more. -/
def QueueCommandOk (dev : NvmevDev σ) (cmd : NvmeSqe) : Prop :=
  match cmd.adminOpcode with
  | .createCq => cmd.qid ≤ nrMaxIoQueue
  | .createSq => cmd.qid ≤ nrMaxIoQueue ∧ cmd.cqid ≤ nrMaxIoQueue ∧ (dev.cqes cmd.cqid).isSome
  | .deleteSq => cmd.qid ≤ nrMaxIoQueue ∧ ¬ dev.InUse fun work => work.sqid = cmd.qid
  | .deleteCq => cmd.qid ≤ nrMaxIoQueue ∧ (¬ dev.InUse fun work => work.cqid = cmd.qid) ∧
    ∀ qid sq, dev.sqes qid = some sq → sq.cqid ≠ cmd.qid
  | _ => True

/-- A completion doorbell inside of the ring that acknowledges completions of submission queues. -/
def CqDbOk (dev : NvmevDev σ) (qid : Nat) : Prop :=
  ∀ cq, dev.cqes qid = some cq → dev.dbs (qid * 2 + 1) < cq.queueSize ∧
    ∀ i ∈ ringSlots cq.queueSize (dev.oldDbs (qid * 2 + 1))
      ((dev.dbs (qid * 2 + 1) + cq.queueSize - dev.oldDbs (qid * 2 + 1)) % cq.queueSize),
      (cq.cq i).sqId ≤ nrMaxIoQueue

/-- The events of a host that sees to it. -/
def QueueEventOk (dev : NvmevDev σ) : QueueEvent → Prop
  | .admin eid => ∀ cmd, dev.adminSqe eid = .ok cmd → QueueCommandOk dev cmd
  | .cqDb qid _ => CqDbOk dev qid
  | _ => True

/-! ## The invariant -/

/-- The queues that an entry names exist, unless no worker uses them any more. -/
def NamesQueues (dev : NvmevDev σ) (work : NvmevIoWork) : Prop :=
  work.isInternal = false → work.isCompleted = false →
    (work.sqid ≤ nrMaxIoQueue ∧ (dev.sqes work.sqid).isSome) ∧
      work.cqid ≤ nrMaxIoQueue ∧ (dev.cqes work.cqid).isSome

/-- Queue numbers are in range, the completion queue of every submission queue exists, and so do
the queues of every entry in flight that is not completed. -/
structure QueuesLive (dev : NvmevDev σ) : Prop where
  sq : ∀ qid sq, dev.sqes qid = some sq →
    qid ≤ nrMaxIoQueue ∧ sq.cqid ≤ nrMaxIoQueue ∧ (dev.cqes sq.cqid).isSome
  cq : ∀ qid cq, dev.cqes qid = some cq → qid ≤ nrMaxIoQueue
  flight : dev.AllInFlight (NamesQueues dev)

/-- The invariant of a run: besides, the admin queue is there, the numbers of queues are in range
and the dispatcher's position in a completion queue is one of its slots. -/
structure QueueInv (dev : NvmevDev σ) : Prop where
  live : QueuesLive dev
  ready : ∃ q sq cq, AdminReady dev q sq cq
  nrSq : dev.nrSq ≤ nrMaxIoQueue
  nrCq : dev.nrCq ≤ nrMaxIoQueue
  slot : ∀ qid cq, dev.cqes qid = some cq → dev.oldDbs (qid * 2 + 1) < cq.queueSize

namespace QueuesLive

variable {dev dev' : NvmevDev σ}

/-- More queues do no harm to the entries in flight. -/
theorem flight_mono (h : QueuesLive dev) (hw : dev'.ioWorkers = dev.ioWorkers)
    (hsq : ∀ qid, (dev.sqes qid).isSome → (dev'.sqes qid).isSome)
    (hcq : ∀ qid, (dev.cqes qid).isSome → (dev'.cqes qid).isSome) :
    dev'.AllInFlight (NamesQueues dev') := by
  intro i
  rw [hw]
  refine (h.flight i).mono fun e _ hnames hint hopen => ?_
  obtain ⟨⟨hsqid, hsome⟩, hcqid, hsome'⟩ := hnames hint hopen
  exact ⟨⟨hsqid, hsq _ hsome⟩, hcqid, hcq _ hsome'⟩

end QueuesLive

/-- A table that is stored at one place has its entries elsewhere. -/
theorem isSome_update {α : Type} {f : Nat → Option α} {i j : Nat} {o : Option α}
    (h : (f j).isSome) (ho : j = i → o.isSome) : (Function.update f i o j).isSome := by
  rcases eq_or_ne j i with rfl | hne
  · rw [Function.update_self]
    exact ho rfl
  · rwa [Function.update_of_ne hne]

/-- What is read from a table after storing `o` at place `i`. -/
theorem update_eq_some {α : Type} {f : Nat → Option α} {i j : Nat} {o : Option α} {a : α}
    (h : Function.update f i o j = some a) : (j = i ∧ o = some a) ∨ (j ≠ i ∧ f j = some a) := by
  rcases eq_or_ne j i with rfl | hne
  · rw [Function.update_self] at h
    exact .inl ⟨rfl, h⟩
  · rw [Function.update_of_ne hne] at h
    exact .inr ⟨hne, h⟩

namespace QueueInv

variable {env : AdminEnv} {ops : NsOps σ} {dev dev' : NvmevDev σ}

/-- A completion of an admin command. -/
theorem answer (h : QueueInv dev) (eid ret result0 result1 : Nat) :
    ∃ dev', dev.makeCqEntryResults eid ret result0 result1 = .ok dev' ∧ QueueInv dev' := by
  obtain ⟨hlive, ⟨q, sq, cq, hready⟩, hnrSq, hnrCq, hslot⟩ := h
  simp only [NvmevDev.makeCqEntryResults, hready.adminSqe, hready.adminQueue, ok_bind, hready.cq]
  exact ⟨_, rfl, ⟨hlive.sq, hlive.cq, hlive.flight⟩, ⟨_, sq, _, rfl, hready.sq, rfl⟩, hnrSq, hnrCq,
    hslot⟩

theorem createCq (h : QueueInv dev) {cmd : NvmeSqe} (hqid : cmd.qid ≤ nrMaxIoQueue) :
    QueueInv ((dev.setCq cmd.qid (NvmevDev.newCq env cmd)).resetDb (cmd.qid * 2 + 1)) := by
  obtain ⟨hlive, ⟨q, sq, cq, hready⟩, hnrSq, hnrCq, hslot⟩ := h
  have hsome : ∀ qid, (dev.cqes qid).isSome →
      (Function.update dev.cqes cmd.qid (some (NvmevDev.newCq env cmd)) qid).isSome :=
    fun qid hq => isSome_update hq fun _ => rfl
  have hread : ∀ qid c, Function.update dev.cqes cmd.qid (some (NvmevDev.newCq env cmd)) qid = some c →
      qid ≤ nrMaxIoQueue ∧
        ((dev.setCq cmd.qid (NvmevDev.newCq env cmd)).resetDb (cmd.qid * 2 + 1)).oldDbs (qid * 2 + 1) <
          c.queueSize := by
    intro qid c hc
    rcases update_eq_some hc with ⟨rfl, hnew⟩ | ⟨hne, hold⟩
    · obtain rfl := Option.some_inj.mp hnew
      refine ⟨hqid, ?_⟩
      simp [NvmevDev.resetDb, NvmevDev.newCq]
    · rw [NvmevDev.resetDb_oldDbs_of_ne (by omega)]
      exact ⟨hlive.cq qid c hold, hslot qid c hold⟩
  refine ⟨⟨fun qid s hs => ?_, fun qid c hc => (hread qid c hc).1, ?_⟩,
    ⟨q, sq, cq, hready.of_adminQ_eq rfl⟩, hnrSq, hnrCq, fun qid c hc => (hread qid c hc).2⟩
  · obtain ⟨hle, hcqid, hcq⟩ := hlive.sq qid s hs
    exact ⟨hle, hcqid, hsome _ hcq⟩
  · exact hlive.flight_mono rfl (fun _ hs => hs) hsome

theorem createSq (h : QueueInv dev) {cmd : NvmeSqe} (hqid : cmd.qid ≤ nrMaxIoQueue)
    (hcqid : cmd.cqid ≤ nrMaxIoQueue) (hcq : (dev.cqes cmd.cqid).isSome) :
    QueueInv ((dev.setSq cmd.qid (NvmevDev.newSq env cmd)).resetDb (cmd.qid * 2)) := by
  obtain ⟨hlive, ⟨q, sq, cq, hready⟩, hnrSq, hnrCq, hslot⟩ := h
  have hread : ∀ qid s, Function.update dev.sqes cmd.qid (some (NvmevDev.newSq env cmd)) qid = some s →
      qid ≤ nrMaxIoQueue ∧ s.cqid ≤ nrMaxIoQueue ∧ (dev.cqes s.cqid).isSome := by
    intro qid s hs
    rcases update_eq_some hs with ⟨rfl, hnew⟩ | ⟨-, hold⟩
    · obtain rfl := Option.some_inj.mp hnew
      exact ⟨hqid, hcqid, hcq⟩
    · exact hlive.sq qid s hold
  refine ⟨⟨hread, hlive.cq, ?_⟩, ⟨q, sq, cq, hready.of_adminQ_eq rfl⟩, hnrSq, hnrCq, fun qid c hc => ?_⟩
  · exact hlive.flight_mono rfl (fun qid hs => isSome_update hs fun _ => rfl) fun _ hc => hc
  · rw [NvmevDev.resetDb_oldDbs_of_ne (by omega)]
    exact hslot qid c hc

theorem deleteSq (h : QueueInv dev) {cmd : NvmeSqe}
    (hfree : ¬ dev.InUse fun work => work.sqid = cmd.qid) :
    QueueInv { dev with sqes := Function.update dev.sqes cmd.qid none } := by
  obtain ⟨hlive, ⟨q, sq, cq, hready⟩, hnrSq, hnrCq, hslot⟩ := h
  refine ⟨⟨fun qid s hs => ?_, hlive.cq, fun i => ?_⟩, ⟨q, sq, cq, hready.of_adminQ_eq rfl⟩, hnrSq,
    hnrCq, hslot⟩
  · rcases update_eq_some hs with ⟨-, hnew⟩ | ⟨-, hold⟩
    · cases hnew
    · exact hlive.sq qid s hold
  · -- An entry that is not completed names another queue.
    refine (hlive.flight i).mono fun e he hnames hint hopen => ?_
    obtain ⟨⟨hsqid, hsome⟩, hcq⟩ := hnames hint hopen
    refine ⟨⟨hsqid, isSome_update hsome fun heq => ?_⟩, hcq⟩
    exact absurd ⟨i, e, he, hint, hopen, heq⟩ hfree

theorem deleteCq (h : QueueInv dev) {cmd : NvmeSqe}
    (hfree : ¬ dev.InUse fun work => work.cqid = cmd.qid)
    (hsqs : ∀ qid sq, dev.sqes qid = some sq → sq.cqid ≠ cmd.qid) :
    QueueInv { dev with cqes := Function.update dev.cqes cmd.qid none } := by
  obtain ⟨hlive, ⟨q, sq, cq, hready⟩, hnrSq, hnrCq, hslot⟩ := h
  have hkept : ∀ qid c, Function.update dev.cqes cmd.qid none qid = some c → dev.cqes qid = some c := by
    intro qid c hc
    rcases update_eq_some hc with ⟨-, hnew⟩ | ⟨-, hold⟩
    · cases hnew
    · exact hold
  refine ⟨⟨fun qid s hs => ?_, fun qid c hc => hlive.cq qid c (hkept qid c hc), fun i => ?_⟩,
    ⟨q, sq, cq, hready.of_adminQ_eq rfl⟩, hnrSq, hnrCq, fun qid c hc => hslot qid c (hkept qid c hc)⟩
  · obtain ⟨hle, hcqid, hcq⟩ := hlive.sq qid s hs
    exact ⟨hle, hcqid, isSome_update hcq fun heq => absurd heq (hsqs qid s hs)⟩
  · refine (hlive.flight i).mono fun e he hnames hint hopen => ?_
    obtain ⟨hsq, hcqid, hsome⟩ := hnames hint hopen
    refine ⟨hsq, hcqid, isSome_update hsome fun heq => ?_⟩
    exact absurd ⟨i, e, he, hint, hopen, heq⟩ hfree

/-- An admin command at the right time. -/
theorem admin (h : QueueInv dev) {eid : Nat} {cmd : NvmeSqe} (hcmd : dev.adminSqe eid = .ok cmd)
    (hid : cmd.adminOpcode ≠ .identify) (hlog : cmd.adminOpcode ≠ .getLogPage)
    (hok : QueueCommandOk dev cmd) :
    ∃ dev', dev.procAdminReq env eid = .ok dev' ∧ QueueInv dev' := by
  simp only [NvmevDev.procAdminReq, hcmd, ok_bind]
  unfold QueueCommandOk at hok
  cases hop : cmd.adminOpcode with
  | deleteSq =>
    rw [hop] at hok
    simp only [NvmevDev.adminDeleteSq, hcmd, ok_bind, AdminReady.requireQid hok.1]
    exact (h.deleteSq hok.2).answer eid nvmeScSuccess 0 0
  | createSq =>
    rw [hop] at hok
    simp only [NvmevDev.adminCreateSq, hcmd, ok_bind, AdminReady.requireQid hok.1]
    exact (h.createSq hok.1 hok.2.1 hok.2.2).answer eid nvmeScSuccess 0 0
  | getLogPage => exact absurd hop hlog
  | deleteCq =>
    rw [hop] at hok
    simp only [NvmevDev.adminDeleteCq, hcmd, ok_bind, AdminReady.requireQid hok.1]
    exact (h.deleteCq hok.2.1 hok.2.2).answer eid nvmeScSuccess 0 0
  | createCq =>
    rw [hop] at hok
    simp only [NvmevDev.adminCreateCq, hcmd, ok_bind, AdminReady.requireQid hok]
    exact (h.createCq hok).answer eid nvmeScSuccess 0 0
  | identify => exact absurd hop hid
  | abortCmd => exact ⟨dev, rfl, h⟩
  | setFeatures =>
    simp only [NvmevDev.adminSetFeatures, hcmd, ok_bind]
    split
    · have hnum : QueueInv { dev with
          nrSq := min (cmd.dword11 % 2 ^ 16 + 1) nrMaxIoQueue
          nrCq := min (cmd.dword11 / 2 ^ 16 + 1) nrMaxIoQueue } := by
        obtain ⟨hlive, ⟨q, sq, cq, hready⟩, -, -, hslot⟩ := h
        exact ⟨⟨hlive.sq, hlive.cq, hlive.flight⟩, ⟨q, sq, cq, hready.of_adminQ_eq rfl⟩,
          Nat.min_le_right _ _, Nat.min_le_right _ _, hslot⟩
      exact hnum.answer eid nvmeScSuccess _ 0
    · exact h.answer eid nvmeScSuccess 0 0
  | getFeatures =>
    simp only [NvmevDev.adminGetFeatures, hcmd, ok_bind]
    exact h.answer eid nvmeScSuccess _ 0
  | asyncEvent => exact h.answer eid nvmeScSuccess 0 0
  | other => exact h.answer eid nvmeScInvalidOpcode 0 0

end QueueInv

/-- Tables of submission queues that differ in nothing but counters and slots. -/
def SameSqs (sqes sqes' : Nat → Option NvmevSubmissionQueue) : Prop :=
  ∀ qid, (sqes' qid).map NvmevSubmissionQueue.cqid = (sqes qid).map NvmevSubmissionQueue.cqid

namespace SameSqs

variable {sqes sqes' : Nat → Option NvmevSubmissionQueue}

theorem isSome (h : SameSqs sqes sqes') {qid : Nat} (hs : (sqes qid).isSome) : (sqes' qid).isSome := by
  rw [← Option.isSome_map, h qid, Option.isSome_map]
  exact hs

theorem some (h : SameSqs sqes sqes') {qid : Nat} {sq : NvmevSubmissionQueue}
    (hs : sqes' qid = .some sq) : ∃ sq', sqes qid = .some sq' ∧ sq'.cqid = sq.cqid := by
  have hmap := h qid
  rw [hs, Option.map_some] at hmap
  exact Option.map_eq_some_iff.mp hmap.symm

/-- One queue is stored with the completion queue it has. -/
theorem update {qid : Nat} {sq sq' : NvmevSubmissionQueue} (hs : sqes qid = .some sq)
    (hcqid : sq'.cqid = sq.cqid) : SameSqs sqes (Function.update sqes qid (.some sq')) := by
  intro q
  rcases eq_or_ne q qid with rfl | hne
  · rw [Function.update_self, hs, Option.map_some, Option.map_some, hcqid]
  · rw [Function.update_of_ne hne]

end SameSqs

/-- The loop of `nvmev_proc_io_cq` over `d` acknowledged slots. -/
theorem procIoCqLoop_spec {cq : NvmevCompletionQueue} {newDb : Nat} (fuel : Nat)
    (sqes : Nat → Option NvmevSubmissionQueue) {i d : Nat} (hi : i ≤ cq.queueSize)
    (hd : d < cq.queueSize) (hend : (i + d) % cq.queueSize = newDb)
    (hack : ∀ k < d, (cq.cq ((i + k) % cq.queueSize)).sqId ≤ nrMaxIoQueue) :
    ∃ r, NvmevDev.procIoCqLoop cq newDb fuel i sqes = .ok r ∧
      ∀ sqes', r = some sqes' → SameSqs sqes sqes' := by
  induction fuel generalizing i d sqes with
  | zero => exact ⟨none, rfl, nofun⟩
  | succ fuel ih =>
    rw [NvmevDev.procIoCqLoop]
    split
    · refine ⟨some sqes, rfl, fun sqes' heq => ?_⟩
      obtain rfl := Option.some_inj.mp heq
      exact fun _ => rfl
    · next hne =>
      split
      · next hwrap =>
        obtain rfl : i = cq.queueSize := Nat.le_antisymm hi hwrap
        simp only [Nat.add_mod_left] at hend hack
        refine ih sqes (i := 0) (Nat.zero_le _) hd ?_ fun k hk => ?_
        · rwa [Nat.zero_add]
        · rw [Nat.zero_add]
          exact hack k hk
      · next hlt =>
        have hi' : i < cq.queueSize := Nat.lt_of_not_le hlt
        have hpos : 0 < d := by
          refine Nat.pos_of_ne_zero fun hzero => hne ?_
          rwa [hzero, Nat.add_zero, Nat.mod_eq_of_lt hi'] at hend
        have hsqid := hack 0 hpos
        rw [Nat.add_zero, Nat.mod_eq_of_lt hi'] at hsqid
        have hend' : (i + 1 + (d - 1)) % cq.queueSize = newDb := by
          rwa [Nat.add_assoc, Nat.add_sub_cancel' hpos]
        have hack' : ∀ k < d - 1, (cq.cq ((i + 1 + k) % cq.queueSize)).sqId ≤ nrMaxIoQueue := by
          intro k hk
          rw [Nat.add_assoc]
          exact hack (1 + k) (by omega)
        simp only [require_pos hsqid, ok_bind]
        cases hs : sqes (cq.cq i).sqId with
        | none => exact ih sqes hi' (by omega) hend' hack'
        | some sq =>
          obtain ⟨r, hr, hsame⟩ := ih (Function.update sqes (cq.cq i).sqId
            (some { sq with stat := { sq.stat with nrInFlight := u32Sub sq.stat.nrInFlight 1 } }))
            hi' (by omega) hend' hack'
          refine ⟨r, hr, fun sqes' heq qid => (hsame sqes' heq qid).trans ?_⟩
          refine SameSqs.update hs ?_ qid
          rfl

namespace QueueInv

variable {env : AdminEnv} {ops : NsOps σ} {dev dev' : NvmevDev σ}

/-- A step that leaves the tables of queues as they are but for counters and slots. -/
theorem of_same (h : QueueInv dev) (hready : ∃ q sq cq, AdminReady dev' q sq cq)
    (hnrSq : dev'.nrSq = dev.nrSq) (hnrCq : dev'.nrCq = dev.nrCq) (hsq : SameSqs dev.sqes dev'.sqes)
    (hcqSome : ∀ qid, (dev.cqes qid).isSome → (dev'.cqes qid).isSome)
    (hcq : ∀ qid cq, dev'.cqes qid = some cq →
      (dev.cqes qid).isSome ∧ dev'.oldDbs (qid * 2 + 1) < cq.queueSize)
    (hflight : dev'.AllInFlight (NamesQueues dev)) : QueueInv dev' := by
  refine ⟨⟨fun qid s hs => ?_, fun qid c hc => ?_, fun i => ?_⟩, hready, hnrSq ▸ h.nrSq,
    hnrCq ▸ h.nrCq, fun qid c hc => (hcq qid c hc).2⟩
  · obtain ⟨s', hs', hcqid⟩ := hsq.some hs
    obtain ⟨hle, hcqidLe, hsome⟩ := h.live.sq qid s' hs'
    exact ⟨hle, hcqid ▸ hcqidLe, hcqid ▸ hcqSome _ hsome⟩
  · obtain ⟨c', hc'⟩ := Option.isSome_iff_exists.mp (hcq qid c hc).1
    exact h.live.cq qid c' hc'
  · refine (hflight i).mono fun e _ hnames hint hopen => ?_
    obtain ⟨⟨hsqid, hsome⟩, hcqid, hsome'⟩ := hnames hint hopen
    exact ⟨⟨hsqid, hsq.isSome hsome⟩, hcqid, hcqSome _ hsome'⟩

theorem host (h : QueueInv dev) (dbs : Nat → Nat) (adminSlots : Nat → NvmeSqe)
    (sqSlots : Nat → Nat → NvmeSqe) (cqSlots : Nat → Nat → NvmeCompletion) :
    QueueInv (dev.hostWrites dbs adminSlots sqSlots cqSlots) := by
  obtain ⟨q, sq, cq, hready⟩ := h.ready
  refine h.of_same ⟨{ q with nvmeSq := some adminSlots }, adminSlots, cq, ?_, rfl, hready.cq⟩ rfl rfl
    (fun qid => ?_) (fun qid hs => ?_) (fun qid c hc => ?_) h.live.flight
  · simp only [NvmevDev.hostWrites, hready.queue, hready.sq, Option.map_some]
  · change ((dev.sqes qid).map _).map _ = _
    rw [Option.map_map]
    rfl
  · change ((dev.cqes qid).map _).isSome
    rwa [Option.isSome_map]
  · obtain ⟨c', hc', rfl⟩ := Option.map_eq_some_iff.mp hc
    exact ⟨Option.isSome_iff_exists.mpr ⟨c', hc'⟩, h.slot qid c' hc'⟩

theorem dispatch (h : QueueInv dev) {qid : Nat} {sq : NvmevSubmissionQueue} (sqEntry : Nat)
    (hsq : dev.sqes qid = some sq) : QueueInv (dev.nvmevProcIo ops qid sq sqEntry).2 := by
  have hsame := SameQueues.nvmevProcIo ops dev qid sq sqEntry
  obtain ⟨hle, hcqid, hcq⟩ := h.live.sq qid sq hsq
  have hflight : (dev.nvmevProcIo ops qid sq sqEntry).2.AllInFlight (NamesQueues dev) := by
    refine h.live.flight.nvmevProcIo ops qid sq sqEntry (fun old c hint => ?_)
      fun old nsecsTarget status _ _ => ?_
    · cases hint
    · exact ⟨⟨hle, Option.isSome_iff_exists.mpr ⟨sq, hsq⟩⟩, hcqid, hcq⟩
  generalize (dev.nvmevProcIo ops qid sq sqEntry).2 = d at hsame hflight
  obtain ⟨q, s, c, hready⟩ := h.ready
  refine h.of_same ⟨q, s, c, hready.of_adminQ_eq hsame.adminQ⟩ hsame.nrSq hsame.nrCq (fun qid => ?_)
    (fun qid hs => ?_) (fun qid c hc => ?_) hflight
  · rw [hsame.sqes]
  · rwa [hsame.cqes]
  · rw [hsame.cqes] at hc
    rw [hsame.oldDbs]
    exact ⟨Option.isSome_iff_exists.mpr ⟨c, hc⟩, h.slot qid c hc⟩

theorem polled (h : QueueInv dev) {qid : Nat} {sq : NvmevSubmissionQueue} (latestDb : Nat)
    (stat : NvmevSqStat) (hsq : dev.sqes qid = some sq) :
    QueueInv (dev.polledSq qid latestDb sq stat) := by
  obtain ⟨q, s, c, hready⟩ := h.ready
  refine h.of_same ⟨q, s, c, hready.of_adminQ_eq rfl⟩ rfl rfl (SameSqs.update hsq rfl)
    (fun _ hs => hs) (fun qid' c hc => ⟨Option.isSome_iff_exists.mpr ⟨c, hc⟩, ?_⟩) h.live.flight
  have hne : qid' * 2 + 1 ≠ qid * 2 := by omega
  change Function.update dev.oldDbs (qid * 2) latestDb (qid' * 2 + 1) < c.queueSize
  rw [Function.update_of_ne hne]
  exact h.slot qid' c hc

/-- A completion doorbell that acknowledges completions. -/
theorem cqDb (h : QueueInv dev) {fuel qid : Nat} (hok : CqDbOk dev qid) :
    ∃ r, dev.procCqDb fuel qid = .ok r ∧ ∀ dev', r = some dev' → QueueInv dev' := by
  have hself : ∀ dev', some dev = some dev' → QueueInv dev' := by
    intro dev' heq
    obtain rfl := Option.some_inj.mp heq
    exact h
  unfold NvmevDev.procCqDb
  cases hcq : dev.cqes qid with
  | none => exact ⟨_, rfl, hself⟩
  | some cq =>
    simp only
    split
    · exact ⟨_, rfl, hself⟩
    · obtain ⟨hdb, hack⟩ := hok cq hcq
      have hold := h.slot qid cq hcq
      obtain ⟨-, -, hend⟩ := submittedUpTo_spec (p := dev.oldDbs (qid * 2 + 1)) hdb
      rw [submittedUpTo, Nat.mod_eq_of_lt hold] at hend
      obtain ⟨r, hr, hsame⟩ := procIoCqLoop_spec fuel dev.sqes hold.le
        (Nat.mod_lt _ (Nat.zero_lt_of_lt hold)) hend fun k hk => hack _ (mem_ringSlots hk)
      rw [hr, ok_bind]
      cases r with
      | none => exact ⟨none, rfl, fun _ heq => by cases heq⟩
      | some sqes =>
        refine ⟨_, rfl, fun dev' heq => ?_⟩
        obtain rfl := Option.some_inj.mp heq
        obtain ⟨q, s, c, hready⟩ := h.ready
        refine h.of_same ⟨q, s, c, hready.of_adminQ_eq rfl⟩ rfl rfl (hsame sqes rfl)
          (fun _ hs => isSome_update hs fun _ => rfl) (fun qid' c hc => ?_) h.live.flight
        rcases update_eq_some hc with ⟨rfl, hnew⟩ | ⟨hne, hkept⟩
        · obtain rfl := Option.some_inj.mp hnew
          refine ⟨Option.isSome_iff_exists.mpr ⟨cq, hcq⟩, ?_⟩
          rw [NvmevCompletionQueue.storeTail_queueSize]
          simp only [NvmevDev.setCq, Function.update_self]
          exact hdb
        · refine ⟨Option.isSome_iff_exists.mpr ⟨c, hkept⟩, ?_⟩
          have hne' : qid' * 2 + 1 ≠ qid * 2 + 1 := by omega
          change Function.update dev.oldDbs (qid * 2 + 1) _ (qid' * 2 + 1) < c.queueSize
          rw [Function.update_of_ne hne']
          exact h.slot qid' c hkept

/-- A worker is stored. -/
theorem setWorker (h : QueueInv dev) {i : Nat} {w : NvmevIoWorker}
    (hw : w.AllInFlight (NamesQueues dev)) : QueueInv (dev.setWorker i w) := by
  obtain ⟨q, s, c, hready⟩ := h.ready
  exact h.of_same ⟨q, s, c, hready.of_adminQ_eq rfl⟩ rfl rfl (fun _ => rfl) (fun _ hs => hs)
    (fun qid c hc => ⟨Option.isSome_iff_exists.mpr ⟨c, hc⟩, h.slot qid c hc⟩)
    (h.live.flight.setWorker hw)

/-- The copy of an entry finds its submission queue. -/
theorem copy (h : QueueInv dev) {i e : Nat} (hheld : (dev.ioWorkers i).Holds e)
    (hopen : ((dev.ioWorkers i).workQueue e).isCompleted = false) :
    ∃ r, dev.workerCopy i e = .ok r ∧ QueueInv r.2 := by
  have hnames : NamesQueues dev ((dev.ioWorkers i).workQueue e) := (h.live.flight i).of_holds hheld
  have hset : QueueInv (dev.setWorker i ((dev.ioWorkers i).setWork e
      { (dev.ioWorkers i).workQueue e with isCopied := true })) := by
    refine h.setWorker ((h.live.flight i).setWork ?_ ?_ fun hn => ?_)
    · rfl
    · rfl
    · exact hn
  unfold NvmevDev.workerCopy
  simp only
  split
  · exact ⟨_, rfl, hset⟩
  · next hint =>
    obtain ⟨⟨hsqid, hsome⟩, -⟩ := hnames (Bool.eq_false_iff.mpr hint) hopen
    obtain ⟨sq, hsq⟩ := Option.isSome_iff_exists.mp hsome
    have hget : (dev.setWorker i ((dev.ioWorkers i).setWork e
        { (dev.ioWorkers i).workQueue e with isCopied := true })).getSq
        ((dev.ioWorkers i).workQueue e).sqid = .ok sq := by
      rw [NvmevDev.getSq, if_pos hsqid]
      simp only [NvmevDev.setWorker, hsq]
    rw [hget]
    exact ⟨_, rfl, hset⟩

/-- The completion of an entry finds its completion queue. -/
theorem complete (h : QueueInv dev) {i e : Nat} (hheld : (dev.ioWorkers i).Holds e)
    (hopen : ((dev.ioWorkers i).workQueue e).isCompleted = false) :
    ∃ dev', dev.workerComplete ops i e = .ok dev' ∧ QueueInv dev' := by
  have hnames : NamesQueues dev ((dev.ioWorkers i).workQueue e) := (h.live.flight i).of_holds hheld
  have hset : ∀ d : NvmevDev σ, QueueInv d → d.ioWorkers = dev.ioWorkers →
      QueueInv (d.setWorker i ((dev.ioWorkers i).setWork e
        { (dev.ioWorkers i).workQueue e with isCompleted := true })) := by
    intro d hd hw
    have hflight := hd.live.flight i
    rw [hw] at hflight
    refine hd.setWorker (hflight.setWork ?_ ?_ fun _ => ?_)
    · rfl
    · rfl
    · exact nofun
  unfold NvmevDev.workerComplete
  simp only
  split
  · refine ⟨_, rfl, hset _ ?_ rfl⟩
    obtain ⟨q, s, c, hready⟩ := h.ready
    exact ⟨⟨h.live.sq, h.live.cq, h.live.flight⟩, ⟨q, s, c, hready.of_adminQ_eq rfl⟩, h.nrSq, h.nrCq,
      h.slot⟩
  · next hint =>
    obtain ⟨-, hcqid, hsome⟩ := hnames (Bool.eq_false_iff.mpr hint) hopen
    obtain ⟨cq, hcq⟩ := Option.isSome_iff_exists.mp hsome
    have hget : dev.getCq ((dev.ioWorkers i).workQueue e).cqid = .ok cq := by
      rw [NvmevDev.getCq, if_pos hcqid]
      simp only [hcq]
    simp only [NvmevDev.fillCqResult, hget, ok_bind]
    refine ⟨_, rfl, hset _ ?_ rfl⟩
    obtain ⟨q, s, c, hready⟩ := h.ready
    refine h.of_same ⟨q, s, c, hready.of_adminQ_eq rfl⟩ rfl rfl (fun _ => rfl)
      (fun _ hs => isSome_update hs fun _ => rfl) (fun qid c hc => ?_) h.live.flight
    rcases update_eq_some hc with ⟨rfl, hnew⟩ | ⟨-, hkept⟩
    · obtain rfl := Option.some_inj.mp hnew
      exact ⟨Option.isSome_iff_exists.mpr ⟨cq, hcq⟩, h.slot _ cq hcq⟩
    · exact ⟨Option.isSome_iff_exists.mpr ⟨c, hkept⟩, h.slot qid c hkept⟩

/-- Every event of a host that sees to the queues. -/
theorem step (h : QueueInv dev) {ev : QueueEvent} {r : Except DevFault (NvmevDev σ)}
    (hok : QueueEventOk dev ev) (hstep : QueueStep env ops dev ev r) :
    ∃ dev', r = .ok dev' ∧ QueueInv dev' := by
  cases hstep with
  | host dbs adminSlots sqSlots cqSlots =>
    exact ⟨_, rfl, h.host dbs adminSlots sqSlots cqSlots⟩
  | admin hcmd hid hlog => exact h.admin hcmd hid hlog (hok _ hcmd)
  | dispatch sqEntry _ hsq => exact ⟨_, rfl, h.dispatch sqEntry hsq⟩
  | polled latestDb stat hsq => exact ⟨_, rfl, h.polled latestDb stat hsq⟩
  | cqDb _ hdone =>
    obtain ⟨r, hr, hinv⟩ := h.cqDb hok
    obtain rfl := Except.ok.inj (hr.symm.trans hdone)
    exact ⟨_, rfl, hinv _ rfl⟩
  | cqDbFault _ herr =>
    obtain ⟨r, hr, -⟩ := h.cqDb hok
    cases hr.symm.trans herr
  | copy hheld hopen =>
    obtain ⟨r, hr, hinv⟩ := h.copy hheld hopen
    rw [hr]
    exact ⟨_, rfl, hinv⟩
  | complete hheld hopen => exact h.complete hheld hopen
  | clock i nsecs => exact ⟨_, rfl, h.setWorker ((h.live.flight i).clock nsecs)⟩

end QueueInv

theorem QueueRun.inv {env : AdminEnv} {ops : NsOps σ} {dev : NvmevDev σ}
    (h : QueueRun env ops QueueEventOk dev) : QueueInv dev := by
  induction h with
  | start hready hsqes hcqes hnrSq hnrCq hworkers =>
    refine ⟨⟨fun qid s hs => ?_, fun qid c hc => ?_, fun i => ?_⟩, ⟨_, _, _, hready⟩, hnrSq, hnrCq,
      fun qid c hc => ?_⟩
    · rw [hsqes qid] at hs
      cases hs
    · rw [hcqes qid] at hc
      cases hc
    · rw [hworkers i]
      exact NvmevIoWorker.AllInFlight.init
    · rw [hcqes qid] at hc
      cases hc
  | step _ hc hstep ih =>
    obtain ⟨dev', heq, hinv⟩ := ih.step hc hstep
    obtain rfl := Except.ok.inj heq
    exact hinv

/-- In every run whose queue commands and completion doorbells come at the right time, queue
numbers are in range, every submission queue refers to a completion queue that exists, the queues
of every entry in flight that is not completed exist, and the next such event meets no missing
queue and no number out of range. -/
theorem queue_lifetime {env : AdminEnv} {ops : NsOps σ} {dev : NvmevDev σ}
    (h : QueueRun env ops QueueEventOk dev) :
    QueuesLive dev ∧ dev.nrSq ≤ nrMaxIoQueue ∧ dev.nrCq ≤ nrMaxIoQueue ∧
      ∀ ev r, QueueEventOk dev ev → QueueStep env ops dev ev r → ∃ dev', r = .ok dev' := by
  refine ⟨h.inv.live, h.inv.nrSq, h.inv.nrCq, fun ev r hok hstep => ?_⟩
  obtain ⟨dev', heq, -⟩ := h.inv.step hok hstep
  exact ⟨dev', heq⟩

/-! ## A queue that is deleted too early -/

/-- The commands that create queues 1 of two slots, and the one that deletes submission queue 1. -/
def createCqOne : NvmeSqe := { adminCommand 0x05 with cdw10 := 2 ^ 16 + 1 }
def createSqOne : NvmeSqe := { adminCommand 0x01 with cdw10 := 2 ^ 16 + 1, cdw11 := 2 ^ 16 }
def deleteSqOne : NvmeSqe := { adminCommand 0x00 with cdw10 := 1 }

/-- The admin ring with these commands. -/
def queueCommands (eid : Nat) : NvmeSqe :=
  if eid = 0 then createCqOne else if eid = 1 then createSqOne else deleteSqOne

/-- A device with one worker whose host has written these commands. -/
def queueDevice : NvmevDev Unit :=
  { adminIdle with
    nrIoWorkers := 1
    ioWorkers := fun _ => .init
    nrSq := 1
    nrCq := 1
    adminQ := some { twoSlotQueue with nvmeSq := some queueCommands } }

theorem queueDevice_run (C : NvmevDev Unit → QueueEvent → Prop) :
    QueueRun emptyEnv acceptAll C queueDevice :=
  .start ⟨rfl, rfl, rfl⟩ (fun _ => rfl) (fun _ => rfl) (by decide) (by decide) fun _ => rfl

/-- An admin command that has a result. -/
theorem QueueRun.admin {env : AdminEnv} {ops : NsOps σ} {C : NvmevDev σ → QueueEvent → Prop}
    {dev dev' : NvmevDev σ} {cmd : NvmeSqe} (h : QueueRun env ops C dev) (eid : Nat)
    (hc : C dev (.admin eid)) (hcmd : dev.adminSqe eid = .ok cmd)
    (hid : cmd.adminOpcode ≠ .identify) (hlog : cmd.adminOpcode ≠ .getLogPage)
    (hok : dev.procAdminReq env eid = .ok dev') : QueueRun env ops C dev' :=
  h.step hc (hok ▸ .admin hcmd hid hlog)

/-- The host creates a completion queue and a submission queue. -/
theorem queue_lifetime_created : ∃ dev : NvmevDev Unit,
    QueueRun emptyEnv acceptAll QueueEventOk dev ∧ (dev.sqes 1).isSome ∧ QueuesLive dev := by
  have hcreateCq : QueueEventOk queueDevice (.admin 0) := by
    intro cmd hcmd
    obtain rfl := Except.ok.inj hcmd
    exact (by decide : createCqOne.qid ≤ nrMaxIoQueue)
  have hcq := (queueDevice_run QueueEventOk).admin 0 hcreateCq rfl (by decide) (by decide) rfl
  have hsq := hcq.admin 1 (fun cmd hcmd => by
    obtain rfl := Except.ok.inj hcmd
    exact ⟨by decide, by decide, rfl⟩) rfl (by decide) (by decide) rfl
  exact ⟨_, hsq, rfl, (queue_lifetime hsq).1⟩

/-- A command that is dispatched by a device with one idle worker is in flight. -/
theorem holds_dispatched {dev : NvmevDev Unit} (sq : NvmevSubmissionQueue)
    (hworker : dev.ioWorkers 0 = .init) (hnum : dev.nrIoWorkers = 1) :
    let w := (dev.nvmevProcIo acceptAll 1 sq 0).2.ioWorkers 0
    w.Holds 0 ∧ (w.body 0).isCompleted = false ∧ (w.body 0).isInternal = false ∧
      (w.body 0).sqid = 1 := by
  -- The clock is all that has changed before the entry is submitted.
  obtain ⟨d, fill, hproc, hworker', hnum', hfill, hopen, hint, hsqid⟩ :
      ∃ (d : NvmevDev Unit) (fill : NvmevIoWork → NvmevIoWork),
        (dev.nvmevProcIo acceptAll 1 sq 0).2 = (d.submitWork 1 fill).reclaimCompletedReqs ∧
        d.ioWorkers 0 = .init ∧ d.nrIoWorkers = 1 ∧ NvmevIoWorker.Clears fill ∧
        (∀ old, (fill old).isCompleted = false) ∧ (∀ old, (fill old).isInternal = false) ∧
        ∀ old, (fill old).sqid = 1 :=
    ⟨{ dev with clock := dev.clock.read.2, ns := () },
      fun old => NvmevIoWorker.ioWork old 1 sq.cqid 0 (sq.sq 0).commandId dev.clock.read.1 0,
      rfl, hworker, hnum, fun _ => ⟨rfl, rfl⟩, fun _ => rfl, fun _ => rfl, fun _ => rfl⟩
  have hturn : d.getIoWorker 1 = 0 := by
    rw [NvmevDev.getIoWorker, hnum', Nat.mod_one]
  have hw : (dev.nvmevProcIo acceptAll 1 sq 0).2.ioWorkers 0 =
      (NvmevIoWorker.init.submit fill).reclaim := by
    rw [hproc]
    change (if 0 < (d.submitWork 1 fill).nrIoWorkers then ((d.submitWork 1 fill).ioWorkers 0).reclaim
      else (d.submitWork 1 fill).ioWorkers 0) = _
    rw [(SameQueues.submitWork d 1 fill).nrIoWorkers, if_pos (hnum' ▸ Nat.one_pos),
      NvmevDev.submitWork_ioWorkers, hturn, Function.update_self, hworker']
  have hinit := NvmevIoWorker.init_spec
  rw [show nrMaxParallelIo = 16383 + 1 from rfl, List.range_succ_eq_map] at hinit
  obtain ⟨hholds, hbody⟩ := NvmevIoWorker.holds_submit hinit (by simp) hfill
  simp only [hw, NvmevIoWorker.reclaim_body, hbody]
  exact ⟨hholds.reclaim (hbody ▸ hopen _), hopen _, hint _, hsqid _⟩

/-- Deleting a submission queue makes its place empty. -/
theorem deleteSqOne_sqes (env : AdminEnv) {dev : NvmevDev Unit} {q : NvmevAdminQueue}
    {sq : Nat → NvmeSqe} {cq : Nat → NvmeCompletion} (h : AdminReady dev q sq cq) {eid : Nat}
    (hcmd : sq eid = deleteSqOne) : ∃ dev', dev.procAdminReq env eid = .ok dev' ∧
      dev'.sqes 1 = none ∧ dev'.ioWorkers = dev.ioWorkers := by
  have hop : deleteSqOne.adminOpcode = .deleteSq := rfl
  have hqid : deleteSqOne.qid = 1 := rfl
  have hdeleted : AdminReady { dev with sqes := Function.update dev.sqes 1 none } q sq cq :=
    h.of_adminQ_eq rfl
  simp only [NvmevDev.procAdminReq, h.adminSqe, hcmd, ok_bind, hop, NvmevDev.adminDeleteSq, hqid,
    AdminReady.requireQid (by decide : 1 ≤ nrMaxIoQueue), NvmevDev.makeCqEntry,
    NvmevDev.makeCqEntryResults, hdeleted.adminSqe, hdeleted.adminQueue, h.cq]
  refine ⟨_, rfl, ?_, rfl⟩
  simp

/-- The copy of an entry whose submission queue is missing. -/
theorem workerCopy_of_missing {dev : NvmevDev σ} {i e : Nat}
    (hint : ((dev.ioWorkers i).workQueue e).isInternal = false)
    (hsqid : ((dev.ioWorkers i).workQueue e).sqid ≤ nrMaxIoQueue)
    (hgone : dev.sqes ((dev.ioWorkers i).workQueue e).sqid = none) :
    dev.workerCopy i e = .error .nullQueue := by
  have hget : ∀ w, (dev.setWorker i w).getSq ((dev.ioWorkers i).workQueue e).sqid =
      .error .nullQueue := by
    intro w
    rw [NvmevDev.getSq, if_pos hsqid]
    simp only [NvmevDev.setWorker, hgone]
  unfold NvmevDev.workerCopy
  simp only
  rw [if_neg (Bool.eq_false_iff.mp hint), hget]
  rfl

/-- The host deletes a submission queue when one of its commands is in flight, as it does when it
tears a queue down; the worker that copies the data of the command finds no queue. -/
theorem deleted_queue_dereferenced : ∃ dev : NvmevDev Unit,
    QueueRun emptyEnv acceptAll (fun _ _ => True) dev ∧ ¬ QueuesLive dev ∧
      QueueStep emptyEnv acceptAll dev (.copy 0 0) (.error .nullQueue) := by
  obtain ⟨dev, sq, q, cq, hrun, hsq, hready, hworker, hnum, hnrSq⟩ :
      ∃ (dev : NvmevDev Unit) (sq : NvmevSubmissionQueue) (q : NvmevAdminQueue)
        (cq : Nat → NvmeCompletion), QueueRun emptyEnv acceptAll (fun _ _ => True) dev ∧
        dev.sqes 1 = some sq ∧ AdminReady dev q queueCommands cq ∧ dev.ioWorkers 0 = .init ∧
        dev.nrIoWorkers = 1 ∧ dev.nrSq = 1 := by
    have hcq := (queueDevice_run fun _ _ => True).admin 0 trivial rfl (by decide) (by decide) rfl
    have hsq := hcq.admin 1 trivial rfl (by decide) (by decide) rfl
    exact ⟨_, _, _, _, hsq, rfl, ⟨rfl, rfl, rfl⟩, rfl, rfl, rfl⟩
  have hdispatched := hrun.step trivial (.dispatch 0 ⟨le_rfl, hnrSq.ge⟩ hsq)
  obtain ⟨hholds, hopen, hint, hsqid⟩ := holds_dispatched sq hworker hnum
  have hready' := hready.of_adminQ_eq (SameQueues.nvmevProcIo acceptAll dev 1 sq 0).adminQ
  generalize (dev.nvmevProcIo acceptAll 1 sq 0).2 = dev₁ at hdispatched hholds hopen hint hsqid hready'
  have hcmd : queueCommands 2 = deleteSqOne := rfl
  obtain ⟨dev₂, hok, hgone, hworkers⟩ := deleteSqOne_sqes emptyEnv hready' hcmd
  have hdeleted := hdispatched.admin 2 trivial (hready'.adminSqe 2) (by decide) (by decide) hok
  rw [← hworkers] at hholds hopen hint hsqid
  refine ⟨dev₂, hdeleted, fun hlive => ?_, ?_⟩
  · obtain ⟨⟨-, hsome⟩, -⟩ := ((hlive.flight 0).of_holds hholds) hint hopen
    rw [hsqid, hgone] at hsome
    cases hsome
  · have hstep : QueueStep emptyEnv acceptAll dev₂ (.copy 0 0) _ := .copy hholds hopen
    have hgone' : dev₂.sqes ((dev₂.ioWorkers 0).workQueue 0).sqid = none :=
      (congrArg dev₂.sqes hsqid).trans hgone
    rw [workerCopy_of_missing hint (hsqid.trans_le (by decide)) hgone'] at hstep
    exact hstep

end NvmeVirt
