import NvmeVirt.Io.Integrity
import NvmeVirt.Kv.State

/-!
# What a completion reports

Work entries are recycled. `__enqueue_io_req` leaves both results of the last use in place, and the
worker stores `result0` only where the namespace performs the command itself, so that a completion
may report what an earlier command of the same entry returned.
-/

namespace NvmeVirt

variable {σ γ κ : Type}

/-- What a worker does with a command: `BASE_SSD == KV_PROTOTYPE`, `io_using_dma`, and the functions
of the namespace. `perform_io_cmd` returns `result0` and the status. -/
structure IoBuild (γ κ : Type) where
  kvPrototype : Bool
  ioUsingDma : Bool
  identifyIoCmd : γ → Bool
  performIoCmd : κ → γ → Nat → Nat × Nat

namespace IoBuild

/-- The worker has the namespace perform the command. -/
def performs (b : IoBuild γ κ) (cmd : γ) : Bool :=
  b.kvPrototype && !b.ioUsingDma && b.identifyIoCmd cmd

/-- The copy of `nvmev_io_worker`, for the command in the slot of the entry. -/
def copyWork (b : IoBuild γ κ) (work : NvmevIoWork) (cmd : γ) (kv : κ) : NvmevIoWork :=
  if work.isInternal = true ∨ b.performs cmd = false then { work with isCopied := true }
  else
    let (result0, status) := b.performIoCmd kv cmd work.status
    { work with result0, status, isCopied := true }

end IoBuild

/-- One use of a work entry: the status that its command was enqueued with, absent for an internal
operation; the command and the store at its copy; and what `__fill_cq_result` posts of it, which is
the status, `result0` and `result1`. -/
structure EntryUse (γ κ : Type) where
  status : Option Nat
  copied : Option (γ × κ)
  posted : Option (Nat × Nat × Nat)

/-- A device with the uses of every entry of every worker, the last one first. -/
structure IoHistory (σ γ κ : Type) where
  dev : NvmevDev σ
  uses : Nat → Nat → List (EntryUse γ κ)

namespace IoHistory

/-- Record the uses of one entry. -/
def setUses (s : IoHistory σ γ κ) (i e : Nat) (us : List (EntryUse γ κ)) :
    Nat → Nat → List (EntryUse γ κ) :=
  Function.update s.uses i (Function.update (s.uses i) e us)

/-- An entry is taken for a queue, and filled. -/
def submit (s : IoHistory σ γ κ) (sqid : Nat) (fill : NvmevIoWork → NvmevIoWork)
    (status : Option Nat) : IoHistory σ γ κ where
  dev := s.dev.submitWork sqid fill
  uses :=
    let i := s.dev.getIoWorker sqid
    match (s.dev.ioWorkers i).allocate with
    | none => s.uses
    | some (e, _) => s.setUses i e ({ status, copied := none, posted := none } :: s.uses i e)

/-- `__enqueue_io_req`. -/
def enqueue (s : IoHistory σ γ κ) (sqid cqid sqEntry commandId nsecsTarget status : Nat) :
    IoHistory σ γ κ :=
  s.submit sqid
    (fun old => NvmevIoWorker.ioWork old sqid cqid sqEntry commandId nsecsTarget status)
    (some status)

/-- `schedule_internal_operation`. -/
def schedule (s : IoHistory σ γ κ) (c : InternalCall) : IoHistory σ γ κ :=
  s.submit c.sqid (fun old =>
    NvmevIoWorker.internalWork old c.sqid c.nsecsTarget c.writeBuffer c.buffsToRelease) none

/-- Worker `i` copies the entry `e`, whose last use is `u`. -/
def copy (s : IoHistory σ γ κ) (b : IoBuild γ κ) (i e : Nat) (u : EntryUse γ κ)
    (us : List (EntryUse γ κ)) (cmd : γ) (kv : κ) : IoHistory σ γ κ where
  dev :=
    let w := s.dev.ioWorkers i
    s.dev.setWorker i (w.setWork e (b.copyWork (w.workQueue e) cmd kv))
  uses := s.setUses i e ({ u with copied := some (cmd, kv) } :: us)

/-- Worker `i` completes the entry `e`, whose last use is `u`. -/
def complete (s : IoHistory σ γ κ) (i e : Nat) (u : EntryUse γ κ) (us : List (EntryUse γ κ)) :
    IoHistory σ γ κ where
  dev := s.dev.workEvent (.completed i e)
  uses :=
    let work := (s.dev.ioWorkers i).workQueue e
    if work.isInternal = true then s.uses
    else s.setUses i e
      ({ u with posted := some (work.status, work.result0, work.result1) } :: us)

end IoHistory

/-- The histories of a device: the dispatcher enqueues commands and internal operations and
reclaims entries, and the workers copy and complete the entries in use, in any order. -/
inductive IoRun (b : IoBuild γ κ) : IoHistory σ γ κ → Prop
  | init (dev : NvmevDev σ) : IoRun b { dev := dev.ioWorkerInit, uses := fun _ _ => [] }
  | enqueue {s : IoHistory σ γ κ} (h : IoRun b s)
    (sqid cqid sqEntry commandId nsecsTarget status : Nat) :
    IoRun b (s.enqueue sqid cqid sqEntry commandId nsecsTarget status)
  | schedule {s : IoHistory σ γ κ} (h : IoRun b s) (c : InternalCall) : IoRun b (s.schedule c)
  | copy {s : IoHistory σ γ κ} (h : IoRun b s) {i e : Nat} {u : EntryUse γ κ}
    {us : List (EntryUse γ κ)} (huse : s.uses i e = u :: us)
    (hcopy : ((s.dev.ioWorkers i).workQueue e).isCopied = false) (cmd : γ) (kv : κ) :
    IoRun b (s.copy b i e u us cmd kv)
  | complete {s : IoHistory σ γ κ} (h : IoRun b s) {i e : Nat} {u : EntryUse γ κ}
    {us : List (EntryUse γ κ)} (huse : s.uses i e = u :: us)
    (hcopy : ((s.dev.ioWorkers i).workQueue e).isCopied = true)
    (hopen : ((s.dev.ioWorkers i).workQueue e).isCompleted = false) :
    IoRun b (s.complete i e u us)
  | clock {s : IoHistory σ γ κ} (h : IoRun b s) (i nsecs : Nat) :
    IoRun b { s with dev := s.dev.workEvent (.clock i nsecs) }
  | reclaim {s : IoHistory σ γ κ} (h : IoRun b s) :
    IoRun b { s with dev := s.dev.workEvent .reclaim }

namespace IoBuild

variable (b : IoBuild γ κ)

/-- The value that the uses of an entry leave in its `result0`: that of the last command that the
namespace performed, or 0. -/
def leftover : List (EntryUse γ κ) → Nat
  | [] => 0
  | u :: us =>
    match u.status, u.copied with
    | some status, some (cmd, kv) =>
      if b.performs cmd then (b.performIoCmd kv cmd status).1 else leftover us
    | _, _ => leftover us

/-- The status of a command after its copy. -/
def statusOf (status : Nat) (cmd : γ) (kv : κ) : Nat :=
  if b.performs cmd then (b.performIoCmd kv cmd status).2 else status

/-- What the last use of an entry has made of it. -/
structure Current (work : NvmevIoWork) (u : EntryUse γ κ) (us : List (EntryUse γ κ)) : Prop where
  internal : work.isInternal = u.status.isNone
  released : u.status = none → work.isCopied = true
  uncopied : ∀ status, u.status = some status → u.copied = none →
    work.isCopied = false ∧ work.status = status
  copied : ∀ status cmd kv, u.status = some status → u.copied = some (cmd, kv) →
    work.isCopied = true ∧ work.status = b.statusOf status cmd kv
  posted : ∀ status cmd kv p, u.status = some status → u.copied = some (cmd, kv) →
    u.posted = some p → p = (b.statusOf status cmd kv, b.leftover (u :: us), 0)
  unposted : u.copied = none → u.posted = none

/-- What the uses of an entry have made of it. -/
structure Matches (work : NvmevIoWork) (uses : List (EntryUse γ κ)) : Prop where
  result0 : work.result0 = b.leftover uses
  result1 : work.result1 = 0
  current : ∀ u us, uses = u :: us → b.Current work u us

variable {b : IoBuild γ κ} {work old : NvmevIoWork} {u : EntryUse γ κ} {us : List (EntryUse γ κ)}

theorem leftover_posted (p : Option (Nat × Nat × Nat)) :
    b.leftover ({ u with posted := p } :: us) = b.leftover (u :: us) := rfl

/-- What a command that was copied leaves in its entry. -/
theorem leftover_copied {status : Nat} {cmd : γ} {kv : κ} {p : Option (Nat × Nat × Nat)} :
    b.leftover ({ status := some status, copied := some (cmd, kv), posted := p } :: us) =
      if b.performs cmd then (b.performIoCmd kv cmd status).1 else b.leftover us := rfl

/-- A command that is not copied yet leaves what it has found. -/
theorem leftover_uncopied (hu : u.copied = none) : b.leftover (u :: us) = b.leftover us := by
  rw [leftover, hu]
  cases u.status <;> rfl

/-- A new command. -/
theorem Matches.ioWork (h : b.Matches old us)
    (sqid cqid sqEntry commandId nsecsTarget status : Nat) :
    b.Matches (NvmevIoWorker.ioWork old sqid cqid sqEntry commandId nsecsTarget status)
      ({ status := some status, copied := none, posted := none } :: us) := by
  refine ⟨h.result0, h.result1, ?_⟩
  rintro u us ⟨⟩
  constructor
  · rfl
  · rintro ⟨⟩
  · rintro status ⟨⟩ -
    exact ⟨rfl, rfl⟩
  · rintro _ _ _ - ⟨⟩
  · rintro _ _ _ _ - ⟨⟩
  · exact fun _ => rfl

/-- A new internal operation. -/
theorem Matches.internalWork (h : b.Matches old us)
    (sqid nsecsTarget writeBuffer buffsToRelease : Nat) :
    b.Matches (NvmevIoWorker.internalWork old sqid nsecsTarget writeBuffer buffsToRelease)
      ({ status := none, copied := none, posted := none } :: us) := by
  refine ⟨h.result0, h.result1, ?_⟩
  rintro u us ⟨⟩
  constructor
  · rfl
  · exact fun _ => rfl
  · rintro _ ⟨⟩
  · rintro _ _ _ ⟨⟩
  · rintro _ _ _ _ ⟨⟩
  · exact fun _ => rfl

/-- An entry that is not copied yet holds a command. -/
theorem Current.uncopied_command (h : b.Current work u us) (hcopy : work.isCopied = false) :
    u.copied = none ∧ ∃ status, u.status = some status ∧ work.status = status := by
  cases hs : u.status with
  | none =>
    rw [h.released hs] at hcopy
    cases hcopy
  | some status =>
    cases hc : u.copied with
    | none => exact ⟨rfl, status, rfl, (h.uncopied status hs hc).2⟩
    | some p =>
      rw [(h.copied status p.1 p.2 hs hc).1] at hcopy
      cases hcopy

/-- The copy of a command stores what it leaves behind, and its status. -/
theorem copyWork_eq {status : Nat} (hint : work.isInternal = false) (hstatus : work.status = status)
    (hresult0 : work.result0 = b.leftover us) (cmd : γ) (kv : κ) (p : Option (Nat × Nat × Nat)) :
    b.copyWork work cmd kv = { work with
      result0 := b.leftover ({ status := some status, copied := some (cmd, kv), posted := p } :: us)
      status := b.statusOf status cmd kv
      isCopied := true } := by
  rw [leftover_copied, statusOf, copyWork, hint]
  cases hp : b.performs cmd with
  | true =>
    rw [hstatus]
    rfl
  | false =>
    rw [← hresult0, ← hstatus]
    rfl

theorem Matches.copyWork (h : b.Matches work (u :: us)) (hcopy : work.isCopied = false) (cmd : γ)
    (kv : κ) :
    b.Matches (b.copyWork work cmd kv) ({ u with copied := some (cmd, kv) } :: us) := by
  have hcur := h.current u us rfl
  obtain ⟨hnone, status, hs, hstatus⟩ := hcur.uncopied_command hcopy
  have hposted := hcur.unposted hnone
  have hint : work.isInternal = false := by
    rw [hcur.internal, hs]
    rfl
  have hresult0 := h.result0
  rw [leftover_uncopied hnone] at hresult0
  obtain ⟨_, _, _⟩ := u
  cases hs
  cases hposted
  rw [copyWork_eq hint hstatus hresult0 cmd kv none]
  refine ⟨rfl, h.result1, ?_⟩
  rintro u us ⟨⟩
  constructor
  · exact hint
  · rintro ⟨⟩
  · rintro _ - ⟨⟩
  · rintro _ _ _ ⟨⟩ ⟨⟩
    exact ⟨rfl, rfl⟩
  · rintro _ _ _ _ - - ⟨⟩
  · rintro ⟨⟩

/-- A completion that is posted. -/
theorem Matches.post (h : b.Matches work (u :: us)) (hcopy : work.isCopied = true)
    (hint : work.isInternal = false) :
    b.Matches { work with isCompleted := true }
      ({ u with posted := some (work.status, work.result0, work.result1) } :: us) := by
  have hcur := h.current u us rfl
  refine ⟨h.result0, h.result1, ?_⟩
  rintro u us ⟨⟩
  constructor
  · exact hcur.internal
  · exact hcur.released
  · exact hcur.uncopied
  · exact hcur.copied
  · rintro status cmd kv _ hs hc ⟨⟩
    rw [(hcur.copied status cmd kv hs hc).2, h.result0, h.result1]
    rfl
  · intro hc
    have hc := hc
    rw [hcur.internal] at hint
    obtain ⟨status, hs⟩ := Option.isSome_iff_exists.mp (Option.isNone_eq_false_iff.mp hint)
    rw [(hcur.uncopied status hs hc).1] at hcopy
    cases hcopy

/-- An internal operation that is completed. -/
theorem Matches.completed (h : b.Matches work us) :
    b.Matches { work with isCompleted := true } us :=
  ⟨h.result0, h.result1, fun u us hu =>
    have hcur := h.current u us hu
    ⟨hcur.internal, hcur.released, hcur.uncopied, hcur.copied, hcur.posted, hcur.unposted⟩⟩

/-- The links are not among what the uses determine. -/
theorem Matches.links (h : b.Matches work us) (next prev : Nat) :
    b.Matches { work with next, prev } us :=
  ⟨h.result0, h.result1, fun u us hu =>
    have hcur := h.current u us hu
    ⟨hcur.internal, hcur.released, hcur.uncopied, hcur.copied, hcur.posted, hcur.unposted⟩⟩

end IoBuild

/-! ## Stored entries -/

namespace NvmevIoWorker

variable {w w' : NvmevIoWorker} {e : Nat}

@[simp] theorem setWork_self (w : NvmevIoWorker) (e : Nat) (work : NvmevIoWork) :
    (w.setWork e work).workQueue e = work := by
  simp [setWork]

/-- An entry that is stored, without its links. -/
theorem setWork_body_eq (w : NvmevIoWorker) (e : Nat) (work : NvmevIoWork) :
    (w.setWork e work).body =
      Function.update w.body e { work with next := noEntry, prev := noEntry } := by
  ext x : 1
  by_cases h : x = e <;> simp [body, setWork, h]

/-- A submission stores the entry that was taken. -/
theorem submit_body {fill : NvmevIoWork → NvmevIoWork} (halloc : w.allocate = some (e, w'))
    (hclears : Clears fill) :
    (w.submit fill).body = Function.update w.body e (fill (w.workQueue e)) := by
  have hqueue : w'.workQueue = w.workQueue := by
    unfold allocate at halloc
    dsimp only at halloc
    split at halloc
    · cases halloc
    · cases halloc
      rfl
  have hbody : w'.body = w.body := by
    ext x : 1
    rw [body, body, hqueue]
  obtain ⟨hnext, hprev⟩ := hclears (w.workQueue e)
  simp only [submit, halloc]
  rw [hqueue, insertReqSorted_body, setWork_body _ hnext hprev, hbody]

end NvmevIoWorker

@[simp] theorem NvmevDev.setWorker_self (dev : NvmevDev σ) (i : Nat) (w : NvmevIoWorker) :
    (dev.setWorker i w).ioWorkers i = w := by
  simp [NvmevDev.setWorker]

@[simp] theorem IoHistory.setUses_self (s : IoHistory σ γ κ) (i e : Nat)
    (us : List (EntryUse γ κ)) : s.setUses i e us i = Function.update (s.uses i) e us := by
  simp [IoHistory.setUses]

/-- An entry matches its uses with its links and without them. -/
theorem IoBuild.matches_body {b : IoBuild γ κ} {w : NvmevIoWorker} {e : Nat}
    {us : List (EntryUse γ κ)} : b.Matches (w.body e) us ↔ b.Matches (w.workQueue e) us :=
  ⟨fun h => h.links (w.next e) (w.prev e), fun h => h.links noEntry noEntry⟩

/-! ## Histories -/

/-- Every entry is what its uses have made of it. -/
def IoHistory.Recorded (b : IoBuild γ κ) (s : IoHistory σ γ κ) : Prop :=
  ∀ i e, b.Matches ((s.dev.ioWorkers i).body e) (s.uses i e)

namespace IoHistory.Recorded

variable {b : IoBuild γ κ} {s : IoHistory σ γ κ} {u : EntryUse γ κ} {us : List (EntryUse γ κ)}

theorem init (dev : NvmevDev σ) :
    Recorded b ({ dev := dev.ioWorkerInit, uses := fun _ _ => [] } : IoHistory σ γ κ) :=
  fun _ _ => ⟨rfl, rfl, fun _ _ => nofun⟩

/-- One entry of one worker is stored, and its uses are recorded. -/
theorem store (h : s.Recorded b) {i e : Nat} {w : NvmevIoWorker} {work : NvmevIoWork}
    {dev : NvmevDev σ} (hdev : dev.ioWorkers = Function.update s.dev.ioWorkers i w)
    (hbody : w.body = Function.update (s.dev.ioWorkers i).body e work)
    (hwork : b.Matches work us) :
    Recorded b { dev, uses := s.setUses i e us } := by
  intro j x
  change b.Matches ((dev.ioWorkers j).body x) (s.setUses i e us j x)
  rw [hdev, setUses]
  rcases eq_or_ne j i with rfl | hj
  · rw [Function.update_self, Function.update_self, hbody]
    rcases eq_or_ne x e with rfl | hx
    · rwa [Function.update_self, Function.update_self]
    · rw [Function.update_of_ne hx, Function.update_of_ne hx]
      exact h j x
  · rw [Function.update_of_ne hj, Function.update_of_ne hj]
    exact h j x

/-- An entry that is taken matches its new use. -/
theorem submit (h : s.Recorded b) (sqid : Nat) {fill : NvmevIoWork → NvmevIoWork}
    {status : Option Nat} (hclears : NvmevIoWorker.Clears fill)
    (hfill : ∀ old us, b.Matches old us →
      b.Matches (fill old) ({ status, copied := none, posted := none } :: us)) :
    (s.submit sqid fill status).Recorded b := by
  have hworkers := NvmevDev.submitWork_ioWorkers s.dev sqid fill
  cases halloc : (s.dev.ioWorkers (s.dev.getIoWorker sqid)).allocate with
  | none =>
    have hsame : (s.dev.submitWork sqid fill).ioWorkers = s.dev.ioWorkers := by
      rw [hworkers, NvmevIoWorker.submit, halloc]
      exact Function.update_eq_self ..
    have hs : s.submit sqid fill status =
        { dev := s.dev.submitWork sqid fill, uses := s.uses } := by
      simp only [IoHistory.submit, halloc]
    intro i e
    rw [hs, hsame]
    exact h i e
  | some r =>
    obtain ⟨e, w⟩ := r
    have hs : s.submit sqid fill status =
        { dev := s.dev.submitWork sqid fill
          uses := s.setUses (s.dev.getIoWorker sqid) e
            ({ status, copied := none, posted := none } :: s.uses (s.dev.getIoWorker sqid) e) } := by
      simp only [IoHistory.submit, halloc]
    rw [hs]
    apply h.store hworkers (NvmevIoWorker.submit_body halloc hclears)
    exact hfill _ _ (IoBuild.matches_body.mp (h (s.dev.getIoWorker sqid) e))

theorem copy (h : s.Recorded b) {i e : Nat} (huse : s.uses i e = u :: us)
    (hcopy : ((s.dev.ioWorkers i).workQueue e).isCopied = false) (cmd : γ) (kv : κ) :
    (s.copy b i e u us cmd kv).Recorded b := by
  have hentry := IoBuild.matches_body.mp (h i e)
  rw [huse] at hentry
  apply h.store rfl (NvmevIoWorker.setWork_body_eq ..)
  exact (hentry.copyWork hcopy cmd kv).links ..

theorem complete (h : s.Recorded b) {i e : Nat} (huse : s.uses i e = u :: us)
    (hcopy : ((s.dev.ioWorkers i).workQueue e).isCopied = true) :
    (s.complete i e u us).Recorded b := by
  have hentry := IoBuild.matches_body.mp (h i e)
  have hbody := NvmevIoWorker.setWork_body_eq (s.dev.ioWorkers i) e
    { (s.dev.ioWorkers i).workQueue e with isCompleted := true }
  unfold IoHistory.complete
  dsimp only
  split
  · have hsame : Recorded b
        { dev := s.dev.workEvent (.completed i e), uses := s.setUses i e (s.uses i e) } :=
      h.store rfl hbody (hentry.completed.links ..)
    rwa [setUses, Function.update_eq_self, Function.update_eq_self] at hsame
  · next hint =>
    rw [huse] at hentry
    apply h.store rfl hbody
    exact (hentry.post hcopy (Bool.eq_false_iff.mpr hint)).links ..

theorem clock (h : s.Recorded b) (i nsecs : Nat) :
    Recorded b { s with dev := s.dev.workEvent (.clock i nsecs) } := by
  intro j x
  change b.Matches ((Function.update s.dev.ioWorkers i
    { s.dev.ioWorkers i with latestNsecs := nsecs } j).body x) (s.uses j x)
  rcases eq_or_ne j i with rfl | hj
  · rw [Function.update_self]
    exact h j x
  · rw [Function.update_of_ne hj]
    exact h j x

theorem reclaim (h : s.Recorded b) :
    Recorded b { s with dev := s.dev.workEvent .reclaim } := by
  intro i e
  change b.Matches ((if i < s.dev.nrIoWorkers then (s.dev.ioWorkers i).reclaim
    else s.dev.ioWorkers i).body e) (s.uses i e)
  split
  · rw [NvmevIoWorker.reclaim_body]
    exact h i e
  · exact h i e

/-- In every history each entry is what its uses have made of it. -/
theorem of_run (h : IoRun b s) : s.Recorded b := by
  induction h with
  | init dev => exact init dev
  | enqueue _ sqid cqid sqEntry commandId nsecsTarget status ih =>
    exact ih.submit sqid (fun _ => ⟨rfl, rfl⟩) fun _ _ h => h.ioWork ..
  | schedule _ c ih =>
    exact ih.submit c.sqid (fun _ => ⟨rfl, rfl⟩) fun _ _ h => h.internalWork ..
  | copy _ huse hcopy cmd kv ih => exact ih.copy huse hcopy cmd kv
  | complete _ huse hcopy _ ih => exact ih.complete huse hcopy
  | clock _ i nsecs ih => exact ih.clock i nsecs
  | reclaim _ ih => exact ih.reclaim

/-- What is posted of a command. -/
theorem posted (h : s.Recorded b) {i e status : Nat} {cmd : γ} {kv : κ} {p : Nat × Nat × Nat}
    (huse : s.uses i e =
      { status := some status, copied := some (cmd, kv), posted := some p } :: us) :
    p = (b.statusOf status cmd kv,
      if b.performs cmd then (b.performIoCmd kv cmd status).1 else b.leftover us, 0) :=
  ((h i e).current _ _ huse).posted status cmd kv p rfl rfl rfl

end IoHistory.Recorded

/-- In two histories, a command that a work entry is used for with the same status and copied with
the same store reports the same exactly when the namespace performs it, or when the earlier uses of
the entry have left the same in `result0`. -/
theorem completion_independent_iff (b : IoBuild γ κ) (s₁ s₂ : IoHistory σ γ κ) (h₁ : IoRun b s₁)
    (h₂ : IoRun b s₂) (i e status : Nat) (cmd : γ) (kv : κ) (p₁ p₂ : Nat × Nat × Nat)
    (us₁ us₂ : List (EntryUse γ κ))
    (huse₁ : s₁.uses i e =
      { status := some status, copied := some (cmd, kv), posted := some p₁ } :: us₁)
    (huse₂ : s₂.uses i e =
      { status := some status, copied := some (cmd, kv), posted := some p₂ } :: us₂) :
    p₁ = p₂ ↔ b.performs cmd = true ∨ b.leftover us₁ = b.leftover us₂ := by
  rw [(IoHistory.Recorded.of_run h₁).posted huse₁, (IoHistory.Recorded.of_run h₂).posted huse₂]
  by_cases hp : b.performs cmd = true
  · simp [hp]
  · simp [hp]

/-! ## The key-value build -/

/-- `BASE_SSD == KV_PROTOTYPE` without DMA. A command is a key-value command, or another one. -/
def kvBuild : IoBuild (Option KvCommand) KvFtl where
  kvPrototype := true
  ioUsingDma := false
  identifyIoCmd := Option.isSome
  performIoCmd := fun kv cmd status =>
    match cmd with
    | none => (0, status)
    | some cmd =>
      match kv.doPerformKvIo cmd status with
      | .ok (r, _) => (r.result0, r.status)
      | .error _ => (0, status)

/-- The worker performs the key-value commands. -/
@[simp] theorem kvBuild_performs (cmd : Option KvCommand) : kvBuild.performs cmd = cmd.isSome := rfl

namespace IoBuild

/-- The copy of a command changes the result, the status and a flag. -/
theorem copyWork_frame (b : IoBuild γ κ) (work : NvmevIoWork) (cmd : γ) (kv : κ) :
    ∃ result0 status, b.copyWork work cmd kv = { work with result0, status, isCopied := true } := by
  unfold copyWork
  split
  · exact ⟨work.result0, work.status, rfl⟩
  · exact ⟨_, _, rfl⟩

end IoBuild

namespace IoHistory

variable {b : IoBuild γ κ} {s : IoHistory σ γ κ} {free : List Nat} {e : Nat}

/-- A device with one worker, all of whose entries are free. -/
structure Idle (s : IoHistory σ γ κ) (free : List Nat) : Prop where
  workers : s.dev.nrIoWorkers = 1
  lists : WorkLists (s.dev.ioWorkers 0) free []

/-- A device with one worker, that serves one command in the entry `e`. -/
structure Serving (s : IoHistory σ γ κ) (free : List Nat) (e : Nat) (isCopied isCompleted : Bool) :
    Prop where
  workers : s.dev.nrIoWorkers = 1
  lists : WorkLists (s.dev.ioWorkers 0) free [e]
  internal : ((s.dev.ioWorkers 0).workQueue e).isInternal = false
  target : ((s.dev.ioWorkers 0).workQueue e).nsecsTarget = 0
  copied : ((s.dev.ioWorkers 0).workQueue e).isCopied = isCopied
  completed : ((s.dev.ioWorkers 0).workQueue e).isCompleted = isCompleted

theorem Idle.init (dev : NvmevDev σ) (h : dev.nrIoWorkers = 1) :
    Idle ({ dev := dev.ioWorkerInit, uses := fun _ _ => [] } : IoHistory σ γ κ)
      (List.range nrMaxParallelIo) :=
  ⟨h, NvmevIoWorker.init_spec⟩

/-- A command is enqueued to the first free entry. -/
theorem Idle.enqueue (h : s.Idle (e :: free)) (hne : free ≠ []) :
    (s.enqueue 1 1 0 0 0 0).Serving free e false false ∧ (s.enqueue 1 1 0 0 0 0).uses 0 =
      Function.update (s.uses 0) e
        ({ status := some 0, copied := none, posted := none } :: s.uses 0 e) := by
  have hturn : s.dev.getIoWorker 1 = 0 := by
    rw [NvmevDev.getIoWorker, h.workers]
    exact Nat.mod_one _
  have halloc := NvmevIoWorker.allocate_eq h.lists
  rw [if_neg hne] at halloc
  have hworkers := NvmevDev.submitWork_ioWorkers s.dev 1 fun old =>
    NvmevIoWorker.ioWork old 1 1 0 0 0 0
  rw [hturn] at hworkers
  have hworker : (s.enqueue 1 1 0 0 0 0).dev.ioWorkers 0 = (s.dev.ioWorkers 0).submit fun old =>
      NvmevIoWorker.ioWork old 1 1 0 0 0 0 := by
    rw [IoHistory.enqueue, IoHistory.submit, hworkers, Function.update_self]
  have hbody := NvmevIoWorker.submit_body halloc
    (NvmevIoWorker.clears_ioWork 1 1 0 0 0 0)
  rw [← hworker] at hbody
  have hentry := congrFun hbody e
  rw [Function.update_self] at hentry
  constructor
  · constructor
    · obtain ⟨ws, turn, hdev⟩ := NvmevDev.submitWork_eq s.dev 1 fun old =>
        NvmevIoWorker.ioWork old 1 1 0 0 0 0
      rw [IoHistory.enqueue, IoHistory.submit, hdev]
      exact h.workers
    · rw [hworker]
      rcases NvmevIoWorker.submit_spec h.lists (NvmevIoWorker.clears_ioWork 1 1 0 0 0 0) with
        ⟨_, hone, -⟩ | ⟨_, free', before, after, hcons, hnil, hlists, -⟩
      · exact absurd (List.cons.inj hone).2 hne
      · obtain ⟨rfl, rfl⟩ := List.cons.inj hcons
        obtain ⟨rfl, rfl⟩ := List.append_eq_nil_iff.mp hnil.symm
        exact hlists
    · exact congrArg NvmevIoWork.isInternal hentry
    · exact congrArg NvmevIoWork.nsecsTarget hentry
    · exact congrArg NvmevIoWork.isCopied hentry
    · exact congrArg NvmevIoWork.isCompleted hentry
  · simp only [IoHistory.enqueue, IoHistory.submit, hturn, halloc, setUses, Function.update_self]

/-- The worker copies the command. -/
theorem Serving.copy (h : s.Serving free e false false) (u : EntryUse γ κ)
    (us : List (EntryUse γ κ)) (cmd : γ) (kv : κ) :
    (s.copy b 0 e u us cmd kv).Serving free e true false ∧
      (s.copy b 0 e u us cmd kv).uses 0 =
        Function.update (s.uses 0) e ({ u with copied := some (cmd, kv) } :: us) := by
  obtain ⟨result0, status, hwork⟩ := b.copyWork_frame ((s.dev.ioWorkers 0).workQueue e) cmd kv
  have hworker : (s.copy b 0 e u us cmd kv).dev.ioWorkers 0 = (s.dev.ioWorkers 0).setWork e
      { (s.dev.ioWorkers 0).workQueue e with result0, status, isCopied := true } := by
    rw [← hwork]
    exact NvmevDev.setWorker_self ..
  have hentry : ((s.copy b 0 e u us cmd kv).dev.ioWorkers 0).workQueue e =
      { (s.dev.ioWorkers 0).workQueue e with result0, status, isCopied := true } := by
    rw [hworker]
    exact NvmevIoWorker.setWork_self ..
  refine ⟨⟨h.workers, ?_, ?_, ?_, ?_, ?_⟩, setUses_self s 0 e _⟩
  · rw [hworker]
    exact h.lists.setWork rfl rfl
  · rw [hentry]
    exact h.internal
  · rw [hentry]
    exact h.target
  · rw [hentry]
  · rw [hentry]
    exact h.completed

/-- The worker completes the command. -/
theorem Serving.complete (h : s.Serving free e true false) (u : EntryUse γ κ)
    (us : List (EntryUse γ κ)) :
    (s.complete 0 e u us).Serving free e true true ∧ ∃ p, (s.complete 0 e u us).uses 0 =
      Function.update (s.uses 0) e ({ u with posted := some p } :: us) := by
  have hworker : (s.complete 0 e u us).dev.ioWorkers 0 = (s.dev.ioWorkers 0).setWork e
      { (s.dev.ioWorkers 0).workQueue e with isCompleted := true } :=
    NvmevDev.setWorker_self ..
  have hentry : ((s.complete 0 e u us).dev.ioWorkers 0).workQueue e =
      { (s.dev.ioWorkers 0).workQueue e with isCompleted := true } := by
    rw [hworker]
    exact NvmevIoWorker.setWork_self ..
  constructor
  · refine ⟨h.workers, ?_, ?_, ?_, ?_, ?_⟩
    · rw [hworker]
      exact h.lists.setWork rfl rfl
    · rw [hentry]
      exact h.internal
    · rw [hentry]
      exact h.target
    · rw [hentry]
      exact h.copied
    · rw [hentry]
  · have hint : ¬ ((s.dev.ioWorkers 0).workQueue e).isInternal = true := by
      rw [h.internal]
      exact Bool.false_ne_true
    unfold IoHistory.complete
    dsimp only
    rw [if_neg hint]
    exact ⟨_, setUses_self s 0 e _⟩

/-- The entry goes to the end of the free list. -/
theorem Serving.reclaim (h : s.Serving free e true true) :
    Idle { s with dev := s.dev.workEvent .reclaim } (free ++ [e]) := by
  have hworker : (s.dev.workEvent .reclaim).ioWorkers 0 = (s.dev.ioWorkers 0).reclaim := by
    change (if 0 < s.dev.nrIoWorkers then _ else _) = _
    rw [h.workers]
    rfl
  have hdone : (s.dev.ioWorkers 0).isDone e = true := by
    unfold NvmevIoWorker.isDone
    rw [h.copied, h.completed, h.target]
    simp
  refine ⟨h.workers, ?_⟩
  have hlists := NvmevIoWorker.reclaim_spec h.lists
  rw [List.takeWhile_cons_of_pos hdone, List.dropWhile_cons_of_pos hdone] at hlists
  change WorkLists ((s.dev.workEvent .reclaim).ioWorkers 0) _ _
  rw [hworker]
  exact hlists

/-- A command is served from its entry in the free list to its place there again. -/
theorem Idle.serve (h : s.Idle (e :: free)) (hrun : IoRun b s) (hne : free ≠ []) (cmd : γ) (kv : κ) :
    ∃ (s' : IoHistory σ γ κ) (p : Nat × Nat × Nat), IoRun b s' ∧ s'.Idle (free ++ [e]) ∧
      s'.uses 0 = Function.update (s.uses 0) e
        ({ status := some 0, copied := some (cmd, kv), posted := some p } :: s.uses 0 e) := by
  obtain ⟨h₁, huse₁⟩ := h.enqueue hne
  obtain ⟨h₂, huse₂⟩ := h₁.copy (b := b) { status := some 0, copied := none, posted := none }
    (s.uses 0 e) cmd kv
  obtain ⟨h₃, p, huse₃⟩ := h₂.complete
    { status := some 0, copied := some (cmd, kv), posted := none } (s.uses 0 e)
  have hrun₁ := hrun.enqueue 1 1 0 0 0 0
  have hrun₂ := hrun₁.copy (by rw [huse₁, Function.update_self]) h₁.copied cmd kv
  have hrun₃ := hrun₂.complete (by rw [huse₂, Function.update_self]) h₂.copied h₂.completed
  refine ⟨_, p, hrun₃.reclaim, h₃.reclaim, ?_⟩
  rw [huse₂, huse₁] at huse₃
  rw [Function.update_idem, Function.update_idem] at huse₃
  exact huse₃

/-- Commands are served by the first free entries, one after another. -/
theorem Idle.serveAll {l r : List Nat} (h : s.Idle (l ++ r)) (hrun : IoRun b s) (hr : r ≠ [])
    (he : e ∉ l) (cmd : γ) (kv : κ) :
    ∃ s' : IoHistory σ γ κ, IoRun b s' ∧ s'.Idle (r ++ l) ∧ s'.uses 0 e = s.uses 0 e := by
  induction l generalizing s r with
  | nil =>
    rw [List.append_nil]
    exact ⟨s, hrun, h, rfl⟩
  | cons x l ih =>
    have hne : e ≠ x := fun h => he (h ▸ List.mem_cons_self ..)
    have he : e ∉ l := fun h => he (List.mem_cons_of_mem x h)
    have hfree : l ++ r ≠ [] := by simp [hr]
    rw [List.cons_append] at h
    obtain ⟨s₁, p, hrun₁, h₁, huse₁⟩ := h.serve hrun hfree cmd kv
    rw [List.append_assoc] at h₁
    obtain ⟨s₂, hrun₂, h₂, huse₂⟩ := ih h₁ hrun₁ (by simp) he
    refine ⟨s₂, hrun₂, ?_, ?_⟩
    · rwa [List.append_assoc] at h₂
    · rw [huse₂, huse₁, Function.update_of_ne hne]

/-- The first entry of a new device is used for a command, every other entry for `fill`, and then
the first one for another command. -/
theorem reuse (b : IoBuild γ κ) (dev : NvmevDev σ) (hdev : dev.nrIoWorkers = 1)
    (first fill last : γ × κ) : ∃ (s : IoHistory σ γ κ) (p q : Nat × Nat × Nat), IoRun b s ∧
      s.uses 0 0 = [{ status := some 0, copied := some last, posted := some q },
        { status := some 0, copied := some first, posted := some p }] := by
  have hinit : Idle ({ dev := dev.ioWorkerInit, uses := fun _ _ => [] } : IoHistory σ γ κ)
      (List.range nrMaxParallelIo) := Idle.init dev hdev
  have hrange : List.range nrMaxParallelIo = 0 :: (List.range 16383).map Nat.succ :=
    List.range_succ_eq_map
  rw [hrange] at hinit
  have hne : (List.range 16383).map Nat.succ ≠ [] := by simp
  have hzero : 0 ∉ (List.range 16383).map Nat.succ := by simp
  generalize (List.range 16383).map Nat.succ = rest at hinit hne hzero
  obtain ⟨s₁, p, hrun₁, h₁, huse₁⟩ := hinit.serve (.init dev) hne first.1 first.2
  obtain ⟨s₂, hrun₂, h₂, huse₂⟩ := h₁.serveAll hrun₁ (List.cons_ne_nil 0 []) hzero fill.1 fill.2
  obtain ⟨s₃, q, hrun₃, -, huse₃⟩ := h₂.serve hrun₂ hne last.1 last.2
  refine ⟨s₃, p, q, hrun₃, ?_⟩
  rw [huse₃, Function.update_self, huse₂, huse₁, Function.update_self]

/-- The first entry of a new device is used for a command. -/
theorem use_first (b : IoBuild γ κ) (dev : NvmevDev σ) (hdev : dev.nrIoWorkers = 1)
    (first : γ × κ) : ∃ (s : IoHistory σ γ κ) (p : Nat × Nat × Nat), IoRun b s ∧
      s.uses 0 0 = [{ status := some 0, copied := some first, posted := some p }] := by
  have hinit : Idle ({ dev := dev.ioWorkerInit, uses := fun _ _ => [] } : IoHistory σ γ κ)
      (List.range nrMaxParallelIo) := Idle.init dev hdev
  have hrange : List.range nrMaxParallelIo = 0 :: (List.range 16383).map Nat.succ :=
    List.range_succ_eq_map
  rw [hrange] at hinit
  obtain ⟨s, p, hrun, -, huse⟩ := hinit.serve (.init dev) (by simp) first.1 first.2
  refine ⟨s, p, hrun, ?_⟩
  rw [huse, Function.update_self]

end IoHistory

/-- A key of 16 bytes `7`. -/
def sevenCommand (opcode : KvOpcode) : KvCommand :=
  { opcode, key := fun _ => 7, keyLen := 15, valueLen := 2, data := fun _ => 1 }

/-- A store that holds 8 bytes under that key. -/
def storedSeven : KvFtl :=
  match (kvInitNamespace 16 4096 fun _ => 0).doPerformKvIo (sevenCommand .store) kvSuccess with
  | .ok (_, kv) => kv
  | .error _ => kvInitNamespace 16 4096 fun _ => 0

/-- A device with one worker. -/
def oneWorker : NvmevDev Unit := { (default : NvmevDev Unit) with nrIoWorkers := 1 }

/-- A command reports the same in a new entry and after another command that stored a value. -/
theorem completion_independent_store : ∃ (s₁ s₂ : IoHistory Unit (Option KvCommand) KvFtl)
    (p₁ p₂ : Nat × Nat × Nat) (us₁ us₂ : List (EntryUse (Option KvCommand) KvFtl)),
    IoRun kvBuild s₁ ∧ IoRun kvBuild s₂ ∧
    s₁.uses 0 0 =
      { status := some 0, copied := some (none, storedSeven), posted := some p₁ } :: us₁ ∧
    s₂.uses 0 0 =
      { status := some 0, copied := some (none, storedSeven), posted := some p₂ } :: us₂ ∧
    us₁.length = 0 ∧ us₂.length = 1 ∧ p₁ = p₂ := by
  obtain ⟨s₁, p₁, hrun₁, huse₁⟩ := IoHistory.use_first kvBuild oneWorker rfl (none, storedSeven)
  obtain ⟨s₂, p, p₂, hrun₂, huse₂⟩ := IoHistory.reuse kvBuild oneWorker rfl
    (some (sevenCommand .store), storedSeven) (none, storedSeven) (none, storedSeven)
  refine ⟨s₁, s₂, p₁, p₂, _, _, hrun₁, hrun₂, huse₁, huse₂, rfl, rfl, ?_⟩
  have hstore : (kvBuild.performIoCmd storedSeven (some (sevenCommand .store)) 0).1 = 0 := by
    decide +kernel
  apply (completion_independent_iff kvBuild s₁ s₂ hrun₁ hrun₂ 0 0 0 none storedSeven p₁ p₂ _ _
    huse₁ huse₂).mpr
  right
  rw [IoBuild.leftover_copied, kvBuild_performs, hstore]
  rfl

/-- A command that is no key-value command reports 0 in a new entry, and 8, the length that an
earlier command has retrieved, in an entry that was used before. -/
theorem stale_result_posted : ∃ (s₁ s₂ : IoHistory Unit (Option KvCommand) KvFtl)
    (us₁ us₂ : List (EntryUse (Option KvCommand) KvFtl)),
    IoRun kvBuild s₁ ∧ IoRun kvBuild s₂ ∧
    s₁.uses 0 0 =
      { status := some 0, copied := some (none, storedSeven), posted := some (0, 0, 0) } :: us₁ ∧
    s₂.uses 0 0 =
      { status := some 0, copied := some (none, storedSeven), posted := some (0, 8, 0) } :: us₂ := by
  obtain ⟨s₁, p₁, hrun₁, huse₁⟩ := IoHistory.use_first kvBuild oneWorker rfl (none, storedSeven)
  obtain ⟨s₂, p, p₂, hrun₂, huse₂⟩ := IoHistory.reuse kvBuild oneWorker rfl
    (some (sevenCommand .retrieve), storedSeven) (none, storedSeven) (none, storedSeven)
  have hp₁ : p₁ = (0, 0, 0) := (IoHistory.Recorded.of_run hrun₁).posted huse₁
  have hp₂ : p₂ = (0, 8, 0) := by
    have hretrieve : (kvBuild.performIoCmd storedSeven (some (sevenCommand .retrieve)) 0).1 = 8 := by
      decide +kernel
    rw [(IoHistory.Recorded.of_run hrun₂).posted huse₂, IoBuild.leftover_copied, hretrieve]
    rfl
  subst hp₁
  subst hp₂
  exact ⟨s₁, s₂, _, _, hrun₁, hrun₂, huse₁, huse₂⟩

end NvmeVirt
