import NvmeVirt.Io.Device
import NvmeVirt.Library.Ring

/-!
# Dispatching a submission queue

The polls of a submission queue process the entries the host submits, each once and in
the order of the ring, whatever the handler accepts and whatever happens in between.
-/

namespace NvmeVirt

open RingBuffer

variable {σ : Type}

/-! ## What dispatching leaves alone -/

/-- The queues, doorbells, registers and sizes of a device are those of another one. -/
structure SameQueues (dev dev' : NvmevDev σ) : Prop where
  nrNs : dev'.nrNs = dev.nrNs
  nrIoWorkers : dev'.nrIoWorkers = dev.nrIoWorkers
  nrSq : dev'.nrSq = dev.nrSq
  nrCq : dev'.nrCq = dev.nrCq
  sqes : dev'.sqes = dev.sqes
  cqes : dev'.cqes = dev.cqes
  dbs : dev'.dbs = dev.dbs
  oldDbs : dev'.oldDbs = dev.oldDbs
  adminQ : dev'.adminQ = dev.adminQ
  bar : dev'.bar = dev.bar
  oldBar : dev'.oldBar = dev.oldBar

namespace SameQueues

theorem refl (dev : NvmevDev σ) : SameQueues dev dev :=
  ⟨rfl, rfl, rfl, rfl, rfl, rfl, rfl, rfl, rfl, rfl, rfl⟩

theorem trans {a b c : NvmevDev σ} (h : SameQueues a b) (h' : SameQueues b c) : SameQueues a c :=
  ⟨h'.1.trans h.1, h'.2.trans h.2, h'.3.trans h.3, h'.4.trans h.4, h'.5.trans h.5, h'.6.trans h.6,
    h'.7.trans h.7, h'.8.trans h.8, h'.9.trans h.9, h'.10.trans h.10, h'.11.trans h.11⟩

theorem submitWork (dev : NvmevDev σ) (sqid : Nat) (fill : NvmevIoWork → NvmevIoWork) :
    SameQueues dev (dev.submitWork sqid fill) := by
  obtain ⟨ws, turn, heq⟩ := dev.submitWork_eq sqid fill
  rw [heq]
  exact ⟨rfl, rfl, rfl, rfl, rfl, rfl, rfl, rfl, rfl, rfl, rfl⟩

theorem schedule (dev : NvmevDev σ) (calls : List InternalCall) :
    SameQueues dev (calls.foldl NvmevDev.scheduleInternalOperation dev) := by
  induction calls generalizing dev with
  | nil => exact refl dev
  | cons c calls ih =>
    have hc : SameQueues dev (dev.scheduleInternalOperation c) := submitWork dev c.sqid _
    exact hc.trans (ih _)

theorem reclaim (dev : NvmevDev σ) : SameQueues dev dev.reclaimCompletedReqs :=
  ⟨rfl, rfl, rfl, rfl, rfl, rfl, rfl, rfl, rfl, rfl, rfl⟩

theorem nvmevProcIo (ops : NsOps σ) (dev : NvmevDev σ) (sqid : Nat) (sq : NvmevSubmissionQueue)
    (sqEntry : Nat) : SameQueues dev (dev.nvmevProcIo ops sqid sq sqEntry).2 := by
  unfold NvmevDev.nvmevProcIo
  simp only
  generalize ops.procIoCmd dev.ns (sq.sq sqEntry) sqid dev.clock.read.1 = ret
  have hbase : SameQueues dev { dev with clock := dev.clock.read.2, ns := ret.ns } :=
    ⟨rfl, rfl, rfl, rfl, rfl, rfl, rfl, rfl, rfl, rfl, rfl⟩
  have hcalls := hbase.trans (schedule _ ret.internal)
  split
  · refine hcalls.trans (.trans ?_ (reclaim _))
    exact submitWork _ sqid _
  · exact hcalls

end SameQueues

/-! ## One poll -/

/-- The queue after dispatching: only its counters have moved. -/
structure SameQueue (sq sq' : NvmevSubmissionQueue) : Prop where
  qid : sq'.qid = sq.qid
  cqid : sq'.cqid = sq.cqid
  queueSize : sq'.queueSize = sq.queueSize
  slots : sq'.sq = sq.sq

/-- What the loop of `nvmev_proc_io_sq` does: it goes through the entries until the handler
rejects one. -/
structure Dispatches (size i n : Nat) (dev : NvmevDev σ) (sq : NvmevSubmissionQueue)
    (r : SqProgress σ) : Prop where
  processed : r.processed = ringSlots size i r.processed.length
  length_le : r.processed.length ≤ n
  rejected : r.rejected = if r.processed.length = n then none
    else some ((i + r.processed.length) % size)
  dispatched : r.sq.stat.nrDispatched = u32 (sq.stat.nrDispatched + r.processed.length)
  sameQueue : SameQueue sq r.sq
  sameQueues : SameQueues dev r.dev

theorem procIoSqLoop_spec (ops : NsOps σ) (sqid n : Nat) (dev : NvmevDev σ)
    (sq : NvmevSubmissionQueue) {size i : Nat} (hsize : sq.queueSize = size) (hpos : 0 < size)
    (hdisp : sq.stat.nrDispatched < 2 ^ 32) :
    Dispatches size i n dev sq (dev.procIoSqLoop ops sqid n sq (i % size)) := by
  induction n generalizing dev sq i with
  | zero =>
    exact ⟨rfl, le_rfl, rfl, (Nat.mod_eq_of_lt hdisp).symm, ⟨rfl, rfl, rfl, rfl⟩, .refl dev⟩
  | succ n ih =>
    have hsame := SameQueues.nvmevProcIo ops dev sqid sq (i % size)
    rw [NvmevDev.procIoSqLoop]
    generalize dev.nvmevProcIo ops sqid sq (i % size) = p at hsame ⊢
    obtain ⟨accepted, dev'⟩ := p
    cases accepted with
    | false =>
      exact ⟨rfl, Nat.zero_le _, rfl, (Nat.mod_eq_of_lt hdisp).symm, ⟨rfl, rfl, rfl, rfl⟩, hsame⟩
    | true =>
      subst hsize
      simp only [if_true, next_slot hpos]
      generalize lbaToByte ((sq.sq (i % sq.queueSize)).length + 1) = ioSize
      obtain ⟨hproc, hle, hrej, hnum, hq, hd⟩ := ih dev'
        { sq with stat := sq.stat.dispatched ioSize } (i := i + 1) rfl (Nat.mod_lt _ (by simp))
      generalize dev'.procIoSqLoop ops sqid n { sq with stat := sq.stat.dispatched ioSize }
        ((i + 1) % sq.queueSize) = r at hproc hle hrej hnum hq hd
      refine ⟨?_, ?_, ?_, ?_, ⟨hq.qid, hq.cqid, hq.queueSize, hq.slots⟩, hsame.trans hd⟩
      · rw [List.length_cons, ringSlots_succ, ← hproc]
      · exact Nat.succ_le_succ hle
      · simp only [List.length_cons, hrej, Nat.add_right_cancel_iff]
        rw [Nat.add_assoc, Nat.add_comm 1]
      · rw [hnum, List.length_cons]
        simp only [NvmevSqStat.dispatched, u32]
        omega

/-! ## Runs -/

/-- A run of submission queue `qid` with `size` slots: the state, the slots of the entries
processed so far and the number of entries submitted. The host rings the doorbell, the
dispatcher polls, and anything else leaves the size, the doorbells and the count alone. -/
inductive SqRun (ops : NsOps σ) (qid size : Nat) : NvmevDev σ → List Nat → Nat → Prop
  | created {dev : NvmevDev σ} {sq : NvmevSubmissionQueue} (hpos : 0 < size)
      (hsq : dev.sqes qid = some sq) (hsize : sq.queueSize = size)
      (hstat : sq.stat.nrDispatched = 0) (hdb : dev.dbs (qid * 2) = 0)
      (hold : dev.oldDbs (qid * 2) = 0) : SqRun ops qid size dev [] 0
  | ring {dev : NvmevDev σ} {l : List Nat} {t : Nat} (db : Nat) (h : SqRun ops qid size dev l t)
      (hdb : db < size) :
      SqRun ops qid size { dev with dbs := Function.update dev.dbs (qid * 2) db } l
        (submittedUpTo size l.length db)
  | poll {dev : NvmevDev σ} {l : List Nat} {t : Nat} (h : SqRun ops qid size dev l t) :
      SqRun ops qid size (dev.procSqDb ops qid).dev (l ++ (dev.procSqDb ops qid).processed) t
  | other {dev dev' : NvmevDev σ} {l : List Nat} {t : Nat} {sq sq' : NvmevSubmissionQueue}
      (h : SqRun ops qid size dev l t) (hsq : dev.sqes qid = some sq)
      (hsq' : dev'.sqes qid = some sq') (hsize : sq'.queueSize = sq.queueSize)
      (hstat : sq'.stat.nrDispatched = sq.stat.nrDispatched)
      (hdb : dev'.dbs (qid * 2) = dev.dbs (qid * 2))
      (hold : dev'.oldDbs (qid * 2) = dev.oldDbs (qid * 2)) : SqRun ops qid size dev' l t

/-- What holds of a submission queue after `p` entries of `t` submitted ones. -/
structure SqAt (qid size p t : Nat) (dev : NvmevDev σ) : Prop where
  pos : 0 < size
  le : p ≤ t
  lt : t < p + size
  dbs : dev.dbs (qid * 2) = t % size
  oldDbs : dev.oldDbs (qid * 2) = p % size
  queue : ∃ sq, dev.sqes qid = some sq ∧ sq.queueSize = size ∧ sq.stat.nrDispatched = u32 p

/-- A poll goes on where the last one stopped, up to the doorbell or to an entry that the
handler rejects. -/
theorem SqAt.poll (ops : NsOps σ) {qid size p t : Nat} {dev : NvmevDev σ}
    (h : SqAt qid size p t dev) :
    let r := dev.procSqDb ops qid
    r.processed = ringSlots size p r.processed.length ∧
      SqAt qid size (p + r.processed.length) t r.dev ∧
      r.rejected = if p + r.processed.length = t then none
        else some ((p + r.processed.length) % size) := by
  obtain ⟨hpos, hle, hlt, hdb, hold, sq, hsq, hsize, hstat⟩ := h
  rw [NvmevDev.procSqDb, hdb, hold]
  by_cases hne : t % size = p % size
  · -- The doorbell has not moved.
    have htp : t = p := by
      have hnum := distance_eq hle hlt
      simp only [hne, Int.sub_self, lt_irrefl, if_false, Int.toNat_zero] at hnum
      omega
    subst htp
    rw [if_neg fun hc => hc.2 hne]
    exact ⟨rfl, ⟨hpos, hle, hlt, hdb, hold, sq, hsq, hsize, hstat⟩, (if_pos rfl).symm⟩
  · rw [if_pos ⟨by rw [hsq]; rfl, hne⟩, NvmevDev.nvmevProcIoSq, hsq]
    simp only [hsize, distance_eq hle hlt]
    obtain ⟨hproc, hlen, hrej, hnum, hq, hd⟩ := procIoSqLoop_spec ops qid (t - p) dev sq hsize hpos
      (i := p) (hstat ▸ Nat.mod_lt _ (by simp))
    generalize dev.procIoSqLoop ops qid (t - p) sq (p % size) = r at hproc hlen hrej hnum hq hd
    refine ⟨hproc, ⟨hpos, by omega, by omega, ?_, ?_, ?_⟩, ?_⟩
    · exact (congrFun hd.dbs _).trans hdb
    · change Function.update r.dev.oldDbs (qid * 2) _ (qid * 2) = _
      rw [Function.update_self]
      rw [hq.queueSize, hsize, Nat.mod_add_mod]
    · refine ⟨{ r.sq with stat := r.sq.stat.polled }, Function.update_self .., hq.queueSize.trans hsize, ?_⟩
      change r.sq.stat.nrDispatched = _
      rw [hnum, hstat]
      simp only [u32]
      omega
    · rw [hrej]
      by_cases hall : r.processed.length = t - p
      · rw [if_pos hall, if_pos (by omega)]
      · rw [if_neg hall, if_neg (by omega)]

theorem SqRun.sqAt {ops : NsOps σ} {qid size t : Nat} {dev : NvmevDev σ} {l : List Nat}
    (h : SqRun ops qid size dev l t) :
    l = ringSlots size 0 l.length ∧ SqAt qid size l.length t dev := by
  induction h with
  | created hpos hsq hsize hstat hdb hold =>
    refine ⟨rfl, hpos, le_rfl, ?_, ?_, ?_, _, hsq, hsize, hstat⟩
    · rwa [List.length_nil, Nat.zero_add]
    · rw [hdb, Nat.zero_mod]
    · rw [hold, List.length_nil, Nat.zero_mod]
  | @ring dev l t db _ hdb ih =>
    obtain ⟨hle, hlt, hmod⟩ := submittedUpTo_spec (p := l.length) hdb
    exact ⟨ih.1, ih.2.pos, hle, hlt, by rw [hmod]; exact Function.update_self .., ih.2.oldDbs,
      ih.2.queue⟩
  | poll _ ih =>
    obtain ⟨hproc, hat, -⟩ := ih.2.poll ops
    rw [List.length_append]
    refine ⟨?_, hat⟩
    rw [← ringSlots_append, ← ih.1, Nat.zero_add, ← hproc]
  | other _ hsq hsq' hsize hstat hdb hold ih =>
    obtain ⟨hl, hpos, hle, hlt, hdbs, holdDbs, sq₀, hsq₀, hsize₀, hstat₀⟩ := ih
    obtain rfl := Option.some_inj.mp (hsq₀.symm.trans hsq)
    exact ⟨hl, hpos, hle, hlt, hdb.trans hdbs, hold.trans holdDbs, _, hsq', hsize.trans hsize₀,
      hstat.trans hstat₀⟩

/-- In every run the entries processed are the first entries of the ring, each once and in
order, and none that is not submitted; the number of entries dispatched is their number as an
`unsigned int`. A poll processes the submitted entries that are left, up to one that the handler
rejects, and the next poll starts with that entry. -/
theorem dispatch_in_order (ops : NsOps σ) {qid size t : Nat} {dev : NvmevDev σ} {l : List Nat}
    (h : SqRun ops qid size dev l t) :
    l = (List.range l.length).map (· % size) ∧ l.length ≤ t ∧ t < l.length + size ∧
    dev.dbs (qid * 2) = t % size ∧ dev.oldDbs (qid * 2) = l.length % size ∧
    (∃ sq, dev.sqes qid = some sq ∧ sq.stat.nrDispatched = l.length % 2 ^ 32) ∧
    let r := dev.procSqDb ops qid
    let p := l.length + r.processed.length
    p ≤ t ∧ r.dev.oldDbs (qid * 2) = p % size ∧
      r.rejected = if p = t then none else some (p % size) := by
  obtain ⟨hl, hat⟩ := h.sqAt
  obtain ⟨-, hat', hrej⟩ := hat.poll ops
  obtain ⟨sq, hsq, -, hstat⟩ := hat.queue
  rw [ringSlots, ← List.range_eq_range'] at hl
  exact ⟨hl, hat.le, hat.lt, hat.dbs, hat.oldDbs, ⟨sq, hsq, hstat⟩, hat'.le, hat'.oldDbs, hrej⟩

/-! ## A long run -/

/-- Namespaces that accept every command at once. -/
def acceptAll : NsOps Unit where
  procIoCmd ns _ _ now := { accepted := true, status := 0, nsecsTarget := now, internal := [], ns }
  bufferRelease ns _ _ := ns

/-- A device with one worker and one submission queue of two slots. -/
def twoSlots : NvmevDev Unit :=
  { (default : NvmevDev Unit).ioWorkerInit with
    nrIoWorkers := 1
    sqes := Function.update (fun _ => none) 1 (some { (default : NvmevSubmissionQueue) with queueSize := 2 }) }

theorem twoSlots_created : SqRun acceptAll 1 2 twoSlots [] 0 :=
  have hsq : twoSlots.sqes 1 = some { (default : NvmevSubmissionQueue) with queueSize := 2 } := rfl
  .created (by simp) hsq rfl rfl rfl rfl

/-- The first command of a queue is processed by the first poll. -/
theorem dispatch_in_order_first :
    let dev := { twoSlots with dbs := Function.update twoSlots.dbs 2 1 }
    let r := dev.procSqDb acceptAll 1
    r.processed.length ≤ 1 ∧ r.dev.oldDbs 2 = r.processed.length % 2 := by
  obtain ⟨-, -, -, -, -, -, hle, hold, -⟩ :=
    dispatch_in_order acceptAll (twoSlots_created.ring 1 (by simp))
  rw [List.length_nil, Nat.zero_add] at hle hold
  exact ⟨hle, hold⟩

/-- A handler that accepts every command never stops the loop. -/
theorem procIoSqLoop_acceptAll (sqid n : Nat) (dev : NvmevDev Unit) (sq : NvmevSubmissionQueue)
    (sqEntry : Nat) : (dev.procIoSqLoop acceptAll sqid n sq sqEntry).rejected = none := by
  induction n generalizing dev sq sqEntry with
  | zero => rfl
  | succ n ih => exact ih _ _ _

theorem procSqDb_acceptAll (dev : NvmevDev Unit) (qid : Nat) :
    (dev.procSqDb acceptAll qid).rejected = none := by
  simp only [NvmevDev.procSqDb]
  split
  · cases hsq : dev.sqes qid with
    | none => simp only [NvmevDev.nvmevProcIoSq, hsq]
    | some sq => simp only [NvmevDev.nvmevProcIoSq, hsq, procIoSqLoop_acceptAll]
  · rfl

/-- A run of any length. -/
theorem exists_sqRun (n : Nat) :
    ∃ dev l, l.length = n ∧ SqRun acceptAll 1 2 dev l n := by
  induction n with
  | zero => exact ⟨twoSlots, [], rfl, twoSlots_created⟩
  | succ n ih =>
    obtain ⟨dev, l, hlen, hrun⟩ := ih
    have hring := hrun.ring ((n + 1) % 2) (Nat.mod_lt _ (by simp))
    have hnext : submittedUpTo 2 l.length ((n + 1) % 2) = n + 1 := by
      rw [hlen, submittedUpTo]
      omega
    rw [hnext] at hring
    obtain ⟨-, hat, hrej⟩ := hring.sqAt.2.poll acceptAll
    refine ⟨_, _, ?_, hring.poll⟩
    rw [procSqDb_acceptAll] at hrej
    rw [List.length_append]
    by_contra hne
    rw [if_neg hne] at hrej
    cases hrej

/-- After `2 ^ 32` commands the counter is zero again. -/
theorem nrDispatched_wraps : ∃ (dev : NvmevDev Unit) (l : List Nat),
    SqRun acceptAll 1 2 dev l (2 ^ 32) ∧ l.length = 2 ^ 32 ∧
      ∃ sq, dev.sqes 1 = some sq ∧ sq.stat.nrDispatched = 0 := by
  obtain ⟨dev, l, hlen, hrun⟩ := exists_sqRun (2 ^ 32)
  obtain ⟨sq, hsq, -, hstat⟩ := hrun.sqAt.2.queue
  refine ⟨dev, l, hrun, hlen, sq, hsq, ?_⟩
  rw [hstat, hlen, u32, Nat.mod_self]

end NvmeVirt
