import NvmeVirt.Io.Integrity

/-!
# Entries in flight

The entries of a worker that its list of entries in flight leads to, and what each step
of the dispatcher and of the workers does to a property that all of them have.
-/

namespace NvmeVirt

open Linked

/-- The links of a worker determine its entries in flight. -/
theorem WorkLists.io_unique {w : NvmevIoWorker} {free io free' io' : List Nat}
    (h : WorkLists w free io) (h' : WorkLists w free' io') : io = io' :=
  h.chains.io_dll.forward.unique h'.chains.io_dll.forward h.partition.noEntry_notMem_io
    h'.partition.noEntry_notMem_io

namespace NvmevIoWorker

/-- Entry `e` of the worker is in flight. -/
def Holds (w : NvmevIoWorker) (e : Nat) : Prop := ∃ free io, WorkLists w free io ∧ e ∈ io

/-- Every entry in flight satisfies `P`. -/
def AllInFlight (w : NvmevIoWorker) (P : NvmevIoWork → Prop) : Prop :=
  ∃ free io, WorkLists w free io ∧ ∀ e ∈ io, P (w.body e)

/-- A submission that finds two free entries puts the first one in flight. -/
theorem holds_submit {w : NvmevIoWorker} {e : Nat} {free io : List Nat}
    {fill : NvmevIoWork → NvmevIoWork} (h : WorkLists w (e :: free) io) (hne : free ≠ [])
    (hfill : Clears fill) :
    (w.submit fill).Holds e ∧ (w.submit fill).body e = fill (w.workQueue e) := by
  rcases submit_spec h hfill with ⟨e', heq, -⟩ | ⟨e', free', before, after, heq, -, hs, hbody, -⟩
  · exact absurd (List.cons.inj heq).2 hne
  · obtain ⟨rfl, rfl⟩ := List.cons.inj heq
    refine ⟨⟨_, _, hs, List.mem_append_right _ (List.mem_cons_self ..)⟩, ?_⟩
    rw [hbody, Function.update_self]

/-- An entry that is not completed is not reclaimed. -/
theorem Holds.reclaim {w : NvmevIoWorker} {e : Nat} (h : w.Holds e)
    (hopen : (w.body e).isCompleted = false) : w.reclaim.Holds e := by
  obtain ⟨free, io, hw, he⟩ := h
  refine ⟨_, _, reclaim_spec hw, ?_⟩
  rw [← List.takeWhile_append_dropWhile (p := w.isDone) (l := io)] at he
  rcases List.mem_append.mp he with htake | hdrop
  · have hdone := List.mem_takeWhile_imp htake
    have hcompleted : (w.body e).isCompleted = true := (of_decide_eq_true hdone).1
    rw [hopen] at hcompleted
    cases hcompleted
  · exact hdrop

namespace AllInFlight

variable {w : NvmevIoWorker} {P Q : NvmevIoWork → Prop}

theorem of_holds (h : w.AllInFlight P) {e : Nat} (he : w.Holds e) : P (w.body e) := by
  obtain ⟨free, io, hw, hall⟩ := h
  obtain ⟨free', io', hw', hmem⟩ := he
  exact hall e (hw'.io_unique hw ▸ hmem)

/-- What holds of the entries in flight may be used to weaken the property. -/
theorem mono (h : w.AllInFlight P) (hpq : ∀ e, w.Holds e → P (w.body e) → Q (w.body e)) :
    w.AllInFlight Q := by
  obtain ⟨free, io, hw, hall⟩ := h
  exact ⟨free, io, hw, fun e he => hpq e ⟨free, io, hw, he⟩ (hall e he)⟩

theorem init : NvmevIoWorker.init.AllInFlight P :=
  ⟨_, [], NvmevIoWorker.init_spec, fun e he => by cases he⟩

/-- A new entry satisfies what its submitter has written. -/
theorem submit (h : w.AllInFlight P) {fill : NvmevIoWork → NvmevIoWork}
    (hfill : Clears fill) (hp : ∀ old, P (fill old)) : (w.submit fill).AllInFlight P := by
  obtain ⟨free, io, hw, hall⟩ := h
  rcases submit_spec hw hfill with ⟨e, -, heq⟩ |
    ⟨e, free', before, after, -, rfl, hs, hbody, -⟩
  · rw [heq]
    exact ⟨free, io, hw, hall⟩
  · refine ⟨free', before ++ e :: after, hs, fun x hx => ?_⟩
    rw [hbody]
    rcases eq_or_ne x e with rfl | hne
    · rw [Function.update_self]
      exact hp _
    · rw [Function.update_of_ne hne]
      apply hall x
      simpa [hne] using hx

theorem reclaim (h : w.AllInFlight P) : w.reclaim.AllInFlight P := by
  obtain ⟨free, io, hw, hall⟩ := h
  refine ⟨_, _, reclaim_spec hw, fun e he => ?_⟩
  rw [reclaim_body]
  exact hall e (List.dropWhile_sublist _ |>.subset he)

theorem clock (h : w.AllInFlight P) (nsecs : Nat) :
    { w with latestNsecs := nsecs }.AllInFlight P := by
  obtain ⟨free, io, hw, hall⟩ := h
  exact ⟨free, io, hw.clock nsecs, hall⟩

/-- A flag of an entry is set. -/
theorem setWork (h : w.AllInFlight P) {e : Nat} {work : NvmevIoWork}
    (hnext : work.next = w.next e) (hprev : work.prev = w.prev e)
    (hp : P (w.body e) → P { work with next := noEntry, prev := noEntry }) :
    (w.setWork e work).AllInFlight P := by
  obtain ⟨free, io, hw, hall⟩ := h
  refine ⟨free, io, hw.setWork hnext hprev, fun x hx => ?_⟩
  by_cases hxe : x = e
  · subst hxe
    have hself : (w.setWork x work).body x = { work with next := noEntry, prev := noEntry } := by
      simp [NvmevIoWorker.body, NvmevIoWorker.setWork]
    rw [hself]
    exact hp (hall x hx)
  · have hother : (w.setWork e work).body x = w.body x := by
      simp [NvmevIoWorker.body, NvmevIoWorker.setWork, hxe]
    rw [hother]
    exact hall x hx

end AllInFlight

end NvmevIoWorker

/-! ## On a device -/

namespace NvmevDev

variable {σ : Type}

/-- Every entry in flight of every worker satisfies `P`. -/
def AllInFlight (dev : NvmevDev σ) (P : NvmevIoWork → Prop) : Prop :=
  ∀ i, (dev.ioWorkers i).AllInFlight P

namespace AllInFlight

variable {dev : NvmevDev σ} {P Q : NvmevIoWork → Prop}

theorem init (dev : NvmevDev σ) : dev.ioWorkerInit.AllInFlight P :=
  fun _ => NvmevIoWorker.AllInFlight.init

/-- One worker is stored. -/
theorem setWorker (h : dev.AllInFlight P) {i : Nat} {w : NvmevIoWorker} (hw : w.AllInFlight P) :
    (dev.setWorker i w).AllInFlight P := by
  intro j
  change (Function.update dev.ioWorkers i w j).AllInFlight P
  rcases eq_or_ne j i with rfl | hne
  · rwa [Function.update_self]
  · rw [Function.update_of_ne hne]
    exact h j

theorem submitWork (h : dev.AllInFlight P) (sqid : Nat) {fill : NvmevIoWork → NvmevIoWork}
    (hfill : NvmevIoWorker.Clears fill) (hp : ∀ old, P (fill old)) :
    (dev.submitWork sqid fill).AllInFlight P := by
  intro j
  rw [submitWork_ioWorkers]
  exact h.setWorker ((h _).submit hfill hp) j

theorem reclaim (h : dev.AllInFlight P) : dev.reclaimCompletedReqs.AllInFlight P := by
  intro i
  change (if i < dev.nrIoWorkers then (dev.ioWorkers i).reclaim else dev.ioWorkers i).AllInFlight P
  split
  · exact (h i).reclaim
  · exact h i

/-- The internal operations of a command. -/
theorem schedule (h : dev.AllInFlight P) (calls : List InternalCall)
    (hp : ∀ old (c : InternalCall),
      P (NvmevIoWorker.internalWork old c.sqid c.nsecsTarget c.writeBuffer c.buffsToRelease)) :
    (calls.foldl scheduleInternalOperation dev).AllInFlight P := by
  induction calls generalizing dev with
  | nil => exact h
  | cons c calls ih =>
    refine ih (h.submitWork c.sqid ?_ fun old => hp old c)
    exact NvmevIoWorker.clears_internalWork c.sqid c.nsecsTarget c.writeBuffer c.buffsToRelease

/-- One entry of a submission queue is dispatched. -/
theorem nvmevProcIo (h : dev.AllInFlight P) (ops : NsOps σ) (sqid : Nat)
    (sq : NvmevSubmissionQueue) (sqEntry : Nat)
    (hint : ∀ old (c : InternalCall),
      P (NvmevIoWorker.internalWork old c.sqid c.nsecsTarget c.writeBuffer c.buffsToRelease))
    (hio : ∀ old nsecsTarget status,
      P (NvmevIoWorker.ioWork old sqid sq.cqid sqEntry (sq.sq sqEntry).commandId nsecsTarget status)) :
    (dev.nvmevProcIo ops sqid sq sqEntry).2.AllInFlight P := by
  unfold NvmevDev.nvmevProcIo
  simp only
  generalize ops.procIoCmd dev.ns (sq.sq sqEntry) sqid dev.clock.read.1 = ret
  have hbase : AllInFlight { dev with clock := dev.clock.read.2, ns := ret.ns } P := h
  have hcalls := hbase.schedule ret.internal hint
  split
  · refine (hcalls.submitWork sqid ?_ fun old => hio old _ _).reclaim
    exact fun _ => ⟨rfl, rfl⟩
  · exact hcalls

end AllInFlight

end NvmevDev

end NvmeVirt
