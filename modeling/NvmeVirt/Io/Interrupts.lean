import NvmeVirt.Io.Device
import NvmeVirt.Library.Locks

/-!
# Interrupts

Posting a completion writes the entry and then sets `interrupt_ready` of its queue. The second half
of the loop of `nvmev_io_worker` tests the flag, resets it and signals, each at a moment of its own,
while other workers post to the same queue. No signal is lost: after a completion there is a signal,
or there will be one. A worker that goes through the queues once while nobody is about to post leaves
no completion without a signal in the queues it cares for.
-/

namespace NvmeVirt

/-- The first part of the critical section of `__fill_cq_result`. -/
def NvmevCompletionQueue.writeEntry (cq : NvmevCompletionQueue) (w : NvmevIoWork) :
    NvmevCompletionQueue :=
  { cq.post w with interruptReady := cq.interruptReady }

/-- Where a worker is between two accesses to what the workers share. -/
inductive IrqStage
  /-- In the loop over its entries. -/
  | walking
  /-- In `__fill_cq_result`, with the entry written and the flag not yet set. -/
  | filling (cqid : Nat)
  /-- At the head of the loop over the completion queues. -/
  | scanning (qidx : Nat)
  /-- It has locked `irq_lock`. -/
  | locked (qidx : Nat)
  /-- It has seen `interrupt_ready`. -/
  | seen (qidx : Nat)
  /-- It has reset the flag. -/
  | cleared (qidx : Nat)
  /-- It is about to unlock `irq_lock`. -/
  | leaving (qidx : Nat)
  deriving DecidableEq, Repr

/-- The queue whose `irq_lock` a worker holds. -/
def IrqStage.lockedQueue : IrqStage → Option Nat
  | .locked q | .seen q | .cleared q | .leaving q => some q
  | _ => none

/-- What the host can see: a completion in the queue, and an interrupt for it. -/
inductive IrqRecord
  | posted (cqid : Nat)
  | signalled (qidx : Nat)
  deriving DecidableEq, Repr

/-- The device with the place of each worker and the holders of the locks. The log records what the
host can see; no code reads it. -/
structure IrqLoop (σ : Type) where
  dev : NvmevDev σ
  stage : Nat → IrqStage
  entryLock : Nat → Option Nat
  irqLock : Nat → Option Nat
  log : List IrqRecord

/-- A step of one worker. -/
inductive IrqEvent
  | fill (worker : Nat) (work : NvmevIoWork)
  | raise (worker : Nat)
  | start (worker : Nat)
  | advance (worker : Nat)

namespace NvmevDev

variable {σ : Type}

/-- `cq->interrupt_ready` of a queue. -/
def interruptReady (dev : NvmevDev σ) (q : Nat) : Bool :=
  (dev.cqes q).any NvmevCompletionQueue.interruptReady

/-- A store to `cq->interrupt_ready`. -/
def setInterruptReady (dev : NvmevDev σ) (q : Nat) (ready : Bool) : NvmevDev σ :=
  { dev with
    cqes := Function.update dev.cqes q
      ((dev.cqes q).map fun cq => { cq with interruptReady := ready }) }

/-- Whether worker `i` looks at queue `q` in its loop over the queues. -/
def caresFor (dev : NvmevDev σ) (i q : Nat) : Bool :=
  dev.getIoWorker q = i ∧ (dev.cqes q).any NvmevCompletionQueue.irqEnabled

end NvmevDev

namespace IrqLoop

variable {σ : Type}

/-- All workers begin with their entries, and no lock is held. -/
def init (dev : NvmevDev σ) : IrqLoop σ :=
  { dev, stage := fun _ => .walking, entryLock := fun _ => none, irqLock := fun _ => none, log := [] }

/-- The worker goes on to another place. -/
def setStage (s : IrqLoop σ) (i : Nat) (stage : IrqStage) : IrqLoop σ :=
  { s with stage := Function.update s.stage i stage }

/-- `__fill_cq_result` up to the entry; a worker that finds `entry_lock` held spins. -/
def fill (s : IrqLoop σ) (i : Nat) (w : NvmevIoWork) : Except DevFault (IrqLoop σ) :=
  if s.stage i = .walking ∧ s.entryLock w.cqid = none then do
    let cq ← s.dev.getCq w.cqid
    let s := { s with
      dev := s.dev.setCq w.cqid (cq.writeEntry w)
      entryLock := Function.update s.entryLock w.cqid (some i)
      log := s.log ++ [IrqRecord.posted w.cqid] }
    return s.setStage i (.filling w.cqid)
  else return s

/-- The rest of `__fill_cq_result`. -/
def raise (s : IrqLoop σ) (i : Nat) : IrqLoop σ :=
  match s.stage i with
  | .filling q =>
    { s with
      dev := s.dev.setInterruptReady q true
      entryLock := Function.update s.entryLock q none }.setStage i .walking
  | _ => s

/-- The loop over the entries has ended. -/
def start (s : IrqLoop σ) (i : Nat) : IrqLoop σ :=
  if s.stage i = .walking then s.setStage i (.scanning 1) else s

/-- The next access of worker `i` in its loop over the completion queues. -/
def advance (s : IrqLoop σ) (i : Nat) : IrqLoop σ :=
  match s.stage i with
  | .scanning q =>
    if s.dev.nrCq < q then s.setStage i .walking
    else if s.dev.caresFor i q ∧ s.irqLock q = none then
      { s with irqLock := Function.update s.irqLock q (some i) }.setStage i (.locked q)
    else s.setStage i (.scanning (q + 1))
  | .locked q => s.setStage i (if s.dev.interruptReady q then .seen q else .leaving q)
  | .seen q => { s with dev := s.dev.setInterruptReady q false }.setStage i (.cleared q)
  | .cleared q => { s with log := s.log ++ [IrqRecord.signalled q] }.setStage i (.leaving q)
  | .leaving q =>
    { s with irqLock := Function.update s.irqLock q none }.setStage i (.scanning (q + 1))
  | _ => s

/-- One step. -/
def step (s : IrqLoop σ) : IrqEvent → Except DevFault (IrqLoop σ)
  | .fill i w => s.fill i w
  | .raise i => return s.raise i
  | .start i => return s.start i
  | .advance i => return s.advance i

/-- A run; a fault ends it. -/
def run (s : IrqLoop σ) (evs : List IrqEvent) : Except DevFault (IrqLoop σ) := evs.foldlM step s

end IrqLoop

/-! ## The parts of a step -/

theorem NvmevCompletionQueue.post_eq (cq : NvmevCompletionQueue) (w : NvmevIoWork) :
    { cq.writeEntry w with interruptReady := true } = cq.post w := rfl

/-- The queue for which a worker has written an entry and not yet set the flag. -/
def IrqStage.filledQueue : IrqStage → Option Nat
  | .filling q => some q
  | _ => none

/-- The queue that a worker is about to raise the flag of, or to signal for. -/
def IrqStage.comingQueue : IrqStage → Option Nat
  | .filling q | .seen q | .cleared q => some q
  | _ => none

/-- A worker has the test of `q` before it in this round. -/
def IrqStage.ahead (q : Nat) : IrqStage → Bool
  | .scanning q' | .locked q' => q' ≤ q
  | .seen q' | .cleared q' | .leaving q' => q' < q
  | _ => false

/-- The worker that takes a step. -/
def IrqEvent.worker : IrqEvent → Nat
  | .fill i _ | .raise i | .start i | .advance i => i

namespace NvmevDev

variable {σ : Type} (dev : NvmevDev σ) (q q' : Nat)

@[simp] theorem interruptReady_setInterruptReady (b : Bool) :
    (dev.setInterruptReady q b).interruptReady q' =
      if q' = q then (dev.cqes q).isSome && b else dev.interruptReady q' := by
  simp only [interruptReady, setInterruptReady, Function.update_apply]
  split_ifs with h
  · subst h
    cases dev.cqes q' <;> rfl
  · rfl

@[simp] theorem caresFor_setInterruptReady (b : Bool) (i : Nat) :
    (dev.setInterruptReady q b).caresFor i q' = dev.caresFor i q' := by
  have hany : ((dev.setInterruptReady q b).cqes q').any NvmevCompletionQueue.irqEnabled =
      (dev.cqes q').any NvmevCompletionQueue.irqEnabled := by
    simp only [setInterruptReady, Function.update_apply]
    split_ifs with h
    · subst h
      cases dev.cqes q' <;> rfl
    · rfl
  simp only [caresFor, hany]
  rfl

@[simp] theorem isSome_setInterruptReady (b : Bool) :
    ((dev.setInterruptReady q b).cqes q').isSome = (dev.cqes q').isSome := by
  simp only [setInterruptReady, Function.update_apply]
  split_ifs with h
  · rw [h, Option.isSome_map]
  · rfl

/-- Writing an entry changes no flag. -/
theorem writeEntry_flags {cq : NvmevCompletionQueue} {w : NvmevIoWork} {dev : NvmevDev σ}
    (hcq : dev.getCq q = .ok cq) :
    (dev.setCq q (cq.writeEntry w)).interruptReady q' = dev.interruptReady q' ∧
      ∀ i, (dev.setCq q (cq.writeEntry w)).caresFor i q' = dev.caresFor i q' := by
  have hsome : dev.cqes q = some cq := by
    unfold getCq at hcq
    split at hcq
    · split at hcq
      · cases hcq
        assumption
      · cases hcq
    · cases hcq
  have hready : ((dev.setCq q (cq.writeEntry w)).cqes q').any NvmevCompletionQueue.interruptReady =
      (dev.cqes q').any NvmevCompletionQueue.interruptReady := by
    simp only [setCq, Function.update_apply]
    split_ifs with h
    · rw [h, hsome]
      rfl
    · rfl
  have henabled : ((dev.setCq q (cq.writeEntry w)).cqes q').any NvmevCompletionQueue.irqEnabled =
      (dev.cqes q').any NvmevCompletionQueue.irqEnabled := by
    simp only [setCq, Function.update_apply]
    split_ifs with h
    · rw [h, hsome]
      rfl
    · rfl
  refine ⟨hready, fun i => ?_⟩
  simp only [caresFor, henabled]
  rfl

end NvmevDev

/-! ## What holds between any two steps -/

/-- The log has a completion for `q` and no signal after it. -/
def Unsignalled (log : List IrqRecord) (q : Nat) : Prop :=
  ∃ before after, log = before ++ .posted q :: after ∧ .signalled q ∉ after

theorem unsignalled_concat {log : List IrqRecord} {r : IrqRecord} {q : Nat}
    (h : Unsignalled (log ++ [r]) q) :
    r = .posted q ∨ (r ≠ .signalled q ∧ Unsignalled log q) := by
  obtain ⟨before, after, heq, hno⟩ := h
  rcases List.eq_nil_or_concat after with rfl | ⟨after', r', rfl⟩
  · have hlast := List.append_inj_right' heq rfl
    exact Or.inl (List.head_eq_of_cons_eq hlast)
  · rw [List.concat_eq_append, ← List.cons_append, ← List.append_assoc] at heq
    obtain ⟨hlog, hr⟩ := List.append_inj' heq rfl
    obtain rfl := List.head_eq_of_cons_eq hr
    rw [List.concat_eq_append, List.mem_append, not_or, List.mem_singleton] at hno
    exact Or.inr ⟨fun hr => hno.2 hr.symm, before, after', hlog, hno.1⟩

namespace IrqLoop

variable {σ : Type} {s s' : IrqLoop σ} {i q : Nat} {x : IrqStage}

/-- A signal for `q` is still to come: the flag is up, or a worker is about to raise it or to
signal. -/
def Coming (s : IrqLoop σ) (q : Nat) : Prop :=
  s.dev.interruptReady q = true ∨ ∃ i, (s.stage i).comingQueue = some q

/-- The holder of `irq_lock` has reset the flag. -/
def clearedBy (s : IrqLoop σ) (q : Nat) : Bool :=
  (s.irqLock q).any fun i => s.stage i = .cleared q

/-- The signals for `q` that have been asked for. -/
def owed (s : IrqLoop σ) (q : Nat) : Nat :=
  (s.dev.interruptReady q).toNat + (s.entryLock q).isSome.toNat + (s.clearedBy q).toNat

structure Inv (s : IrqLoop σ) : Prop where
  entry : Locks.Agree (fun i => (s.stage i).filledQueue) s.entryLock
  irq : Locks.Agree (fun i => (s.stage i).lockedQueue) s.irqLock
  alive : ∀ i q, (s.stage i).filledQueue = some q → (s.dev.cqes q).isSome = true
  cares : ∀ i q, (s.stage i).lockedQueue = some q → s.dev.caresFor i q = true
  seen : ∀ i q, s.stage i = .seen q → s.dev.interruptReady q = true
  announced : ∀ q, Unsignalled s.log q → s.Coming q
  counted : ∀ q, s.log.count (.signalled q) + s.owed q ≤ s.log.count (.posted q)

theorem Inv.init {dev : NvmevDev σ} (h : ∀ q, dev.interruptReady q = false) :
    (IrqLoop.init dev).Inv := by
  refine ⟨fun _ _ => by simp [IrqLoop.init, IrqStage.filledQueue],
    fun _ _ => by simp [IrqLoop.init, IrqStage.lockedQueue], fun _ _ hq => (by cases hq),
    fun _ _ hq => (by cases hq), fun _ _ hq => (by cases hq), fun q hq => ?_, fun q => ?_⟩
  · obtain ⟨before, after, heq, -⟩ := hq
    simp [IrqLoop.init] at heq
  · have hready : (IrqLoop.init dev).dev.interruptReady q = false := h q
    simp only [owed, clearedBy, hready]
    simp [IrqLoop.init]

/-! ## Changes of one place -/

theorem stage_setStage (s : IrqLoop σ) (i j : Nat) (x : IrqStage) :
    (s.setStage i x).stage j = if j = i then x else s.stage j :=
  Function.update_apply ..

/-- What the places say, as a function of the worker. -/
theorem map_setStage (f : IrqStage → Option Nat) (s : IrqLoop σ) (i : Nat) (x : IrqStage) :
    (fun j => f ((s.setStage i x).stage j)) =
      Function.update (fun j => f (s.stage j)) i (f x) := by
  funext j
  rw [stage_setStage, Function.update_apply]
  split_ifs <;> rfl

theorem Agree.move {f : IrqStage → Option Nat} {holder : Nat → Option Nat}
    (h : Locks.Agree (fun j => f (s.stage j)) holder) (hx : f x = f (s.stage i)) :
    Locks.Agree (fun j => f ((s.setStage i x).stage j)) holder := by
  rw [map_setStage, hx]
  show Locks.Agree (Function.update (fun j => f (s.stage j)) i ((fun j => f (s.stage j)) i)) holder
  rwa [Function.update_eq_self]

theorem Coming.setStage (h : s.Coming q)
    (hx : (s.stage i).comingQueue = some q → x.comingQueue = some q) :
    (s.setStage i x).Coming q := by
  rcases h with hready | ⟨j, hj⟩
  · exact Or.inl hready
  · refine Or.inr ⟨j, ?_⟩
    rw [stage_setStage]
    split_ifs with he
    · exact hx (he ▸ hj)
    · exact hj

theorem clearedBy_iff (h : Locks.Agree (fun j => (s.stage j).lockedQueue) s.irqLock) :
    s.clearedBy q = true ↔ ∃ j, s.stage j = .cleared q := by
  unfold clearedBy
  rw [Option.any_eq_true]
  constructor
  · rintro ⟨j, -, hj⟩
    exact ⟨j, of_decide_eq_true hj⟩
  · rintro ⟨j, hj⟩
    have hheld : (s.stage j).lockedQueue = some q := by rw [hj]; rfl
    exact ⟨j, (h j q).mp hheld, decide_eq_true hj⟩

/-- The flag of a queue counts as reset in the same cases when the worker that moves stays at its
reset, or away from it. -/
theorem clearedBy_eq (s' : IrqLoop σ) (h : Locks.Agree (fun j => (s.stage j).lockedQueue) s.irqLock)
    (h' : Locks.Agree (fun j => ((s'.setStage i x).stage j).lockedQueue) s'.irqLock)
    (hs : s'.stage = s.stage) (hx : x = .cleared q ↔ s.stage i = .cleared q) :
    (s'.setStage i x).clearedBy q = s.clearedBy q := by
  rw [Bool.eq_iff_iff, clearedBy_iff h, clearedBy_iff h']
  refine exists_congr fun j => ?_
  rw [stage_setStage, hs]
  split_ifs with he
  · exact he ▸ hx
  · rfl

/-! ## Preservation -/

/-- A worker goes to a place that says the same about locks and signals. -/
theorem Inv.move (h : s.Inv) (hfilled : x.filledQueue = (s.stage i).filledQueue)
    (hlocked : x.lockedQueue = (s.stage i).lockedQueue)
    (hcoming : ∀ q, (s.stage i).comingQueue = some q → x.comingQueue = some q)
    (hseen : ∀ q, x = .seen q → s.dev.interruptReady q = true)
    (hcleared : ∀ q, x = .cleared q ↔ s.stage i = .cleared q) : (s.setStage i x).Inv := by
  have hirq := Agree.move h.irq hlocked
  refine ⟨Agree.move h.entry hfilled, hirq, fun j q hj => ?_, fun j q hj => ?_,
    fun j q hj => ?_, fun q hq => (h.announced q hq).setStage (hcoming q), fun q => ?_⟩
  · rw [stage_setStage] at hj
    split_ifs at hj with he
    · exact h.alive i q (hfilled ▸ hj)
    · exact h.alive j q hj
  · rw [stage_setStage] at hj
    split_ifs at hj with he
    · subst he
      exact h.cares j q (hlocked ▸ hj)
    · exact h.cares j q hj
  · rw [stage_setStage] at hj
    split_ifs at hj with he
    · exact hseen q hj
    · exact h.seen j q hj
  · have hcounted := h.counted q
    rw [owed, ← clearedBy_eq s h.irq hirq rfl (hcleared q)] at hcounted
    exact hcounted

theorem Inv.start (h : s.Inv) : (s.start i).Inv := by
  unfold IrqLoop.start
  split_ifs with hs
  · refine h.move ?_ ?_ ?_ ?_ ?_ <;> simp [hs, IrqStage.filledQueue, IrqStage.lockedQueue,
      IrqStage.comingQueue]
  · exact h

/-- An entry is written. -/
theorem Inv.fill {w : NvmevIoWork} (h : s.Inv) (hr : s.fill i w = .ok s') : s'.Inv := by
  unfold IrqLoop.fill at hr
  split_ifs at hr with hs
  swap
  · cases hr
    exact h
  obtain ⟨hwalking, hfree⟩ := hs
  obtain ⟨cq, hcq, hr⟩ := Checked.bind_eq_ok.mp hr
  cases hr
  generalize w.cqid = q₀ at *
  have hready := fun q => (NvmevDev.writeEntry_flags q₀ q (w := w) hcq).1
  have hcares := fun j q => (NvmevDev.writeEntry_flags q₀ q (w := w) hcq).2 j
  have hirq : Locks.Agree (fun j => ((s.setStage i (.filling q₀)).stage j).lockedQueue) s.irqLock :=
    Agree.move h.irq (by rw [hwalking]; rfl)
  refine ⟨?_, hirq, fun j q hj => ?_, fun j q hj => ?_, fun j q hj => ?_, fun q hq => ?_,
    fun q => ?_⟩
  · rw [map_setStage]
    exact h.entry.acquire (by rw [hwalking]; rfl) hfree
  · show (Function.update s.dev.cqes q₀ (some _) q).isSome = true
    rw [Function.update_apply]
    split_ifs with he
    · rfl
    · rw [stage_setStage] at hj
      split_ifs at hj with hi
      · exact absurd (Option.some.inj hj).symm he
      · exact h.alive j q hj
  · rw [stage_setStage] at hj
    split_ifs at hj with hi
    · cases hj
    · exact (hcares j q).trans (h.cares j q hj)
  · rw [stage_setStage] at hj
    split_ifs at hj with hi
    exact (hready q).trans (h.seen j q hj)
  · rcases unsignalled_concat hq with hpost | ⟨-, hq⟩
    · cases hpost
      exact Or.inr ⟨i, by rw [stage_setStage, if_pos rfl]; rfl⟩
    · rcases h.announced q hq with hup | ⟨j, hj⟩
      · exact Or.inl ((hready q).trans hup)
      · refine Or.inr ⟨j, ?_⟩
        rw [stage_setStage, if_neg]
        · exact hj
        · rintro rfl
          rw [hwalking] at hj
          cases hj
  · have hcounted := h.counted q
    rw [owed, ← clearedBy_eq s (q := q) h.irq hirq rfl (by simp [hwalking])] at hcounted
    show (s.log ++ [_]).count _ +
      (((s.dev.setCq q₀ (cq.writeEntry w)).interruptReady q).toNat +
        (Function.update s.entryLock q₀ (some i) q).isSome.toNat +
        ((s.setStage i (.filling q₀)).clearedBy q).toNat) ≤ (s.log ++ [_]).count _
    rw [hready q, List.count_append, List.count_append, Function.update_apply]
    by_cases he : q = q₀
    · subst he
      simp only [hfree, Option.isSome_none, Bool.toNat_false] at hcounted
      simp
      omega
    · simp [he, Ne.symm he]
      omega

/-- The flag is raised and `entry_lock` is free. -/
theorem Inv.raise (h : s.Inv) : (s.raise i).Inv := by
  unfold IrqLoop.raise
  split
  swap
  · exact h
  rename_i q hq
  have hheld : (s.stage i).filledQueue = some q := by rw [hq]; rfl
  have hup : (s.dev.setInterruptReady q true).interruptReady q = true := by
    simp [h.alive i q hheld]
  have hready : ∀ q' ≠ q,
      (s.dev.setInterruptReady q true).interruptReady q' = s.dev.interruptReady q' :=
    fun q' hne => by simp [hne]
  have hirq : Locks.Agree (fun j => ((s.setStage i .walking).stage j).lockedQueue) s.irqLock :=
    Agree.move h.irq (by rw [hq]; rfl)
  refine ⟨?_, hirq, fun j q' hj => ?_, fun j q' hj => ?_, fun j q' hj => ?_, fun q' hq' => ?_,
    fun q' => ?_⟩
  · rw [map_setStage]
    exact h.entry.release hheld
  · rw [stage_setStage] at hj
    split_ifs at hj with he
    · cases hj
    · exact (NvmevDev.isSome_setInterruptReady ..).trans (h.alive j q' hj)
  · rw [stage_setStage] at hj
    split_ifs at hj with he
    · cases hj
    · exact (NvmevDev.caresFor_setInterruptReady ..).trans (h.cares j q' hj)
  · rw [stage_setStage] at hj
    split_ifs at hj with he
    by_cases hqq : q' = q
    · exact hqq ▸ hup
    · exact (hready q' hqq).trans (h.seen j q' hj)
  · by_cases hqq : q' = q
    · exact Or.inl (hqq ▸ hup)
    rcases h.announced q' hq' with hup' | ⟨j, hj⟩
    · exact Or.inl ((hready q' hqq).trans hup')
    · refine Or.inr ⟨j, ?_⟩
      rw [stage_setStage, if_neg]
      · exact hj
      · rintro rfl
        rw [hq] at hj
        exact hqq (Option.some.inj hj).symm
  · have hcounted := h.counted q'
    rw [owed, ← clearedBy_eq s (q := q') h.irq hirq rfl (by simp [hq])] at hcounted
    show s.log.count _ + (((s.dev.setInterruptReady q true).interruptReady q').toNat +
      (Function.update s.entryLock q none q').isSome.toNat +
      ((s.setStage i .walking).clearedBy q').toNat) ≤ s.log.count _
    by_cases hqq : q' = q
    · subst hqq
      rw [(h.entry i q').mp hheld] at hcounted
      rw [hup, Function.update_self]
      simp at hcounted ⊢
      omega
    · rwa [hready q' hqq, Function.update_of_ne hqq]

/-- `mutex_trylock` succeeds. -/
theorem Inv.lock (h : s.Inv) (hstage : s.stage i = .scanning q) (hcares : s.dev.caresFor i q = true)
    (hfree : s.irqLock q = none) :
    ({ s with irqLock := Function.update s.irqLock q (some i) }.setStage i (.locked q)).Inv := by
  have hirq : Locks.Agree (fun j => ((s.setStage i (.locked q)).stage j).lockedQueue)
      (Function.update s.irqLock q (some i)) := by
    rw [map_setStage]
    exact h.irq.acquire (by rw [hstage]; rfl) hfree
  refine ⟨Agree.move h.entry (by rw [hstage]; rfl), hirq, fun j q' hj => ?_, fun j q' hj => ?_,
    fun j q' hj => ?_, fun q' hq' => ?_, fun q' => ?_⟩
  · rw [stage_setStage] at hj
    split_ifs at hj with he
    · cases hj
    · exact h.alive j q' hj
  · rw [stage_setStage] at hj
    split_ifs at hj with he
    · cases hj
      exact he ▸ hcares
    · exact h.cares j q' hj
  · rw [stage_setStage] at hj
    split_ifs at hj with he
    exact h.seen j q' hj
  · refine Coming.setStage (s := { s with irqLock := _ }) (h.announced q' hq') fun hc => ?_
    change (s.stage i).comingQueue = _ at hc
    rw [hstage] at hc
    cases hc
  · have hcounted := h.counted q'
    rw [owed, ← clearedBy_eq { s with irqLock := Function.update s.irqLock q (some i) } (q := q')
      h.irq hirq rfl (by simp [hstage])] at hcounted
    exact hcounted

/-- The holder of `irq_lock` resets the flag it has seen. -/
theorem Inv.clear (h : s.Inv) (hstage : s.stage i = .seen q) :
    ({ s with dev := s.dev.setInterruptReady q false }.setStage i (.cleared q)).Inv := by
  have hheld : (s.stage i).lockedQueue = some q := by rw [hstage]; rfl
  have hdown : (s.dev.setInterruptReady q false).interruptReady q = false := by simp
  have hready : ∀ q' ≠ q,
      (s.dev.setInterruptReady q false).interruptReady q' = s.dev.interruptReady q' :=
    fun q' hne => by simp [hne]
  have hirq : Locks.Agree (fun j => ((s.setStage i (.cleared q)).stage j).lockedQueue) s.irqLock :=
    Agree.move h.irq (by rw [hstage]; rfl)
  refine ⟨Agree.move h.entry (by rw [hstage]; rfl), hirq, fun j q' hj => ?_, fun j q' hj => ?_,
    fun j q' hj => ?_, fun q' hq' => ?_, fun q' => ?_⟩
  · rw [stage_setStage] at hj
    split_ifs at hj with he
    · cases hj
    · exact (NvmevDev.isSome_setInterruptReady ..).trans (h.alive j q' hj)
  · rw [stage_setStage] at hj
    refine (NvmevDev.caresFor_setInterruptReady ..).trans ?_
    split_ifs at hj with he
    · cases hj
      exact he ▸ h.cares i q hheld
    · exact h.cares j q' hj
  · rw [stage_setStage] at hj
    split_ifs at hj with he
    -- No other worker has seen this flag, since it would hold the same lock.
    have hqq : q' ≠ q := by
      rintro rfl
      exact he (h.irq.unique (by rw [show s.stage j = .seen q' from hj]; rfl) hheld)
    exact (hready q' hqq).trans (h.seen j q' hj)
  · by_cases hqq : q' = q
    · exact Or.inr ⟨i, by rw [stage_setStage, if_pos rfl, hqq]; rfl⟩
    rcases h.announced q' hq' with hup | ⟨j, hj⟩
    · exact Or.inl ((hready q' hqq).trans hup)
    · refine Or.inr ⟨j, ?_⟩
      rw [stage_setStage, if_neg]
      · exact hj
      · rintro rfl
        rw [hstage] at hj
        exact hqq (Option.some.inj hj).symm
  · have hcounted := h.counted q'
    show s.log.count _ + (((s.dev.setInterruptReady q false).interruptReady q').toNat +
      (s.entryLock q').isSome.toNat + (clearedBy ({ s with
        dev := s.dev.setInterruptReady q false }.setStage i (.cleared q)) q').toNat) ≤ s.log.count _
    by_cases hqq : q' = q
    · subst hqq
      have hup := h.seen i q' hstage
      have hle := Bool.toNat_le (clearedBy ({ s with
        dev := s.dev.setInterruptReady q' false }.setStage i (.cleared q')) q')
      rw [owed, hup] at hcounted
      rw [hdown]
      simp only [Bool.toNat_true, Bool.toNat_false] at hcounted ⊢
      omega
    · rw [owed, ← clearedBy_eq { s with dev := s.dev.setInterruptReady q false } (q := q')
        h.irq hirq rfl (by simp [hstage, Ne.symm hqq])] at hcounted
      rwa [hready q' hqq]

/-- `nvmev_signal_irq`. -/
theorem Inv.signal (h : s.Inv) (hstage : s.stage i = .cleared q) :
    ({ s with log := s.log ++ [IrqRecord.signalled q] }.setStage i (.leaving q)).Inv := by
  have hheld : (s.stage i).lockedQueue = some q := by rw [hstage]; rfl
  have hirq : Locks.Agree (fun j => ((s.setStage i (.leaving q)).stage j).lockedQueue) s.irqLock :=
    Agree.move h.irq (by rw [hstage]; rfl)
  refine ⟨Agree.move h.entry (by rw [hstage]; rfl), hirq, fun j q' hj => ?_, fun j q' hj => ?_,
    fun j q' hj => ?_, fun q' hq' => ?_, fun q' => ?_⟩
  · rw [stage_setStage] at hj
    split_ifs at hj with he
    · cases hj
    · exact h.alive j q' hj
  · rw [stage_setStage] at hj
    split_ifs at hj with he
    · cases hj
      exact he ▸ h.cares i q hheld
    · exact h.cares j q' hj
  · rw [stage_setStage] at hj
    split_ifs at hj with he
    exact h.seen j q' hj
  · rcases unsignalled_concat hq' with hpost | ⟨hne, hq'⟩
    · cases hpost
    refine Coming.setStage (s := { s with log := _ }) (h.announced q' hq') fun hc => ?_
    change (s.stage i).comingQueue = _ at hc
    rw [hstage] at hc
    cases hc
    exact absurd rfl hne
  · have hcounted := h.counted q'
    by_cases hqq : q' = q
    · subst hqq
      have hwas : s.clearedBy q' = true := (clearedBy_iff h.irq).mpr ⟨i, hstage⟩
      have hnow : clearedBy ({ s with
          log := s.log ++ [IrqRecord.signalled q'] }.setStage i (.leaving q')) q' = false := by
        refine Bool.eq_false_iff.mpr fun hcl => ?_
        obtain ⟨j, hj⟩ := (clearedBy_iff (s := { s with
          log := s.log ++ [IrqRecord.signalled q'] }.setStage i (.leaving q')) hirq).mp hcl
        rw [stage_setStage] at hj
        split_ifs at hj with he
        exact he (h.irq.unique (by rw [show s.stage j = .cleared q' from hj]; rfl) hheld)
      unfold owed at hcounted ⊢
      rw [hwas] at hcounted
      rw [hnow]
      show (s.log ++ [_]).count _ + ((s.dev.interruptReady q').toNat +
        (s.entryLock q').isSome.toNat + _) ≤ (s.log ++ [_]).count _
      simp at hcounted ⊢
      omega
    · rw [owed, ← clearedBy_eq { s with log := s.log ++ [.signalled q] } (q := q') h.irq hirq
        rfl (by simp [hstage, Ne.symm hqq])] at hcounted
      unfold owed
      show (s.log ++ [_]).count _ + ((s.dev.interruptReady q').toNat +
        (s.entryLock q').isSome.toNat + _) ≤ (s.log ++ [_]).count _
      simpa [List.count_append, Ne.symm hqq] using hcounted

/-- `mutex_unlock`. -/
theorem Inv.unlock (h : s.Inv) (hstage : s.stage i = .leaving q) :
    ({ s with irqLock := Function.update s.irqLock q none }.setStage i (.scanning (q + 1))).Inv := by
  have hheld : (s.stage i).lockedQueue = some q := by rw [hstage]; rfl
  have hirq : Locks.Agree (fun j => ((s.setStage i (.scanning (q + 1))).stage j).lockedQueue)
      (Function.update s.irqLock q none) := by
    rw [map_setStage]
    exact h.irq.release hheld
  refine ⟨Agree.move h.entry (by rw [hstage]; rfl), hirq, fun j q' hj => ?_, fun j q' hj => ?_,
    fun j q' hj => ?_, fun q' hq' => ?_, fun q' => ?_⟩
  · rw [stage_setStage] at hj
    split_ifs at hj with he
    · cases hj
    · exact h.alive j q' hj
  · rw [stage_setStage] at hj
    split_ifs at hj with he
    · cases hj
    · exact h.cares j q' hj
  · rw [stage_setStage] at hj
    split_ifs at hj with he
    exact h.seen j q' hj
  · refine Coming.setStage (s := { s with irqLock := _ }) (h.announced q' hq') fun hc => ?_
    change (s.stage i).comingQueue = _ at hc
    rw [hstage] at hc
    cases hc
  · have hcounted := h.counted q'
    rw [owed, ← clearedBy_eq { s with irqLock := Function.update s.irqLock q none } (q := q')
      h.irq hirq rfl (by simp [hstage])] at hcounted
    exact hcounted

theorem Inv.advance (h : s.Inv) : (s.advance i).Inv := by
  unfold IrqLoop.advance
  cases hstage : s.stage i with
  | walking => exact h
  | filling q => exact h
  | scanning q =>
    dsimp only
    split_ifs with hend hlock
    · refine h.move ?_ ?_ ?_ ?_ ?_ <;> simp [hstage, IrqStage.filledQueue, IrqStage.lockedQueue,
        IrqStage.comingQueue]
    · exact h.lock hstage hlock.1 hlock.2
    · refine h.move ?_ ?_ ?_ ?_ ?_ <;> simp [hstage, IrqStage.filledQueue, IrqStage.lockedQueue,
        IrqStage.comingQueue]
  | locked q =>
    dsimp only
    split_ifs with hready
    · refine h.move ?_ ?_ ?_ ?_ ?_ <;> simp [hstage, hready, IrqStage.filledQueue,
        IrqStage.lockedQueue, IrqStage.comingQueue]
    · refine h.move ?_ ?_ ?_ ?_ ?_ <;> simp [hstage, IrqStage.filledQueue, IrqStage.lockedQueue,
        IrqStage.comingQueue]
  | seen q => exact h.clear hstage
  | cleared q => exact h.signal hstage
  | leaving q => exact h.unlock hstage

theorem Inv.step {ev : IrqEvent} (h : s.Inv) (hr : s.step ev = .ok s') : s'.Inv := by
  cases ev with
  | fill i w => exact h.fill hr
  | raise i =>
    cases hr
    exact h.raise
  | start i =>
    cases hr
    exact h.start
  | advance i =>
    cases hr
    exact h.advance

theorem Inv.run {evs : List IrqEvent} (h : s.Inv) (hr : s.run evs = .ok s') : s'.Inv := by
  induction evs generalizing s with
  | nil =>
    cases hr
    exact h
  | cons ev evs ih =>
    obtain ⟨s₁, hs₁, hr⟩ := Checked.bind_eq_ok.mp hr
    exact ih (h.step hs₁) hr

/-! ## What the host sees -/

/-- The records that a step adds, and what it leaves. -/
structure Extends (s s' : IrqLoop σ) : Prop where
  log : ∃ added, s'.log = s.log ++ added
  nrCq : s'.dev.nrCq = s.dev.nrCq
  cares : ∀ i q, s'.dev.caresFor i q = s.dev.caresFor i q

theorem Extends.refl (s : IrqLoop σ) : s.Extends s :=
  ⟨⟨[], (List.append_nil _).symm⟩, rfl, fun _ _ => rfl⟩

theorem Extends.trans {s₁ : IrqLoop σ} (h : s.Extends s₁) (h' : s₁.Extends s') : s.Extends s' := by
  obtain ⟨added, hadded⟩ := h.log
  obtain ⟨added', hadded'⟩ := h'.log
  refine ⟨⟨added ++ added', ?_⟩, h'.nrCq.trans h.nrCq, fun i q => (h'.cares i q).trans (h.cares i q)⟩
  rw [hadded', hadded, List.append_assoc]

theorem fill_extends {w : NvmevIoWork} (hr : s.fill i w = .ok s') : s.Extends s' := by
  unfold IrqLoop.fill at hr
  split_ifs at hr with hs
  swap
  · cases hr
    exact .refl s
  obtain ⟨cq, hcq, hr⟩ := Checked.bind_eq_ok.mp hr
  cases hr
  exact ⟨⟨_, rfl⟩, rfl, fun j q => (NvmevDev.writeEntry_flags w.cqid q hcq).2 j⟩

theorem raise_extends (s : IrqLoop σ) (i : Nat) : s.Extends (s.raise i) := by
  unfold IrqLoop.raise
  split
  · exact ⟨⟨[], (List.append_nil _).symm⟩, rfl, fun j q' => NvmevDev.caresFor_setInterruptReady ..⟩
  · exact .refl s

theorem advance_extends (s : IrqLoop σ) (i : Nat) : s.Extends (s.advance i) := by
  unfold IrqLoop.advance
  cases s.stage i with
  | walking => exact .refl s
  | filling q => exact .refl s
  | scanning q =>
    dsimp only
    split_ifs <;> exact ⟨⟨[], (List.append_nil _).symm⟩, rfl, fun _ _ => rfl⟩
  | locked q => exact ⟨⟨[], (List.append_nil _).symm⟩, rfl, fun _ _ => rfl⟩
  | seen q =>
    exact ⟨⟨[], (List.append_nil _).symm⟩, rfl, fun _ _ => NvmevDev.caresFor_setInterruptReady ..⟩
  | cleared q => exact ⟨⟨_, rfl⟩, rfl, fun _ _ => rfl⟩
  | leaving q => exact ⟨⟨[], (List.append_nil _).symm⟩, rfl, fun _ _ => rfl⟩

theorem step_extends {ev : IrqEvent} (hr : s.step ev = .ok s') : s.Extends s' := by
  cases ev with
  | fill i w => exact fill_extends hr
  | raise i =>
    cases hr
    exact raise_extends s i
  | start i =>
    cases hr
    unfold IrqLoop.start
    split_ifs
    · exact ⟨⟨[], (List.append_nil _).symm⟩, rfl, fun _ _ => rfl⟩
    · exact .refl s
  | advance i =>
    cases hr
    exact advance_extends s i

theorem run_extends {evs : List IrqEvent} (hr : s.run evs = .ok s') : s.Extends s' := by
  induction evs generalizing s with
  | nil =>
    cases hr
    exact .refl _
  | cons ev evs ih =>
    obtain ⟨s₁, hs₁, hr⟩ := Checked.bind_eq_ok.mp hr
    exact (step_extends hs₁).trans (ih hr)

/-! ## One time round -/

/-- Worker `i` will signal for `q` before it ends its round. -/
def Due (s : IrqLoop σ) (i q : Nat) : Prop :=
  s.dev.interruptReady q = true ∧ (s.stage i).ahead q = true ∨
    s.stage i = .seen q ∨ s.stage i = .cleared q

theorem caresFor_eq {dev : NvmevDev σ} (h : dev.caresFor i q = true) : dev.getIoWorker q = i :=
  (of_decide_eq_true h).1

/-- The other workers do not move worker `i`, and the flag of a queue that it cares for stays up:
only the holder of `irq_lock` resets it. -/
theorem step_other {ev : IrqEvent} (h : s.Inv) (hcares : s.dev.caresFor i q = true)
    (hne : ev.worker ≠ i) (hr : s.step ev = .ok s') :
    s'.stage i = s.stage i ∧
      (s.dev.interruptReady q = true → s'.dev.interruptReady q = true) := by
  have hstay : ∀ (s₁ : IrqLoop σ) (j : Nat) (x : IrqStage), j ≠ i →
      (s₁.setStage j x).stage i = s₁.stage i := fun s₁ j x hj => by
    rw [stage_setStage, if_neg hj.symm]
  cases ev with
  | fill j w =>
    change s.fill j w = .ok s' at hr
    unfold IrqLoop.fill at hr
    split_ifs at hr with hs
    swap
    · cases hr
      exact ⟨rfl, id⟩
    obtain ⟨cq, hcq, hr⟩ := Checked.bind_eq_ok.mp hr
    cases hr
    exact ⟨hstay _ j _ hne, fun hup => ((NvmevDev.writeEntry_flags w.cqid q hcq).1).trans hup⟩
  | raise j =>
    cases hr
    unfold IrqLoop.raise
    split
    · rename_i q' hq'
      refine ⟨hstay _ j _ hne, fun hup => (NvmevDev.interruptReady_setInterruptReady ..).trans ?_⟩
      split_ifs with hqq
      · rw [h.alive j q' (by rw [hq']; rfl)]
        rfl
      · exact hup
    · exact ⟨rfl, id⟩
  | start j =>
    cases hr
    unfold IrqLoop.start
    split_ifs
    · exact ⟨hstay _ j _ hne, id⟩
    · exact ⟨rfl, id⟩
  | advance j =>
    cases hr
    change j ≠ i at hne
    unfold IrqLoop.advance
    cases hstage : s.stage j with
    | walking => exact ⟨rfl, id⟩
    | filling q' => exact ⟨rfl, id⟩
    | scanning q' =>
      dsimp only
      split_ifs <;> exact ⟨hstay _ j _ hne, id⟩
    | locked q' => exact ⟨hstay _ j _ hne, id⟩
    | seen q' =>
      have hqq : q ≠ q' := by
        rintro rfl
        have hj := h.cares j q (by rw [hstage]; rfl)
        exact hne ((caresFor_eq hj).symm.trans (caresFor_eq hcares))
      refine ⟨hstay _ j _ hne, fun hup => (NvmevDev.interruptReady_setInterruptReady ..).trans ?_⟩
      rwa [if_neg hqq]
    | cleared q' => exact ⟨hstay _ j _ hne, id⟩
    | leaving q' => exact ⟨hstay _ j _ hne, id⟩

/-- A worker finds the lock of a queue that it cares for free. -/
theorem Inv.lock_free (h : s.Inv) (hcares : s.dev.caresFor i q = true)
    (hstage : (s.stage i).lockedQueue = none) : s.irqLock q = none := by
  cases hl : s.irqLock q with
  | none => rfl
  | some j =>
    have hj : (s.stage j).lockedQueue = some q := (h.irq j q).mpr hl
    obtain rfl : j = i := (caresFor_eq (h.cares j q hj)).symm.trans (caresFor_eq hcares)
    rw [hstage] at hj
    cases hj

/-- A step of the worker itself keeps the signal due, or gives it. -/
theorem Due.advance (h : s.Inv) (hcares : s.dev.caresFor i q = true) (hq : q ≤ s.dev.nrCq)
    (hdue : s.Due i q) :
    (s.advance i).Due i q ∨ (s.advance i).log = s.log ++ [.signalled q] := by
  have hnow : ∀ (s₁ : IrqLoop σ) (x : IrqStage), (s₁.setStage i x).stage i = x := fun s₁ x => by
    rw [stage_setStage, if_pos rfl]
  unfold IrqLoop.advance
  rcases hdue with ⟨hup, hahead⟩ | hseen | hcleared
  · cases hstage : s.stage i with
    | walking => simp [hstage, IrqStage.ahead] at hahead
    | filling q' => simp [hstage, IrqStage.ahead] at hahead
    | scanning q' =>
      have hle : q' ≤ q := by simpa [hstage, IrqStage.ahead] using hahead
      dsimp only
      rw [if_neg (by omega)]
      split_ifs with hlock
      · exact Or.inl (Or.inl ⟨hup, by rw [hnow]; simpa [IrqStage.ahead] using hle⟩)
      · have hne : q' ≠ q := by
          rintro rfl
          exact hlock ⟨hcares, h.lock_free hcares (by rw [hstage]; rfl)⟩
        refine Or.inl (Or.inl ⟨hup, ?_⟩)
        rw [hnow]
        simp only [IrqStage.ahead, decide_eq_true_eq]
        omega
    | locked q' =>
      have hle : q' ≤ q := by simpa [hstage, IrqStage.ahead] using hahead
      dsimp only
      by_cases hqq : q' = q
      · subst hqq
        rw [if_pos hup]
        exact Or.inl (Or.inr (Or.inl (hnow ..)))
      · refine Or.inl (Or.inl ⟨hup, ?_⟩)
        rw [hnow]
        split_ifs <;> simp only [IrqStage.ahead, decide_eq_true_eq] <;> omega
    | seen q' =>
      have hlt : q' < q := by simpa [hstage, IrqStage.ahead] using hahead
      refine Or.inl (Or.inl ⟨?_, by rw [hnow]; simpa [IrqStage.ahead] using hlt⟩)
      refine (NvmevDev.interruptReady_setInterruptReady ..).trans ?_
      rwa [if_neg (by omega)]
    | cleared q' =>
      have hlt : q' < q := by simpa [hstage, IrqStage.ahead] using hahead
      exact Or.inl (Or.inl ⟨hup, by rw [hnow]; simpa [IrqStage.ahead] using hlt⟩)
    | leaving q' =>
      have hlt : q' < q := by simpa [hstage, IrqStage.ahead] using hahead
      exact Or.inl (Or.inl ⟨hup, by rw [hnow]; simpa [IrqStage.ahead] using Nat.succ_le_of_lt hlt⟩)
  · rw [hseen]
    exact Or.inl (Or.inr (Or.inr (hnow ..)))
  · rw [hcleared]
    exact Or.inr rfl

/-- In every step the signal stays due, or it is given. -/
theorem Due.step {ev : IrqEvent} (h : s.Inv) (hcares : s.dev.caresFor i q = true)
    (hq : q ≤ s.dev.nrCq) (hdue : s.Due i q) (hr : s.step ev = .ok s') :
    s'.Due i q ∨ s'.log = s.log ++ [.signalled q] := by
  by_cases hne : ev.worker ≠ i
  · obtain ⟨hstage, hready⟩ := step_other h hcares hne hr
    unfold Due at hdue ⊢
    rw [hstage]
    exact Or.inl (hdue.imp_left fun hup => ⟨hready hup.1, hup.2⟩)
  have hbusy : s.stage i ≠ .walking ∧ ∀ q', s.stage i ≠ .filling q' := by
    constructor
    · intro hw
      simp [Due, hw, IrqStage.ahead] at hdue
    · intro q' hw
      simp [Due, hw, IrqStage.ahead] at hdue
  rw [not_not] at hne
  cases ev with
  | fill j w =>
    cases hne
    change s.fill j w = .ok s' at hr
    rw [IrqLoop.fill, if_neg fun hs => hbusy.1 hs.1] at hr
    cases hr
    exact Or.inl hdue
  | raise j =>
    cases hne
    cases hr
    rw [IrqLoop.raise]
    split
    · exact absurd ‹_› (hbusy.2 _)
    · exact Or.inl hdue
  | start j =>
    cases hne
    cases hr
    rw [IrqLoop.start]
    split_ifs with hs
    · exact absurd hs hbusy.1
    · exact Or.inl hdue
  | advance j =>
    cases hne
    cases hr
    exact hdue.advance h hcares hq

/-- Once it is due, the signal has been given before the worker is back at its entries. -/
theorem Due.run {evs : List IrqEvent} (h : s.Inv) (hcares : s.dev.caresFor i q = true)
    (hq : q ≤ s.dev.nrCq) (hdue : s.Due i q) (hr : s.run evs = .ok s') :
    s'.Due i q ∨ ∃ added, s'.log = s.log ++ added ∧ .signalled q ∈ added := by
  induction evs generalizing s with
  | nil =>
    cases hr
    exact Or.inl hdue
  | cons ev evs ih =>
    obtain ⟨s₁, hs₁, hr⟩ := Checked.bind_eq_ok.mp hr
    have hext := step_extends hs₁
    rcases hdue.step h hcares hq hs₁ with hdue | hlog
    · rcases ih (h.step hs₁) (by rw [hext.cares, hcares]) (by rw [hext.nrCq]; exact hq) hdue hr with
        hdue | ⟨added, hadded, hmem⟩
      · exact Or.inl hdue
      · obtain ⟨first, hfirst⟩ := hext.log
        refine Or.inr ⟨first ++ added, ?_, List.mem_append_right _ hmem⟩
        rw [hadded, hfirst, List.append_assoc]
    · obtain ⟨rest, hrest⟩ := (run_extends hr).log
      refine Or.inr ⟨.signalled q :: rest, ?_, List.mem_cons_self⟩
      rw [hrest, hlog, List.append_assoc]
      rfl

/-- The steps that a worker is at most away from its entries, with `n` queues. -/
def left (n : Nat) : IrqStage → Nat
  | .walking | .filling _ => 0
  | .scanning q => if q ≤ n then 5 * (n - q) + 6 else 1
  | .locked q => 5 * (n - q) + 5
  | .seen q => 5 * (n - q) + 4
  | .cleared q => 5 * (n - q) + 3
  | .leaving q => 5 * (n - q) + 2

theorem left_scanning (n q : Nat) :
    left n (.scanning q) = if q ≤ n then 5 * (n - q) + 6 else 1 := rfl

theorem left_scanning_succ_le (n q : Nat) : left n (.scanning (q + 1)) ≤ 5 * (n - q) + 1 := by
  rw [left_scanning]
  split_ifs <;> omega

/-- Each step of a worker in its loop over the queues brings it closer to the end. -/
theorem left_advance (hpos : 0 < left s.dev.nrCq (s.stage i)) :
    left s.dev.nrCq ((s.advance i).stage i) < left s.dev.nrCq (s.stage i) ∧
      ((s.advance i).stage i).filledQueue = none := by
  have hnow : ∀ (s₁ : IrqLoop σ) (x : IrqStage), (s₁.setStage i x).stage i = x := fun s₁ x => by
    rw [stage_setStage, if_pos rfl]
  unfold IrqLoop.advance
  cases hstage : s.stage i with
  | walking => simp [hstage, left] at hpos
  | filling q => simp [hstage, left] at hpos
  | scanning q =>
    have hnext := left_scanning_succ_le s.dev.nrCq q
    have hq := left_scanning s.dev.nrCq q
    dsimp only
    split_ifs with hend hlock
    · rw [if_neg (by omega)] at hq
      rw [hnow, hq]
      exact ⟨Nat.one_pos, rfl⟩
    · rw [if_pos (by omega)] at hq
      rw [hnow, hq]
      exact ⟨Nat.lt_succ_self _, rfl⟩
    · rw [if_pos (by omega)] at hq
      rw [hnow, hq]
      exact ⟨by omega, rfl⟩
  | locked q =>
    dsimp only
    rw [hnow]
    split_ifs
    · exact ⟨Nat.lt_succ_self _, rfl⟩
    · exact ⟨by simp only [left]; omega, rfl⟩
  | seen q =>
    dsimp only
    rw [hnow]
    exact ⟨Nat.lt_succ_self _, rfl⟩
  | cleared q =>
    dsimp only
    rw [hnow]
    exact ⟨Nat.lt_succ_self _, rfl⟩
  | leaving q =>
    dsimp only
    rw [hnow]
    exact ⟨Nat.lt_succ_of_le (left_scanning_succ_le _ q), rfl⟩

theorem walking_of_left {x : IrqStage} {n : Nat} (h : left n x = 0) (hfill : x.filledQueue = none) :
    x = .walking := by
  cases x with
  | walking => rfl
  | filling q => cases hfill
  | scanning q =>
    rw [left_scanning] at h
    split_ifs at h
  | _ q => cases h

/-- A worker never waits in its loop over the queues: alone, it comes back to its entries. -/
theorem advance_returns (n : Nat) (s : IrqLoop σ) (hn : left s.dev.nrCq (s.stage i) ≤ n)
    (hfill : (s.stage i).filledQueue = none) :
    ∃ m ≤ n, ((fun s => s.advance i)^[m] s).stage i = .walking := by
  induction n generalizing s with
  | zero => exact ⟨0, le_rfl, walking_of_left (Nat.le_zero.mp hn) hfill⟩
  | succ n ih =>
    by_cases hzero : left s.dev.nrCq (s.stage i) = 0
    · exact ⟨0, Nat.zero_le _, walking_of_left hzero hfill⟩
    obtain ⟨hlt, hfill'⟩ := left_advance (Nat.pos_of_ne_zero hzero)
    have hn' : left (s.advance i).dev.nrCq ((s.advance i).stage i) ≤ n := by
      rw [(advance_extends s i).nrCq]
      omega
    obtain ⟨m, hm, hstage⟩ := ih (s.advance i) hn' hfill'
    exact ⟨m + 1, Nat.succ_le_succ hm, hstage⟩

/-- Writing the entry and raising the flag together are `__fill_cq_result`. -/
theorem fill_raise {w : NvmevIoWork} {s₁ : IrqLoop σ} (hwalk : s.stage i = .walking)
    (hfree : s.entryLock w.cqid = none) (hr : s.fill i w = .ok s₁) :
    s.dev.fillCqResult w = .ok (s₁.raise i).dev := by
  rw [IrqLoop.fill, if_pos ⟨hwalk, hfree⟩] at hr
  obtain ⟨cq, hcq, hr⟩ := Checked.bind_eq_ok.mp hr
  cases hr
  have hstage : ∀ s₁ : IrqLoop σ, (s₁.setStage i (.filling w.cqid)).stage i = .filling w.cqid :=
    fun s₁ => by rw [stage_setStage, if_pos rfl]
  unfold IrqLoop.raise
  rw [hstage]
  refine Checked.bind_eq_ok.mpr ⟨cq, hcq, congrArg Except.ok ?_⟩
  have hcqes : Function.update s.dev.cqes w.cqid (some (cq.post w)) =
      ((s.dev.setCq w.cqid (cq.writeEntry w)).setInterruptReady w.cqid true).cqes := by
    simp only [NvmevDev.setInterruptReady, NvmevDev.setCq, Function.update_idem,
      Function.update_self, Option.map_some, NvmevCompletionQueue.post_eq]
  exact congrArg (fun cqes => { s.dev with cqes }) hcqes

end IrqLoop

open IrqLoop in
/-- In every run a signal follows each completion, unless the flag is up or a worker is about to
raise it or to signal; and there are never more signals than completions. -/
theorem interrupts_follow_posts {σ : Type} {dev : NvmevDev σ} {s : IrqLoop σ}
    (hdev : ∀ q, dev.interruptReady q = false) (evs : List IrqEvent)
    (hs : (IrqLoop.init dev).run evs = .ok s) (q : Nat) :
    (Unsignalled s.log q → s.Coming q) ∧
      s.log.count (.signalled q) ≤ s.log.count (.posted q) := by
  have hinv := (Inv.init hdev).run hs
  exact ⟨hinv.announced q, Nat.le_trans (Nat.le_add_right _ _) (hinv.counted q)⟩

/-- A device with two workers and two completion queues. -/
def twoWorkers : NvmevDev Unit :=
  { (default : NvmevDev Unit) with
    nrIoWorkers := 2
    nrCq := 2
    cqes := fun _ => some { (default : NvmevCompletionQueue) with irqEnabled := true, queueSize := 4 } }

theorem twoWorkers_ready (q : Nat) : twoWorkers.interruptReady q = false := rfl

/-- A completion of queue 1. -/
def firstQueueWork : NvmevIoWork := { (default : NvmevIoWork) with cqid := 1 }

/-- Worker 1 posts to queue 1 once more after worker 0 has reset the flag and before it signals. -/
def postBetween : List IrqEvent :=
  [.fill 1 firstQueueWork, .raise 1, .start 0, .advance 0, .advance 0, .advance 0,
    .fill 1 firstQueueWork, .raise 1, .advance 0]

theorem interrupts_follow_posts_between : ∃ s, (IrqLoop.init twoWorkers).run postBetween = .ok s ∧
    s.log = [.posted 1, .posted 1, .signalled 1] ∧
    (Unsignalled s.log 1 → s.Coming 1) ∧
      s.log.count (.signalled 1) ≤ s.log.count (.posted 1) :=
  ⟨_, rfl, rfl, interrupts_follow_posts twoWorkers_ready postBetween rfl 1⟩

open IrqLoop in
/-- A worker goes once through the queues, which takes a bounded number of its steps. Before it is
back at its entries it has signalled for each queue it cares for that has a completion without a
signal and no entry half posted, whatever the other workers do meanwhile. -/
theorem pass_signals {σ : Type} {dev : NvmevDev σ} {s : IrqLoop σ}
    (hdev : ∀ q, dev.interruptReady q = false) (evs : List IrqEvent)
    (hs : (IrqLoop.init dev).run evs = .ok s) (i : Nat) (hwalk : s.stage i = .walking) :
    (∃ n ≤ 5 * dev.nrCq + 1, ((fun s => s.advance i)^[n] (s.start i)).stage i = .walking) ∧
      ∀ q, 1 ≤ q → q ≤ dev.nrCq → dev.caresFor i q = true → Unsignalled s.log q →
        (∀ j, s.stage j ≠ .filling q) → ∀ evs' s', (s.start i).run evs' = .ok s' →
        s'.stage i = .walking → ∃ added, s'.log = s.log ++ added ∧ .signalled q ∈ added := by
  have hinv := (Inv.init hdev).run hs
  have hext := run_extends hs
  have hnr : s.dev.nrCq = dev.nrCq := hext.nrCq
  have hstart : s.start i = s.setStage i (.scanning 1) := if_pos hwalk
  have hnow : (s.start i).stage i = .scanning 1 := by
    rw [hstart, stage_setStage, if_pos rfl]
  constructor
  · have hleft : left (s.start i).dev.nrCq ((s.start i).stage i) ≤ 5 * dev.nrCq + 1 := by
      rw [hnow, hstart, left_scanning]
      show (if 1 ≤ s.dev.nrCq then 5 * (s.dev.nrCq - 1) + 6 else 1) ≤ _
      split_ifs <;> omega
    exact advance_returns _ _ hleft (by rw [hnow]; rfl)
  · intro q hq hqn hcares hpost hnone evs' s' hs' hback
    have hcares' : s.dev.caresFor i q = true := (hext.cares i q).trans hcares
    have hup : s.dev.interruptReady q = true := by
      rcases hinv.announced q hpost with hup | ⟨j, hj⟩
      · exact hup
      exfalso
      -- The only worker that could be about to signal is `i` itself.
      have hheld : (s.stage j).lockedQueue = some q := by
        cases hstage : s.stage j with
        | filling q' =>
          rw [hstage] at hj
          cases hj
          exact absurd hstage (hnone j)
        | seen q' | cleared q' =>
          rw [hstage] at hj
          exact hj
        | _ => rw [hstage] at hj; cases hj
      obtain rfl : j = i := (caresFor_eq (hinv.cares j q hheld)).symm.trans (caresFor_eq hcares')
      rw [hwalk] at hheld
      cases hheld
    have hdue : (s.start i).Due i q := by
      refine Or.inl ⟨by rw [hstart]; exact hup, ?_⟩
      rw [hnow]
      exact decide_eq_true hq
    have hlog : (s.start i).log = s.log := by rw [hstart]; rfl
    rcases hdue.run hinv.start (by rw [hstart]; exact hcares') (by rw [hstart]; exact hnr ▸ hqn)
      hs' with hdue | hsignal
    · simp [Due, hback, IrqStage.ahead] at hdue
    · rwa [hlog] at hsignal

/-- Worker 1 posts once more while worker 0 is between its tests. -/
def roundEvents : List IrqEvent :=
  [.advance 0, .advance 0, .fill 1 firstQueueWork, .advance 0, .advance 0, .advance 0, .advance 0,
    .advance 0]

theorem pass_signals_round : ∃ s s',
    (IrqLoop.init twoWorkers).run [.fill 1 firstQueueWork, .raise 1] = .ok s ∧
    (s.start 0).run roundEvents = .ok s' ∧
    ∃ added, s'.log = s.log ++ added ∧ .signalled 1 ∈ added := by
  refine ⟨_, _, rfl, rfl, ?_⟩
  obtain ⟨-, hsignal⟩ :=
    pass_signals twoWorkers_ready [.fill 1 firstQueueWork, .raise 1] rfl 0 rfl
  refine hsignal 1 (by decide) (by decide) (by decide) ⟨[], [], rfl, by decide⟩ (fun j hj => ?_)
    roundEvents _ rfl rfl
  have hmoved : Function.update (Function.update (fun _ => IrqStage.walking) 1 (.filling 1)) 1
      .walking j = .filling 1 := hj
  rw [Function.update_idem, Function.update_apply] at hmoved
  split_ifs at hmoved

end NvmeVirt
