import NvmeVirt.Io.Device
import NvmeVirt.Library.Ring

/-!
# A completion queue and its consumer

Workers post into a ring, and a host that follows the phase tag reads it. The producer
never looks at the position of the consumer, so what the host reads is what was posted
as long as every completion finds a slot that has been read.
-/

namespace NvmeVirt

open RingBuffer

/-- The completion that `__fill_cq_result` writes for `w`. -/
def NvmevCompletionQueue.entry (cq : NvmevCompletionQueue) (w : NvmevIoWork) : NvmeCompletion :=
  { commandId := w.commandId
    sqId := w.sqid
    sqHead := w.sqEntry
    status := cqeStatus cq.phase w.status
    result0 := w.result0
    result1 := w.result1 }

/-- A completion queue with its host: where the host reads next, the phase it expects, what it
has read, and what has been posted. -/
structure CqState where
  cq : NvmevCompletionQueue
  hostHead : Nat
  hostPhase : Bool
  consumed : List NvmeCompletion
  posted : List NvmeCompletion

namespace CqState

/-- A worker completes `w`. -/
def post (s : CqState) (w : NvmevIoWork) : CqState :=
  { s with cq := s.cq.post w, posted := s.posted ++ [s.cq.entry w] }

/-- The host looks at the next slot and takes the completion if the phase tag is the expected one. -/
def consume (s : CqState) : CqState :=
  let cqe := s.cq.cq s.hostHead
  if cqe.phase = s.hostPhase then
    let wraps := s.hostHead + 1 = s.cq.queueSize
    { s with
      consumed := s.consumed ++ [cqe]
      hostHead := if wraps then 0 else s.hostHead + 1
      hostPhase := if wraps then !s.hostPhase else s.hostPhase }
  else s

/-- The host rings the head doorbell and the dispatcher sees it. -/
def ring (s : CqState) : CqState := { s with cq := s.cq.storeTail s.hostHead }

/-- Completions that the host has not read. -/
def outstanding (s : CqState) : Nat := s.posted.length - s.consumed.length

end CqState

/-- The runs of a completion queue of `n` slots in which every completion is posted in a state
that satisfies `C`. The host clears the slots before it creates the queue. -/
inductive CqRun (n : Nat) (C : CqState → Prop) : CqState → Prop
  | created {cq : NvmevCompletionQueue} (hsize : cq.queueSize = n) (hphase : cq.phase = true)
      (hhead : cq.cqHead = 0) (hclear : ∀ i, (cq.cq i).phase = false) :
      CqRun n C { cq, hostHead := 0, hostPhase := true, consumed := [], posted := [] }
  | post {s : CqState} (w : NvmevIoWork) (h : CqRun n C s) (hc : C s) : CqRun n C (s.post w)
  | consume {s : CqState} (h : CqRun n C s) : CqRun n C s.consume
  | ring {s : CqState} (h : CqRun n C s) : CqRun n C s.ring

/-- What holds of a queue when no completion has been posted over one that was not read: entry
`k` of the posted ones is in slot `k % n`, and the host has read the first ones. -/
structure CqOk (n : Nat) (s : CqState) : Prop where
  size : s.cq.queueSize = n
  le : s.consumed.length ≤ s.posted.length
  room : s.posted.length ≤ s.consumed.length + n
  head : s.cq.cqHead = s.posted.length % n
  phase : s.cq.phase = ringPhase n s.posted.length
  hostHead : s.hostHead = s.consumed.length % n
  hostPhase : s.hostPhase = ringPhase n s.consumed.length
  slot : ∀ k (hk : k < s.posted.length), s.posted.length ≤ k + n → s.cq.cq (k % n) = s.posted[k]
  slotPhase : ∀ k (hk : k < s.posted.length), s.posted[k].phase = ringPhase n k
  fresh : ∀ k, s.posted.length ≤ k → k < n → (s.cq.cq k).phase = false
  consumed : s.consumed = s.posted.take s.consumed.length

namespace CqOk

variable {n : Nat} {s : CqState}

/-- A completion that finds a slot that was read. -/
theorem post (h : CqOk n s) (hn : 0 < n) (w : NvmevIoWork) (hroom : s.outstanding < n) :
    CqOk n (s.post w) := by
  have hp : (s.post w).posted.length = s.posted.length + 1 := List.length_append
  have hlt : s.posted.length < s.consumed.length + n := by
    rw [CqState.outstanding] at hroom
    omega
  have hslot := next_slot (i := s.posted.length) hn
  have hphase := ringPhase_succ (k := s.posted.length) hn
  have hcq : (s.post w).cq.cq =
      Function.update s.cq.cq (s.posted.length % n) (s.cq.entry w) := by
    rw [← h.head]
    rfl
  constructor
  · exact h.size
  · exact hp ▸ Nat.le_succ_of_le h.le
  · exact hp ▸ hlt
  · rw [hp, ← hslot, ← h.head, ← h.size]
    rfl
  · rw [hp, hphase, ← h.head, ← h.phase, ← h.size]
    rfl
  · exact h.hostHead
  · exact h.hostPhase
  · intro k hk hkn
    rw [hp] at hk hkn
    rw [hcq]
    rcases Nat.lt_succ_iff_lt_or_eq.mp hk with hlast | rfl
    · rw [Function.update_of_ne (slot_ne hlast hkn), h.slot k hlast (by omega)]
      exact (List.getElem_append_left hlast).symm
    · rw [Function.update_self]
      exact (List.getElem_concat_length rfl _).symm
  · intro k hk
    rw [hp] at hk
    rcases Nat.lt_succ_iff_lt_or_eq.mp hk with hlast | rfl
    · exact (congrArg _ (List.getElem_append_left hlast)).trans (h.slotPhase k hlast)
    · refine (congrArg _ (List.getElem_concat_length rfl _)).trans ?_
      rw [← h.phase]
      exact phase_cqeStatus _ rfl
  · intro k hk hkn
    rw [hp] at hk
    rw [hcq, Function.update_of_ne, h.fresh k (by omega) hkn]
    rw [Nat.mod_eq_of_lt (by omega)]
    omega
  · exact h.consumed.trans (List.take_append_of_le_length h.le).symm

/-- What the host finds in the next slot: the next completion, if there is one. -/
theorem consume_eq (h : CqOk n s) (hn : 0 < n) :
    if hlt : s.consumed.length < s.posted.length then
      s.cq.cq s.hostHead = s.posted[s.consumed.length] ∧
        (s.cq.cq s.hostHead).phase = s.hostPhase
    else (s.cq.cq s.hostHead).phase ≠ s.hostPhase := by
  rw [h.hostHead, h.hostPhase]
  split
  · next hlt =>
    have hslot := h.slot _ hlt h.room
    exact ⟨hslot, by rw [hslot, h.slotPhase]⟩
  · next hge =>
    have heq : s.consumed.length = s.posted.length := Nat.le_antisymm h.le (Nat.le_of_not_lt hge)
    rw [heq]
    by_cases hp : n ≤ s.posted.length
    · -- The slot was used one round ago.
      obtain ⟨k, hk⟩ := Nat.exists_eq_add_of_le' hp
      have hslot := h.slot k (by omega) (by omega)
      rw [hk, Nat.add_mod_right, hslot, h.slotPhase, ringPhase_add _ _ hn]
      cases ringPhase n k <;> decide
    · rw [Nat.mod_eq_of_lt (by omega), h.fresh _ le_rfl (by omega), ringPhase,
        Nat.div_eq_of_lt (by omega)]
      decide

/-- The host reads the next completion, or nothing. -/
theorem consume (h : CqOk n s) (hn : 0 < n) : CqOk n s.consume := by
  have heq := h.consume_eq hn
  split at heq
  · next hlt =>
    obtain ⟨hslot, hphase⟩ := heq
    have hnext := next_slot (i := s.consumed.length) hn
    have hflip := ringPhase_succ (k := s.consumed.length) hn
    have hs : s.consume = { s with
        consumed := s.consumed ++ [s.posted[s.consumed.length]]
        hostHead := (s.consumed.length + 1) % n
        hostPhase := ringPhase n (s.consumed.length + 1) } := by
      rw [CqState.consume, if_pos hphase, hslot, ← hnext, hflip, h.size, h.hostHead, h.hostPhase]
    rw [hs]
    have hlen : (s.consumed ++ [s.posted[s.consumed.length]]).length = s.consumed.length + 1 :=
      List.length_append
    refine ⟨h.size, ?_, ?_, h.head, h.phase, ?_, ?_, h.slot, h.slotPhase, h.fresh, ?_⟩
    · exact Nat.le_trans (Nat.le_of_eq hlen) hlt
    · apply Nat.le_trans h.room
      rw [hlen]
      omega
    · exact congrArg (· % n) hlen.symm
    · exact congrArg (ringPhase n) hlen.symm
    · change s.consumed ++ [s.posted[s.consumed.length]] = s.posted.take (_ ++ [_]).length
      rw [hlen, List.take_add_one, ← h.consumed, List.getElem?_eq_getElem hlt]
      rfl
  · rw [CqState.consume, if_neg heq]
    exact h

theorem ring (h : CqOk n s) : CqOk n s.ring :=
  ⟨h.size, h.le, h.room, h.head, h.phase, h.hostHead, h.hostPhase, h.slot, h.slotPhase, h.fresh,
    h.consumed⟩

end CqOk

/-- A queue keeps what was not read as long as every completion finds a slot that was. -/
theorem CqRun.cqOk {n : Nat} {s : CqState} (hn : 0 < n)
    (h : CqRun n (fun s => s.outstanding < n) s) : CqOk n s := by
  induction h with
  | created hsize hphase hhead hclear =>
    refine ⟨hsize, le_rfl, Nat.zero_le _, ?_, ?_, ?_, ?_, ?_, ?_, fun k _ _ => hclear k, rfl⟩
    · rw [hhead, List.length_nil, Nat.zero_mod]
    · rw [hphase, List.length_nil, ringPhase, Nat.zero_div]
      rfl
    · rw [List.length_nil, Nat.zero_mod]
    · rw [List.length_nil, ringPhase, Nat.zero_div]
      rfl
    · intro k hk
      cases hk
    · intro k hk
      cases hk
  | post w _ hc ih => exact ih.post hn w hc
  | consume _ ih => exact ih.consume hn
  | ring _ ih => exact ih.ring

/-- When every completion is posted while fewer than `n` are unread, no completion is posted
over an unread one, and the host that follows the phase tag reads the posted completions, each
once and in their order: it has read a prefix, every unread one is still in its slot, and it finds
the next one exactly when there is one. A completion more would be posted over an unread one. -/
theorem completions_read_in_order {n : Nat} {s : CqState} (hn : 2 ≤ n)
    (h : CqRun n (fun s => s.outstanding < n) s) :
    s.consumed = s.posted.take s.consumed.length ∧
    (∀ k (hk : k < s.posted.length), s.consumed.length ≤ k → s.cq.cq (k % n) = s.posted[k]) ∧
    s.consume.consumed = s.posted.take (s.consumed.length + 1) ∧
    ((∃ k, s.consumed.length ≤ k ∧ k < s.posted.length ∧ s.cq.cqHead = k % n) ↔
      s.outstanding = n) := by
  have hpos : 0 < n := by omega
  have hok := h.cqOk hpos
  refine ⟨hok.consumed, fun k hk hck => ?_, ?_, ?_⟩
  · exact hok.slot k hk (Nat.le_trans hok.room (Nat.add_le_add_right hck n))
  · have heq := hok.consume_eq hpos
    split at heq
    · next hlt =>
      rw [CqState.consume, if_pos heq.2, heq.1, List.take_add_one, ← hok.consumed,
        List.getElem?_eq_getElem hlt]
      rfl
    · next hge =>
      have hall : s.posted.length ≤ s.consumed.length := Nat.le_of_not_lt hge
      rw [CqState.consume, if_neg heq, List.take_of_length_le (Nat.le_succ_of_le hall)]
      exact hok.consumed.trans (List.take_of_length_le hall)
  · rw [hok.head, CqState.outstanding]
    have hroom := hok.room
    constructor
    · rintro ⟨k, hck, hkp, hslot⟩
      have hfar : ¬ s.posted.length < k + n := fun hnear => slot_ne hkp hnear hslot.symm
      omega
    · intro hfull
      refine ⟨s.consumed.length, le_rfl, by omega, ?_⟩
      rw [show s.posted.length = s.consumed.length + n by omega, Nat.add_mod_right]

/-! ## A queue of two slots -/

/-- A new completion queue of two cleared slots. -/
def cqOfTwo : CqState :=
  { cq := { (default : NvmevCompletionQueue) with queueSize := 2, phase := true }
    hostHead := 0
    hostPhase := true
    consumed := []
    posted := [] }

/-- The work entry of command `commandId` of queue `sqid`. -/
def workOf (sqid commandId : Nat) : NvmevIoWork :=
  { (default : NvmevIoWork) with sqid, commandId, cqid := 1 }

theorem cqOfTwo_created (C : CqState → Prop) : CqRun 2 C cqOfTwo :=
  .created rfl rfl rfl fun _ => rfl

/-- Two completions fit. -/
theorem completions_read_in_order_two :
    let s := (cqOfTwo.post (workOf 1 7)).post (workOf 2 9)
    s.consume.consumed = s.posted.take 1 :=
  (completions_read_in_order le_rfl
    (((cqOfTwo_created _).post (workOf 1 7) (by decide)).post (workOf 2 9) (by decide))).2.2.1

/-- Two submission queues share a completion queue of two slots, and three of their commands
complete before the host has read anything: the third completion is posted over the first one,
and the host reads nothing at all. -/
theorem completion_overwritten :
    ∃ s : CqState, CqRun 2 (fun _ => True) s ∧ s.posted.length = 3 ∧ s.consumed = [] ∧
      s.cq.cq 0 ≠ s.posted[0]! ∧ s.consume = s := by
  refine ⟨((cqOfTwo.post (workOf 1 7)).post (workOf 1 8)).post (workOf 2 9), ?_, rfl, rfl,
    by decide, ?_⟩
  · exact (((cqOfTwo_created _).post _ trivial).post _ trivial).post _ trivial
  · rw [CqState.consume, if_neg (by decide)]


end NvmeVirt
