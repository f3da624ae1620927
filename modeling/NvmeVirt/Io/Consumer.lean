import NvmeVirt.Io.Device
import Mathlib.Data.List.Nodup
import Mathlib.Data.List.Range

/-!
# What a doorbell of a completion queue consumes

`nvmev_proc_io_cq` reads an entry of the ring before it looks whether the index is still one of the
ring. So it is as good as the cyclic interval between the two doorbells only while that interval does
not come to the end of the ring.
-/

namespace NvmeVirt

open Checked

/-- `NR_CQE_PER_PAGE`. -/
def nrCqePerPage : Nat := 256

/-- The entries on the pages that `__nvmev_admin_create_cq` maps for a queue of `queueSize` entries
of 16 bytes. -/
def mappedCqes (queueSize : Nat) : Nat := divRoundUp (queueSize * 16) 4096 * nrCqePerPage

theorem le_mappedCqes (queueSize : Nat) : queueSize ≤ mappedCqes queueSize := by
  unfold mappedCqes divRoundUp nrCqePerPage
  omega

/-- A queue with one entry in flight less. -/
def NvmevSubmissionQueue.consumed (sq : NvmevSubmissionQueue) : NvmevSubmissionQueue :=
  { sq with stat := { sq.stat with nrInFlight := u32Sub sq.stat.nrInFlight 1 } }

/-- What the loop of `nvmev_proc_io_cq` does: the indices of the entries that it reads, in order, and
the submission queues that it leaves. -/
structure CqReading where
  reads : List Nat
  sqes : Nat → Option NvmevSubmissionQueue

namespace NvmevCompletionQueue

variable {cq : NvmevCompletionQueue} {oldDb newDb fuel i q : Nat}
  {sqes : Nat → Option NvmevSubmissionQueue} {r : CqReading}

/-- The entry `i` is taken off the count of its submission queue, if that exists. -/
def consumeEntry (cq : NvmevCompletionQueue) (sqes : Nat → Option NvmevSubmissionQueue) (i : Nat) :
    Nat → Option NvmevSubmissionQueue :=
  match sqes (cq.cq i).sqId with
  | none => sqes
  | some sq => Function.update sqes (cq.cq i).sqId (some sq.consumed)

/-- The loop of `nvmev_proc_io_cq` from `i` on. The entry is read first, whatever `i` is; an entry
that lies on no mapped page, or names no element of `sqes`, cannot be read. Behind the ring `i` is set
to `-1` and counted up. -/
def procIoCqReads (cq : NvmevCompletionQueue) (newDb : Nat) :
    Nat → Nat → (Nat → Option NvmevSubmissionQueue) → Except DevFault (Option CqReading)
  | 0, _, _ => .ok none
  | fuel + 1, i, sqes =>
    if i = newDb then .ok (some { reads := [], sqes })
    else do
      require (i < mappedCqes cq.queueSize) .outOfRange
      if cq.queueSize ≤ i then
        let rest ← procIoCqReads cq newDb fuel 0 sqes
        return rest.map fun r => { r with reads := i :: r.reads }
      else
        require ((cq.cq i).sqId ≤ nrMaxIoQueue) .outOfRange
        let rest ← procIoCqReads cq newDb fuel (i + 1) (cq.consumeEntry sqes i)
        return rest.map fun r => { r with reads := i :: r.reads }

/-- `nvmev_proc_io_cq`. -/
def nvmevProcIoCq (cq : NvmevCompletionQueue) (fuel newDb oldDb : Nat)
    (sqes : Nat → Option NvmevSubmissionQueue) :
    Except DevFault (Option (CqReading × NvmevCompletionQueue)) := do
  let rest ← cq.procIoCqReads newDb fuel oldDb sqes
  return rest.map fun r => (r, cq.storeTail (asInt newDb))

/-! ## One entry -/

theorem consumeEntry_apply (cq : NvmevCompletionQueue)
    (sqes : Nat → Option NvmevSubmissionQueue) (i q : Nat) : cq.consumeEntry sqes i q =
      if (cq.cq i).sqId = q then (sqes q).map .consumed else sqes q := by
  unfold consumeEntry
  split_ifs with h
  · subst h
    cases hq : sqes (cq.cq i).sqId with
    | none => simp [hq]
    | some sq => simp
  · cases hq : sqes (cq.cq i).sqId with
    | none => rfl
    | some sq => simp [Function.update_of_ne (Ne.symm h)]

/-- The entries from `lo` up to `hi` name elements of `sqes`. -/
def Named (cq : NvmevCompletionQueue) (lo hi : Nat) : Prop :=
  ∀ i, lo ≤ i → i < hi → (cq.cq i).sqId ≤ nrMaxIoQueue

/-- The round for an entry of the ring. -/
theorem procIoCqReads_step (hq : (cq.cq i).sqId ≤ nrMaxIoQueue) (hi : i < cq.queueSize)
    (hne : i ≠ newDb) :
    cq.procIoCqReads newDb (fuel + 1) i sqes =
      (cq.procIoCqReads newDb fuel (i + 1) (cq.consumeEntry sqes i)).map
        (Option.map fun r => { r with reads := i :: r.reads }) := by
  rw [procIoCqReads, if_neg hne, require_pos (hi.trans_le (le_mappedCqes _)), ok_bind,
    if_neg (Nat.not_le.mpr hi), require_pos hq, ok_bind]
  cases cq.procIoCqReads newDb fuel (i + 1) (cq.consumeEntry sqes i) <;> rfl

/-- Entries taken off one after the other: every queue that exists loses one for each of its own. -/
theorem foldl_consumeEntry (cq : NvmevCompletionQueue) (l : List Nat)
    (sqes : Nat → Option NvmevSubmissionQueue) (q : Nat) :
    l.foldl cq.consumeEntry sqes q =
      (sqes q).map NvmevSubmissionQueue.consumed^[l.countP fun i => (cq.cq i).sqId = q] := by
  induction l generalizing sqes with
  | nil => simp
  | cons i l ih =>
    simp only [List.foldl_cons, ih, consumeEntry_apply, List.countP_cons]
    by_cases hiq : (cq.cq i).sqId = q
    · simp [hiq, Option.map_map]
    · simp [hiq]

/-- The loop of the dispatcher is this one, with the entries that it reads forgotten. -/
theorem procIoCqLoop_of_reads {o : Option CqReading}
    (h : cq.procIoCqReads newDb fuel i sqes = .ok o) :
    NvmevDev.procIoCqLoop cq newDb fuel i sqes = .ok (o.map CqReading.sqes) := by
  induction fuel generalizing i sqes o with
  | zero =>
    cases h
    rfl
  | succ fuel ih =>
    rw [NvmevDev.procIoCqLoop]
    rw [procIoCqReads] at h
    split_ifs at h ⊢ with hdone hend
    · cases h
      rfl
    · obtain ⟨_, -, h⟩ := bind_eq_ok.mp h
      obtain ⟨rest, hrest, h⟩ := bind_eq_ok.mp h
      cases h
      rw [ih hrest, Option.map_map]
      rfl
    · obtain ⟨_, -, h⟩ := bind_eq_ok.mp h
      obtain ⟨_, hnamed, h⟩ := bind_eq_ok.mp h
      obtain ⟨rest, hrest, h⟩ := bind_eq_ok.mp h
      cases h
      have hloop := ih hrest
      dsimp only
      rw [require_pos (require_eq_ok.mp hnamed), ok_bind]
      simp only [consumeEntry] at hloop
      cases hsq : sqes (cq.cq i).sqId with
      | none =>
        rw [hsq] at hloop
        simp only [hloop, Option.map_map]
        rfl
      | some sq =>
        rw [hsq] at hloop
        rw [Option.map_map]
        exact hloop

/-! ## Up to the new doorbell -/

/-- From an index that is not behind the new doorbell the loop reads up to the doorbell. -/
theorem procIoCqReads_upTo (hq : cq.Named i newDb) (hnew : newDb ≤ cq.queueSize) {n : Nat}
    (hn : i + n = newDb) (hfuel : n < fuel) : cq.procIoCqReads newDb fuel i sqes =
      .ok (some ⟨List.range' i n, (List.range' i n).foldl cq.consumeEntry sqes⟩) := by
  induction n generalizing i fuel sqes with
  | zero =>
    cases fuel with
    | zero => omega
    | succ fuel =>
      rw [procIoCqReads, if_pos (by omega)]
      rfl
  | succ n ih =>
    cases fuel with
    | zero => omega
    | succ fuel =>
      have hrest : cq.Named (i + 1) newDb := fun j hj => hq j (by omega)
      rw [procIoCqReads_step (hq i le_rfl (by omega)) (by omega) (by omega),
        ih hrest (by omega) (by omega)]
      rfl

/-- The loop gets to the new doorbell only over entries that name elements of `sqes`. -/
theorem named_of_reads (hi : i ≤ newDb) (hnew : newDb ≤ cq.queueSize)
    (hrun : cq.procIoCqReads newDb fuel i sqes = .ok (some r)) : cq.Named i newDb := by
  induction fuel generalizing i sqes r with
  | zero => cases hrun
  | succ fuel ih =>
    intro j hij hj
    rw [procIoCqReads, if_neg (by omega)] at hrun
    obtain ⟨_, -, hrun⟩ := bind_eq_ok.mp hrun
    rw [if_neg (by omega)] at hrun
    obtain ⟨_, hname, hrun⟩ := bind_eq_ok.mp hrun
    obtain ⟨rest, hrest, hrun⟩ := bind_eq_ok.mp hrun
    obtain ⟨r', rfl, -⟩ := Option.map_eq_some_iff.mp (Except.ok.inj hrun)
    rcases Nat.eq_or_lt_of_le hij with rfl | hlt
    · exact require_eq_ok.mp hname
    · exact ih (by omega) hrest j hlt hj

/-! ## Around the ring -/

/-- A loop that starts behind the new doorbell reads the entry behind the ring. -/
theorem size_mem_reads (hnew : newDb < i) (hi : i ≤ cq.queueSize)
    (hrun : cq.procIoCqReads newDb fuel i sqes = .ok (some r)) : cq.queueSize ∈ r.reads := by
  induction fuel generalizing i sqes r with
  | zero => cases hrun
  | succ fuel ih =>
    rw [procIoCqReads, if_neg (by omega)] at hrun
    obtain ⟨_, -, hrun⟩ := bind_eq_ok.mp hrun
    split at hrun
    · next hend =>
      obtain ⟨rest, -, hrun⟩ := bind_eq_ok.mp hrun
      obtain ⟨r', -, rfl⟩ := Option.map_eq_some_iff.mp (Except.ok.inj hrun)
      simp [Nat.le_antisymm hi hend]
    · next hlt =>
      obtain ⟨_, -, hrun⟩ := bind_eq_ok.mp hrun
      obtain ⟨rest, hrest, hrun⟩ := bind_eq_ok.mp hrun
      obtain ⟨r', rfl, rfl⟩ := Option.map_eq_some_iff.mp (Except.ok.inj hrun)
      exact List.mem_cons_of_mem _ (ih (by omega) (by omega) hrest)

/-- A loop that starts behind the new doorbell takes every entry of the cyclic interval off once,
and reads the entry behind the ring besides, if that lies on a mapped page; otherwise it faults. -/
theorem procIoCqReads_around (hq : cq.Named 0 cq.queueSize) (hnew : newDb < i) {n : Nat}
    (hn : i + n = cq.queueSize) (hfuel : n + newDb + 1 < fuel) :
    cq.procIoCqReads newDb fuel i sqes =
      if cq.queueSize < mappedCqes cq.queueSize then
        .ok (some ⟨List.range' i n ++ cq.queueSize :: List.range newDb,
          (List.range' i n ++ List.range newDb).foldl cq.consumeEntry sqes⟩)
      else .error .outOfRange := by
  induction n generalizing i fuel sqes with
  | zero =>
    cases fuel with
    | zero => omega
    | succ fuel =>
      have hsize : i = cq.queueSize := hn
      rw [procIoCqReads, if_neg (by omega), hsize, if_pos le_rfl]
      by_cases hmapped : cq.queueSize < mappedCqes cq.queueSize
      · rw [require_pos hmapped, ok_bind, if_pos hmapped,
          procIoCqReads_upTo (fun j _ hj => hq j (Nat.zero_le j) (by omega)) (by omega)
            (Nat.zero_add newDb) (by omega), List.range_eq_range']
        rfl
      · rw [require_neg hmapped, if_neg hmapped]
        rfl
  | succ n ih =>
    cases fuel with
    | zero => omega
    | succ fuel =>
      rw [procIoCqReads_step (hq i (Nat.zero_le i) (by omega)) (by omega) (by omega),
        ih (by omega) (by omega) (by omega)]
      split
      · rw [List.range'_succ]
        rfl
      · rfl

/-! ## The consumed interval -/

/-- The index `i` lies in the cyclic interval from `oldDb` up to `newDb`, in a ring of `size`. -/
def Between (size oldDb newDb i : Nat) : Prop :=
  i < size ∧ if oldDb < newDb then oldDb ≤ i ∧ i < newDb else oldDb ≤ i ∨ i < newDb

/-- What a doorbell should do: only entries of the ring are read, those of the cyclic interval once
each, the count of a queue is lowered once for each of its entries that is read, and the tail is the
entry in front of the new doorbell. -/
structure Consumes (cq : NvmevCompletionQueue) (newDb oldDb : Nat)
    (sqes : Nat → Option NvmevSubmissionQueue) (r : CqReading) (cq' : NvmevCompletionQueue) : Prop where
  inRing : ∀ i ∈ r.reads, i < cq.queueSize
  once : ∀ i, Between cq.queueSize oldDb newDb i → r.reads.count i = 1
  inFlight : ∀ q, r.sqes q =
    (sqes q).map NvmevSubmissionQueue.consumed^[r.reads.countP fun i => (cq.cq i).sqId = q]
  tail : cq'.cqTail = ((newDb : Int) - 1) % cq.queueSize

/-- A doorbell that moved forward. -/
theorem consumes_forward (hq : cq.Named oldDb newDb) (hold : oldDb < newDb)
    (hnew : newDb < cq.queueSize) (hsize : cq.queueSize < 2 ^ 31) : ∃ r cq',
      cq.nvmevProcIoCq cq.queueSize newDb oldDb sqes = .ok (some (r, cq')) ∧
        cq.Consumes newDb oldDb sqes r cq' := by
  have hrun := @procIoCqReads_upTo cq newDb cq.queueSize oldDb sqes hq hnew.le _
    (Nat.add_sub_cancel' hold.le) (by omega)
  refine ⟨_, cq.storeTail (asInt newDb), by rw [nvmevProcIoCq, hrun]; rfl, ?_⟩
  constructor
  · intro i hi
    have hi := List.mem_range'_1.mp hi
    omega
  · rintro i ⟨-, hi⟩
    rw [if_pos hold] at hi
    apply List.count_eq_one_of_mem (List.nodup_range' ..)
    apply List.mem_range'_1.mpr
    omega
  · exact foldl_consumeEntry cq _ sqes
  · have hpos : (newDb : Int) ≠ -1 := by omega
    rw [asInt_of_lt (by omega), Int.emod_eq_of_lt (by omega) (by omega)]
    simp [storeTail, hpos]

end NvmevCompletionQueue

open NvmevCompletionQueue

/-- A doorbell of a completion queue consumes the cyclic interval as it should if and only if it moved
forward, over entries that name elements of `sqes`: around the end of the ring the entry behind the
ring is read as well. -/
theorem cq_doorbell_consumes_iff (cq : NvmevCompletionQueue) (oldDb newDb : Nat)
    (sqes : Nat → Option NvmevSubmissionQueue) (hsize : cq.queueSize < 2 ^ 31)
    (hold : oldDb < cq.queueSize) (hnew : newDb < cq.queueSize) (hne : oldDb ≠ newDb) :
    (∃ fuel r cq', cq.nvmevProcIoCq fuel newDb oldDb sqes = .ok (some (r, cq')) ∧
      cq.Consumes newDb oldDb sqes r cq') ↔ oldDb < newDb ∧ cq.Named oldDb newDb := by
  constructor
  · rintro ⟨fuel, r, cq', hrun, hok⟩
    obtain ⟨rest, hrest, hrun⟩ := bind_eq_ok.mp hrun
    obtain ⟨r', rfl, heq⟩ := Option.map_eq_some_iff.mp (Except.ok.inj hrun)
    obtain ⟨rfl, -⟩ := Prod.mk.inj heq
    have hlt : oldDb < newDb := by
      by_contra hback
      exact Nat.lt_irrefl _ (hok.inRing _ (size_mem_reads (by omega) hold.le hrest))
    exact ⟨hlt, named_of_reads hlt.le hnew.le hrest⟩
  · rintro ⟨hlt, hq⟩
    exact ⟨cq.queueSize, consumes_forward hq hlt hnew hsize⟩

/-- A completion queue of `size` entries, all for submission queue 1. -/
def ownQueue (size : Nat) : NvmevCompletionQueue :=
  { (default : NvmevCompletionQueue) with
    queueSize := size, cq := fun _ => { (default : NvmeCompletion) with sqId := 1 } }

/-- The host has read two entries of a queue of four. -/
theorem cq_doorbell_consumes_two : ∃ fuel r cq',
    (ownQueue 4).nvmevProcIoCq fuel 3 1 (fun _ => some default) = .ok (some (r, cq')) ∧
      (ownQueue 4).Consumes 3 1 (fun _ => some default) r cq' :=
  (cq_doorbell_consumes_iff (ownQueue 4) 1 3 (fun _ => some default) (by decide) (by decide) (by decide)
    (by simp)).mpr ⟨by simp, by simp [Named, ownQueue, nrMaxIoQueue]⟩

/-- The last entry of a queue of two is read, and the doorbell goes to 0: the entry behind the ring is
read, and the tail is -1. In a queue that fills a page the entry behind the ring is on no page. -/
theorem cq_doorbell_wraps :
    ((ownQueue 2).nvmevProcIoCq 9 0 1 fun _ => none).map
        (Option.map fun p => (p.1.reads, p.2.cqTail)) = .ok (some ([1, 2], -1)) ∧
      ((ownQueue 256).nvmevProcIoCq 9 0 255 fun _ => none).map
        (Option.map fun p => (p.1.reads, p.2.cqTail)) = .error .outOfRange := by
  decide

end NvmeVirt
